import Rollout.Text

namespace Rollout.Deflate

/-- The bits of a byte, the least significant first. -/
def bitsOfByte (b : UInt8) : List Bool := (List.range 8).map b.toNat.testBit

def ofBits : List Bool → Nat
  | [] => 0
  | b :: rest => 2 * ofBits rest + b.toNat

def toBits : (count n : Nat) → List Bool
  | 0, _ => []
  | count + 1, n => (n % 2 = 1) :: toBits count (n / 2)

/-- Input not yet read: the bits left of a byte that is begun, and whole bytes after it. -/
structure Source where
  held : List Bool := []
  bytes : Bytes := []
  deriving DecidableEq, Repr

namespace Source

def size (s : Source) : Nat := s.held.length + 8 * s.bytes.length

def toBits (s : Source) : List Bool := s.held ++ s.bytes.flatMap bitsOfByte

def append (s : Source) (more : Bytes) : Source := { s with bytes := s.bytes ++ more }

def bit? (s : Source) : Option (Bool × Source) :=
  match s.held with
  | b :: held => some (b, { s with held })
  | [] =>
    match s.bytes with
    | [] => none
    | byte :: bytes =>
      match bitsOfByte byte with
      | b :: held => some (b, ⟨held, bytes⟩)
      | [] => none

def number? : (count : Nat) → Source → Option (Nat × Source)
  | 0, s => some (0, s)
  | count + 1, s =>
    match s.bit? with
    | none => none
    | some (b, s) =>
      match number? count s with
      | none => none
      | some (n, s) => some (2 * n + b.toNat, s)

def align (s : Source) : Source := { s with held := [] }

end Source

def packBits : List Bool → Bytes
  | [] => []
  | a :: b :: c :: d :: e :: f :: g :: h :: rest =>
    UInt8.ofNat (ofBits [a, b, c, d, e, f, g, h]) :: packBits rest
  | bits => [UInt8.ofNat (ofBits bits)]

theorem ofBits_toBits (count n : Nat) : ofBits (toBits count n) = n % (1 <<< count) := by
  induction count generalizing n with
  | zero => simp [toBits, ofBits, Nat.mod_one]
  | succ count ih =>
    simp only [toBits, ofBits, ih]
    have h : n % (1 <<< (count + 1)) = 2 * (n / 2 % (1 <<< count)) + n % 2 := by
      rw [Nat.shiftLeft_succ, Nat.mod_mul]
      omega
    rw [h]
    rcases Nat.mod_two_eq_zero_or_one n with h0 | h1
    · simp [h0]
    · simp [h1]

end Rollout.Deflate
