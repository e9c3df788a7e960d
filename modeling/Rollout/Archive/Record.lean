import Rollout.Utf8

namespace Rollout

structure Record where
  path : Text
  content : Bytes
  deriving DecidableEq, Repr

namespace Record

/-- A length as four bytes, the least significant first. -/
def encodeLength (n : Nat) : Bytes :=
  [UInt8.ofNat n, UInt8.ofNat (n / 0x100), UInt8.ofNat (n / 0x10000), UInt8.ofNat (n / 0x1000000)]

def unsigned : Bytes → Nat
  | [] => 0
  | b :: rest => b.toNat + 0x100 * unsigned rest

def decodeLength (bytes : Bytes) : Int :=
  let n := unsigned bytes
  if n < 0x80000000 then n else (n : Int) - 0x100000000

def encode (r : Record) : Bytes :=
  let path := Utf8.encode r.path
  encodeLength path.length ++ path ++ encodeLength r.content.length ++ r.content

def encodeAll (rs : List Record) : Bytes := rs.flatMap encode

theorem length_encodeLength (n : Nat) : (encodeLength n).length = 4 := rfl

theorem decodeLength_encodeLength {n : Nat} (h : n < 0x80000000) :
    decodeLength (encodeLength n) = n := by
  have hu : unsigned (encodeLength n) = n := by
    simp only [unsigned, encodeLength, UInt8.toNat_ofNat']
    omega
  simp [decodeLength, hu, h]

theorem encodeAll_cons (r : Record) (rs : List Record) :
    encodeAll (r :: rs) = r.encode ++ encodeAll rs := by simp [encodeAll]

end Record

end Rollout
