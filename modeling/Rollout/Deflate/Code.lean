import Rollout.Deflate.Bits

namespace Rollout.Deflate

/-- A prefix code as a tree. A bit sequence that leads to no symbol ends at `unused`. -/
inductive Code
  | unused
  | leaf (symbol : Nat)
  | node (zero one : Code)
  deriving DecidableEq, Repr

namespace Code

/-- Reads bits down to a leaf. Nothing when the input ends on the way, no symbol at an unused
place. -/
def decode : Code → Source → Option (Option Nat × Source)
  | unused, s => some (none, s)
  | leaf symbol, s => some (some symbol, s)
  | node zero one, s =>
    match s.bit? with
    | none => none
    | some (false, s) => zero.decode s
    | some (true, s) => one.decode s

def path? : Code → Nat → Option (List Bool)
  | unused, _ => none
  | leaf symbol, n => if symbol = n then some [] else none
  | node zero one, n =>
    match zero.path? n with
    | some bits => some (false :: bits)
    | none => (one.path? n).map (true :: ·)

def pairUp : List Code → List Code
  | a :: b :: rest => node a b :: pairUp rest
  | [a] => [node a unused]
  | [] => []

def symbolsOfLength (lengths : List Nat) (length : Nat) : List Code :=
  (lengths.zipIdx.filter fun (l, _) => l = length).map fun (_, symbol) => leaf symbol

/-- The subtrees at depth `length`, of which `below` levels may hold symbols: shorter codes come
first, and codes of one length follow the order of their symbols. -/
def forest (lengths : List Nat) : (below length : Nat) → List Code
  | 0, _ => []
  | below + 1, length =>
    symbolsOfLength lengths length ++ pairUp (forest lengths below (length + 1))

def maxLength : Nat := 15

def ofLengths (lengths : List Nat) : Code :=
  match pairUp (forest lengths maxLength 1) with
  | [] => node unused unused
  | code :: _ => code

/-- The share of all long bit sequences that the lengths use up, in units of the longest code. -/
def usage (lengths : List Nat) : Nat :=
  lengths.foldl (fun used l => if l = 0 then used else used + 1 <<< (maxLength - l)) 0

def isComplete (lengths : List Nat) : Bool := usage lengths = 1 <<< maxLength

def isVoid (lengths : List Nat) : Bool := lengths.all (· = 0)

def isSingle (lengths : List Nat) : Bool := lengths.filter (· ≠ 0) = [1]

end Code

end Rollout.Deflate
