import Rollout.Fault
import Rollout.Text.Integer

namespace Rollout

open Text

abbrev Version := List Int

namespace Version

/-- Drops zeros at the end, but keeps the first number. -/
def trimZeros : List Int → List Int
  | [] => []
  | n :: rest =>
    match trimZeros rest with
    | [0] => [n]
    | more => n :: more

def parseParts : List Text → Except Fault (List Int)
  | [] => .ok []
  | part :: rest =>
    match parseInt part with
    | .error .invalid => .error (.badInteger part)
    | .error (.tooManyDigits count) => .error (.tooManyDigits count)
    | .ok n =>
      match parseParts rest with
      | .ok more => .ok (n :: more)
      | .error e => .error e

def parse (t : Text) : Except Fault Version :=
  match parseParts ((trim t).splitOn '.') with
  | .ok parts => .ok (trimZeros parts)
  | .error e => .error e

/-- Compares number by number; a version that goes on is newer than one that ends. -/
def compare : Version → Version → Ordering
  | [], [] => .eq
  | [], _ :: _ => .lt
  | _ :: _, [] => .gt
  | m :: a, n :: b => if m < n then .lt else if n < m then .gt else compare a b

def describe (v : Version) : Text := join ['.'] (v.map ofInt)

def program : Text := "0.1.0".toList

theorem compare_self (v : Version) : compare v v = .eq := by
  induction v with
  | nil => rfl
  | cons n v ih => simp [compare, ih]

end Version

end Rollout
