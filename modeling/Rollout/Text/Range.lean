import Rollout.Text

namespace Rollout.Text

/-- Membership in a set of numbers given by the points at which it begins and ends, in order. -/
def within (n : Nat) : List Nat → Bool
  | [] => false
  | [start] => start ≤ n
  | start :: stop :: rest => (start ≤ n && n < stop) || within n rest

end Rollout.Text
