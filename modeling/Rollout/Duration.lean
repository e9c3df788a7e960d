import Rollout.Text

namespace Rollout

/-- A number of seconds: `coefficient` with the decimal point moved `places` digits to the left. -/
structure Duration where
  coefficient : Rat
  places : Nat := 0
  deriving DecidableEq, Repr

namespace Duration

def seconds (d : Duration) : Rat := d.coefficient / (Nat.pow 10 d.places : Nat)

def trimZeros : Text → Text
  | [] => []
  | [c] => [c]
  | c :: rest =>
    match trimZeros rest with
    | ['0'] => [c]
    | t => c :: t

def decimal (coefficient : Int) (places : Nat) : Text :=
  let digits := Text.ofNat coefficient.natAbs
  let padded := List.replicate (places + 1 - digits.length) '0' ++ digits
  let whole := padded.take (padded.length - places)
  let fraction := trimZeros (padded.drop (padded.length - places))
  (if coefficient < 0 then ['-'] else []) ++ whole ++
    if fraction.isEmpty then [] else '.' :: fraction

def describe (d : Duration) : Text :=
  if d.coefficient.den = 1 then decimal d.coefficient.num d.places
  else Text.ofInt d.seconds.num ++ '/' :: Text.ofNat d.seconds.den

end Duration

end Rollout
