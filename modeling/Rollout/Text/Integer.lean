import Rollout.Text.Blank
import Rollout.Text.Digit

namespace Rollout.Text

inductive IntegerError
  | invalid
  | tooManyDigits (count : Nat)
  deriving DecidableEq, Repr

def digitLimit : Nat := 4300

/-- The blanks allowed around an integer literal: the ASCII ones of a terminal and all others. -/
def isIntegerBlank (c : Char) : Bool :=
  if c.toNat < 0x80 then c.toNat = 0x20 || (0x9 ≤ c.toNat && c.toNat < 0xE) else isBlank c

/-- The leading run of digits with single underscores between them: the digits' values, last first,
whether the run ends in an underscore, and the rest. -/
def digitRun (found : List Nat) (gap : Bool) : Text → List Nat × Bool × Text
  | [] => (found, gap, [])
  | c :: rest =>
    match digit? c with
    | some d => digitRun (d :: found) false rest
    | none => if c = '_' && !gap && !found.isEmpty then digitRun found true rest
        else (found, gap, c :: rest)

def valueOfDigits : List Nat → Nat
  | [] => 0
  | d :: more => valueOfDigits more * 10 + d

def splitSign : Text → Bool × Text
  | '-' :: rest => (true, rest)
  | '+' :: rest => (false, rest)
  | t => (false, t)

/-- Reads a base ten integer literal. Too many digits are reported before anything after them. -/
def parseInt (t : Text) : Except IntegerError Int :=
  let (negative, body) := splitSign (t.dropWhile isIntegerBlank)
  let (digits, gap, rest) := digitRun [] false body
  if digits.isEmpty || gap then .error .invalid
  else if digitLimit < digits.length then .error (.tooManyDigits digits.length)
  else if rest.all isIntegerBlank then
    let n := valueOfDigits digits
    .ok (if negative then -(n : Int) else (n : Int))
  else .error .invalid

end Rollout.Text
