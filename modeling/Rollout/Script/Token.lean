import Rollout.Text

namespace Rollout.Script

open Text

def consToken (c : Char) : List Text → List Text
  | [] => [[c]]
  | token :: more => (c :: token) :: more

/-- Cuts at spaces that are neither quoted nor right after a backslash. Quotes and backslashes stay
in the tokens. -/
def tokensFrom : (quoted escaped : Bool) → Text → List Text
  | _, _, [] => [[]]
  | quoted, escaped, c :: rest =>
    if c = '"' then consToken c (tokensFrom (!quoted) false rest)
    else if c = ' ' && !quoted && !escaped then [] :: tokensFrom quoted false rest
    else consToken c (tokensFrom quoted (c = '\\') rest)

def tokenize (line : Text) : List Text := tokensFrom false false line

def unquote (t : Text) : Text := t.filter (· ≠ '"')

def quote (t : Text) : Text :=
  if t.contains ' ' then '"' :: (unquote t ++ ['"']) else t

/-- The arguments of a program: the tokens that are not empty, without their quotes. -/
def splitArguments (arguments : Text) : List Text :=
  ((tokenize arguments).filter fun t => !t.isEmpty).map unquote

theorem tokensFrom_ne_nil (quoted escaped : Bool) (t : Text) :
    tokensFrom quoted escaped t ≠ [] := by
  have hc : ∀ c ts, consToken c ts ≠ [] := by intro c ts; cases ts <;> simp [consToken]
  cases t with
  | nil => simp [tokensFrom]
  | cons c rest =>
    unfold tokensFrom
    split
    · exact hc _ _
    · split
      · simp
      · exact hc _ _

theorem tokenize_ne_nil (t : Text) : tokenize t ≠ [] := tokensFrom_ne_nil _ _ _

theorem not_mem_unquote (t : Text) : '"' ∉ unquote t := by simp [unquote]

end Rollout.Script
