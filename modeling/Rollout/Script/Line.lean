import Rollout.Text.Blank

namespace Rollout.Script

open Text

def scriptLines (t : Text) : List Text := (t.splitOn '\n').map trim

def isSkipped (line : Text) : Bool := line.isEmpty || line.head? == some '#'

def cutUnquoted (mark : Char) : (quoted : Bool) → Text → Option (Text × Text)
  | _, [] => none
  | quoted, c :: rest =>
    if c = '"' then (cutUnquoted mark (!quoted) rest).map fun (l, r) => (c :: l, r)
    else if c = mark && !quoted then some ([], rest)
    else (cutUnquoted mark quoted rest).map fun (l, r) => (c :: l, r)

/-- Removes a trailing comment and the blanks before it. A line that begins with the comment stays
as it is. -/
def stripComment (line : Text) : Text :=
  match cutUnquoted '#' false line with
  | some (code, _) => if code.isEmpty then line else trimRight code
  | none => line

def splitAssignment (line : Text) : Option (Text × Text) :=
  (cutUnquoted '=' false line).map fun (l, r) => (trim l, trim r)

theorem cutUnquoted_eq_append {mark : Char} {quoted : Bool} {t l r : Text}
    (h : cutUnquoted mark quoted t = some (l, r)) : t = l ++ mark :: r := by
  induction t generalizing quoted l with
  | nil => simp [cutUnquoted] at h
  | cons c rest ih =>
    unfold cutUnquoted at h
    split at h
    · obtain ⟨⟨l', r'⟩, h', he⟩ := Option.map_eq_some_iff.1 h
      cases he
      simp [ih h']
    · split at h
      · next hc =>
        simp only [Bool.and_eq_true, decide_eq_true_eq] at hc
        cases h
        simp [hc.1]
      · obtain ⟨⟨l', r'⟩, h', he⟩ := Option.map_eq_some_iff.1 h
        cases he
        simp [ih h']

end Rollout.Script
