namespace Rollout

/-- Text is a list of code points, so that offsets and lengths count code points. -/
abbrev Text := List Char

abbrev Bytes := List UInt8

namespace Text

def ofNat (n : Nat) : Text := Nat.toDigits 10 n

def ofInt : Int → Text
  | .ofNat n => ofNat n
  | .negSucc n => '-' :: ofNat (n + 1)

def orNone (t : Option Text) : Text := t.getD "None".toList

def ofBool (b : Bool) : Text := if b then "True".toList else "False".toList

def ofHex (width n : Nat) : Text :=
  let digits := Nat.toDigits 16 n
  List.replicate (width - digits.length) '0' ++ digits

def padLeft (width : Nat) (t : Text) : Text := List.replicate (width - t.length) ' ' ++ t

def join (separator : Text) (parts : List Text) : Text := separator.intercalate parts

def unwords (parts : List Text) : Text := join [' '] parts

def startsWith (t start : Text) : Bool := start.isPrefixOf t

def endsWith (t ending : Text) : Bool := ending.reverse.isPrefixOf t.reverse

def after? (start t : Text) : Option Text :=
  match start, t with
  | [], t => some t
  | _ :: _, [] => none
  | s :: start, c :: t => if s = c then after? start t else none

theorem after?_append (start t : Text) : after? start (start ++ t) = some t := by
  induction start with
  | nil => cases t <;> rfl
  | cons s start ih => simp [after?, ih]

theorem eq_append_of_after? {start t rest : Text} (h : after? start t = some rest) :
    t = start ++ rest := by
  induction start generalizing t with
  | nil =>
    cases t <;> simp_all [after?]
  | cons s start ih =>
    cases t with
    | nil => simp [after?] at h
    | cons c t =>
      by_cases hc : s = c
      · simp only [after?, hc, if_true] at h
        simp [hc, ih h]
      · simp [after?, hc] at h

/-- The order of code points, shorter first among texts of which one begins the other. -/
def ble : Text → Text → Bool
  | [], _ => true
  | _ :: _, [] => false
  | a :: s, b :: t => if a = b then ble s t else a.val ≤ b.val

end Text

end Rollout
