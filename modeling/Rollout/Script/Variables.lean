import Rollout.Fault
import Rollout.Script.Token
import Rollout.Text.Integer

namespace Rollout.Script

open Text

/-- Compares a letter of the vocabulary with a code point, ignoring case. The long s and the Turkish
forms of i count as the letters they fold to. -/
def sameLetter (letter c : Char) : Bool :=
  c.toLower = letter || (letter = 's' && c.toNat = 0x17F) ||
    (letter = 'i' && (c.toNat = 0x130 || c.toNat = 0x131))

def sameWord : Text → Text → Bool
  | [], [] => true
  | letter :: word, c :: t => sameLetter letter c && sameWord word t
  | _, _ => false

def falseWords : List Text :=
  ["false".toList, "no".toList, "nope".toList, "off".toList, "disable".toList]

/-- Every text is true but zeros and the words for false. -/
def toBool (t : Text) : Bool :=
  let t := trim (unquote t)
  !((!t.isEmpty && t.all (· = '0')) || falseWords.any fun word => sameWord word t)

def toInt (t : Text) : Except ScriptError Int :=
  match parseInt (trim (unquote t)) with
  | .ok n => .ok n
  | .error _ => .error { cause := .malformed (['\''] ++ t ++ "' is not an integer".toList) }

inductive Variable
  | source
  | target
  | ignoreErrors
  | redirectOutput
  | processTimeout
  deriving DecidableEq, Repr

def Variable.all : List Variable :=
  [.source, .target, .ignoreErrors, .redirectOutput, .processTimeout]

def Variable.name : Variable → Text
  | source => "Source".toList
  | target => "Target".toList
  | ignoreErrors => "IgnoreErrors".toList
  | redirectOutput => "RedirectOutput".toList
  | processTimeout => "ProcessTimeoutSeconds".toList

def Variable.ofName? (t : Text) : Option Variable := all.find? fun v => v.name = t

theorem Variable.ofName?_name (v : Variable) : ofName? v.name = some v := by cases v <;> decide

structure Variables where
  source : Text := []
  target : Text := []
  ignoreErrors : Bool := false
  redirectOutput : Bool := false
  processTimeout : Int := 300
  deriving DecidableEq, Repr

namespace Variables

def get (vs : Variables) : Variable → Text
  | .source => vs.source
  | .target => vs.target
  | .ignoreErrors => ofBool vs.ignoreErrors
  | .redirectOutput => ofBool vs.redirectOutput
  | .processTimeout => ofInt vs.processTimeout

def set (vs : Variables) (v : Variable) (t : Text) : Except ScriptError Variables :=
  match v with
  | .source => .ok { vs with source := t }
  | .target => .ok { vs with target := t }
  | .ignoreErrors => .ok { vs with ignoreErrors := toBool t }
  | .redirectOutput => .ok { vs with redirectOutput := toBool t }
  | .processTimeout =>
    match toInt t with
    | .ok n => .ok { vs with processTimeout := n }
    | .error e => .error e

def assign (vs : Variables) (name t : Text) : Except ScriptError Variables :=
  match Variable.ofName? name with
  | some v => vs.set v t
  | none => .error { cause := .undefinedVariable name }

/-- Assigning to one variable leaves the others. -/
theorem get_of_set {vs vs' : Variables} {v w : Variable} {t : Text} (h : vs.set v t = .ok vs')
    (hw : w ≠ v) : vs'.get w = vs.get w := by
  cases v with
  | processTimeout =>
    unfold set at h
    cases ht : toInt t with
    | error e => simp [ht] at h
    | ok n =>
      simp only [ht, Except.ok.injEq] at h
      subst h
      cases w <;> simp_all [get]
  | _ =>
    simp only [set, Except.ok.injEq] at h
    subst h
    cases w <;> simp_all [get]

end Variables

end Rollout.Script
