import Rollout.Path
import Rollout.Script.Command
import Rollout.Script.Variables
import Rollout.Text.Occurrence

namespace Rollout.Script

open Text

def isMacroChar (c : Char) : Bool := c ≠ '(' && c ≠ ')' && c ≠ '$'

def macroAt (t : Text) : Option (Text × Nat) :=
  match after? "$(".toList t with
  | none => none
  | some rest =>
    let name := rest.takeWhile isMacroChar
    if !name.isEmpty && (rest.drop name.length).head? == some ')' then
      some (name, name.length + 3)
    else none

def macroName (t : Text) : Option Text :=
  let t := trim t
  match macroAt t with
  | some (name, length) => if length = t.length then some name else none
  | none => none

/-- A stem, a dot, and at least two small letters. -/
def isFileName (t : Text) : Bool :=
  let extension := (t.reverse.takeWhile (· ≠ '.')).reverse
  let stem := t.take (t.length - extension.length - 1)
  t.contains '.' && !stem.isEmpty && stem.all (· ≠ ')') && 2 ≤ extension.length &&
    extension.all fun c => 'a' ≤ c && c ≤ 'z'

variable {σ : Type}

/-- Finds the values that are derived from the host: which names have one, and how to compute it.
A computed value may be absent. -/
abbrev Lookup (σ : Type) := Text → Option (Action σ (Option Text))

def unresolved (name : Text) : Fault := .script { cause := .unresolvedMacro name }

/-- The text that stands for a macro: command names stand for themselves, then come variables,
derived values, and file names below the target. -/
def valueOf (vs : Variables) (lookup : Lookup σ) (name : Text) : Action σ Text :=
  if isReserved name then pure (spell name)
  else match Variable.ofName? name with
    | some v => pure (quote (vs.get v))
    | none =>
      match lookup name with
      | some compute => do
        match ← compute with
        | some value => pure (quote value)
        | none => throw (unresolved name)
      | none =>
        if isFileName name then pure (quote (Path.join (unquote vs.target) name))
        else throw (unresolved name)

def substitute (value : Text → Action σ Text) : List (Piece Char Text) → Action σ Text
  | [] => pure []
  | .plain c :: rest => do
    let tail ← substitute value rest
    pure (c :: tail)
  | .found name :: rest => do
    let head ← value name
    let tail ← substitute value rest
    pure (head ++ tail)

/-- Resolves every macro of a line at once; inserted text is not scanned again. -/
def resolve (vs : Variables) (lookup : Lookup σ) (line : Text) : Action σ Text :=
  substitute (valueOf vs lookup) (occurrences macroAt 0 line)

end Rollout.Script
