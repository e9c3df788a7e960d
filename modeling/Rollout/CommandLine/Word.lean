import Rollout.CommandLine.Grammar
import Rollout.Text.Digit

namespace Rollout.CommandLine

open Text

inductive Reading
  /-- The `--` after which there are no options. -/
  | separator
  | plain
  | option (s : Switch) (name : Text) (attached : Option Text)
  | unknown
  deriving DecidableEq, Repr

structure Word where
  text : Text
  reading : Reading
  deriving DecidableEq, Repr

def Word.isOption (w : Word) : Bool :=
  match w.reading with
  | .option .. | .unknown => true
  | .separator | .plain => false

def separator : Text := "--".toList

def splitAttached (t : Text) : Option (Text × Text) :=
  if t.contains '=' then some (t.takeWhile (· ≠ '='), (t.dropWhile (· ≠ '=')).drop 1) else none

/-- A minus sign and a decimal number. A line feed may follow. -/
def isNegativeNumber : Text → Bool
  | '-' :: t =>
    let t := if endsWith t ['\n'] then t.dropLast else t
    match t.dropWhile isDigit with
    | [] => !t.isEmpty
    | c :: rest => c = '.' && !rest.isEmpty && rest.all isDigit
  | _ => false

namespace Grammar

/-- The options that an argument may stand for though it is not the name of one: a long name cut
short, or a short name with something attached. -/
def candidates (g : Grammar) (t : Text) : List (Switch × Text × Option Text) :=
  if startsWith t separator then
    let (start, attached) := match splitAttached t with
      | some (start, value) => (start, some value)
      | none => (t, none)
    if g.abbreviates then
      g.names.filterMap fun (name, s) =>
        if startsWith name start then some (s, name, attached) else none
    else []
  else
    g.names.filterMap fun (name, s) =>
      if name = t.take 2 then some (s, name, some (t.drop 2)) else none

def exactly (g : Grammar) (t : Text) : Option Reading :=
  match g.switch? t with
  | some s => some (.option s t none)
  | none =>
    match splitAttached t with
    | some (name, value) => (g.switch? name).map fun s => .option s name (some value)
    | none => none

def readDashed (g : Grammar) (t : Text) : Except Misuse Reading :=
  match g.exactly t with
  | some reading => .ok reading
  | none =>
    match g.candidates t with
    | [(s, name, attached)] => .ok (.option s name attached)
    | [] => .ok (if isNegativeNumber t || t.contains ' ' then .plain else .unknown)
    | several => .error (.ambiguous t (several.map (·.2.1)))

def read (g : Grammar) (t : Text) : Except Misuse Reading :=
  if startsWith t ['-'] && t.length ≠ 1 then g.readDashed t else .ok .plain

def words (g : Grammar) : List Text → Except Misuse (List Word)
  | [] => .ok []
  | t :: rest =>
    if t = separator then .ok (⟨t, .separator⟩ :: rest.map (⟨·, .plain⟩))
    else match g.read t with
      | .error m => .error m
      | .ok reading =>
        match g.words rest with
        | .error m => .error m
        | .ok ws => .ok (⟨t, reading⟩ :: ws)

end Grammar

end Rollout.CommandLine
