import Rollout.Archive
import Rollout.CommandLine.Console
import Rollout.CommandLine.Request
import Rollout.Interpreter
import Rollout.Text.Blank

namespace Rollout.CommandLine

open Text

def print (t : Text) : Action World Unit := record (.printed t)

def complain (t : Text) : Action World Unit := record (.complained ("❌ ".toList ++ t ++ ['\n']))

def exitAfter (code : Nat) (a : Action World Unit) : Action World Nat := do
  a
  pure code

def preset : List Text → Action Session (Option Text)
  | [] => pure none
  | t :: rest =>
    match splitAttached t with
    | none => pure (some ("Expected NAME=VALUE, got '".toList ++ t ++ ['\'']))
    | some (name, value) => do
      match ← attempt (assign (trim name) (trim value)) with
      | .ok () => preset rest
      | .error (.script e) => pure (some (e.cause.label ++ ": ".toList ++ e.message))
      | .error e => throw e

def inSession {α : Type} (a : Action Session α) : Action World α := fun w =>
  match a { world := w } with
  | .ok x s => .ok x s.world
  | .error e s => .error e s.world

def runWith (settings : Settings) (scripts presets : List Text) : Action Session Nat := do
  match ← preset presets with
  | some problem => do
    onWorld (complain problem)
    pure 1
  | none => do
    let succeeded ← Interpreter.run settings Interpreter.nestingLimit scripts
    pure (if succeeded then 0 else 1)

def run (scripts : List Text) (resources : Option Text) (presets : List Text) (elevated : Bool) :
    Action World Nat := do
  let w ← get
  if elevated && !w.isElevated then
    exitAfter 2 (complain "Administrative rights are required".toList)
  else
    match Settings.make w (.ofDirectory w (resources.getD w.current)) none .declared none with
    | .error e => throw e
    | .ok settings => inSession (runWith settings scripts presets)

/-- How directories are walked. One that the system does not list is passed over without a word, and
the levels below the first directory are limited. -/
structure Walk where
  unlisted : List Location := []
  levels : Nat := 990

namespace Walk

/-- Whether a walk from a place gets to what has these names from there on: each directory on the
way is listed. -/
def reaches (walk : Walk) (l k : Location) : Bool :=
  (List.range k.length).all fun n => !walk.unlisted.contains (l ++ k.take n)

def exceeds (walk : Walk) (t : Tree) (l : Location) : Bool :=
  (t.directoriesBelow l).any fun k => walk.reaches l k && decide (walk.levels < k.length)

end Walk

def filesAt (walk : Walk) (w : World) (path : Text) : Except Fault (List Text) :=
  match w.tree.locate w.current path with
  | .ok l =>
    if w.tree.isDirectory l then
      if walk.exceeds w.tree l then .error .nestedTooDeep
      else .ok (((w.tree.filesBelow l).filter (walk.reaches l)).map (Path.joinAll path))
    else .ok [path]
  | .error _ => .ok [path]

def expand (walk : Walk) (w : World) (paths : List Text) : Except Fault (List Text) := do
  let listings ← paths.mapM (filesAt walk w)
  pure (listings.flatten.mergeSort Text.ble)

def archiverFor (w : World) (codec : Codec) (base : Option Text) : Archiver :=
  match base with
  | some (c :: base) => Archiver.setBase { codec } w (c :: base)
  | _ => { codec }

def pack (walk : Walk) (archive : Text) (paths : List Text) (base : Option Text) (codec : Codec) :
    Action World Nat := do
  let w ← get
  match expand walk w paths with
  | .error e => throw e
  | .ok files =>
    (archiverFor w codec base).create archive files
    exitAfter 0 (print
      ("✅ Packed ".toList ++ ofNat files.length ++ " files into ".toList ++ archive ++ ['\n']))

def unlessInvalid (archive : Text) (a : Action World Nat) : Action World Nat := do
  match ← attempt a with
  | .ok code => pure code
  | .error (.invalidArchive detail) =>
    exitAfter 1 (complain (archive ++ ": ".toList ++ (Fault.invalidArchive detail).message))
  | .error e => throw e

def unpack (archive directory : Text) (codec : Codec) : Action World Nat :=
  unlessInvalid archive do
    Archiver.extractFile { codec } archive directory
    exitAfter 0 (print ("✅ Extracted ".toList ++ archive ++ " to ".toList ++ directory ++ ['\n']))

def listing (r : Record) : Text :=
  padLeft 10 (ofNat r.content.length) ++ "  ".toList ++ r.path ++ ['\n']

def list (archive : Text) (codec : Codec) : Action World Nat :=
  unlessInvalid archive do
    let data ← readFile archive
    let scan := Scan.ofStream codec (Stream.ofBytes portion data)
    scan.records.forM fun r => print (listing r)
    exitAfter 0 (Archiver.finish scan.ending)

def fulfil (walk : Walk) : Request → Action World Nat
  | .run scripts resources presets elevated => run scripts resources presets elevated
  | .pack archive paths base codec => pack walk archive paths base codec
  | .unpack archive directory codec => unpack archive directory codec
  | .list archive codec => list archive codec

def halt (h : Halt) : Action World Nat :=
  match h.stop with
  | .help => exitAfter 0 (print h.grammar.help)
  | .version =>
    exitAfter 0 (print (h.grammar.program ++ [' '] ++ Version.program ++ ['\n']))
  | .misuse m => exitAfter 2 (record (.complained (h.grammar.complaint m)))

def thresholdFor (w : World) (verbose : Bool) : Level :=
  if verbose || !((w.setting "DEPLOYEX_DEBUG").getD []).isEmpty then .debug else .warning

structure Report where
  outcome : Except Fault Nat
  output : Text
  errorOutput : Text
  world : World

def Report.make (threshold : Level) : EStateM.Result Fault World Nat → Report
  | .ok code w => ⟨.ok code, outputOf w.journal, errorOutputOf threshold w.journal, w⟩
  | .error e w => ⟨.error e, outputOf w.journal, errorOutputOf threshold w.journal, w⟩

def call (arguments : List Text) (w : World) (walk : Walk := {}) : Report :=
  let w := { w with memo := [], journal := [] }
  match Order.ofArguments arguments with
  | .error h => Report.make .warning (halt h w)
  | .ok order => Report.make (thresholdFor w order.verbose) (fulfil walk order.request w)

end Rollout.CommandLine
