import Rollout.Host.Derived
import Rollout.Resource
import Rollout.Script.Line
import Rollout.Version

namespace Rollout

open Text

/-- How the version of an installed file is found: in the file, or in a table. -/
inductive Probe
  | declared
  | table (versions : List (Text × Option Version))
  deriving DecidableEq, Repr

structure Settings where
  resources : Resources
  version : Version
  probe : Probe := .declared
  directory : Text
  deriving DecidableEq, Repr

def Settings.make (w : World) (resources : Resources) (version : Option Text) (probe : Probe)
    (directory : Option Text) : Except Fault Settings :=
  let given (t : Option Text) (default : Text) : Text :=
    match t with
    | some (c :: rest) => c :: rest
    | _ => default
  match Version.parse (given version Version.program) with
  | .error e => .error e
  | .ok version =>
    .ok
      { resources
        version
        probe
        directory := Path.absolute w.current (given directory w.current) }

inductive Flow
  | next
  | exit
  deriving DecidableEq, Repr

/-- An interpreter between two steps: its variables, the line it is at, how deep scripts are nested,
what has failed in this run, and the world. -/
structure Session where
  store : Script.Variables := {}
  script : Option Text := none
  line : Option Text := none
  depth : Nat := 0
  status : Status := .ok
  failed : Bool := false
  diagnostics : Option Diagnostics := none
  world : World

def onWorld {α : Type} (a : Action World α) : Action Session α := fun s =>
  match a s.world with
  | .ok x world => .ok x { s with world }
  | .error e world => .error e { s with world }

def say (level : Level) (text : Text) : Action Session Unit := onWorld (log level .interpreter text)

def emit (e : Entry) : Action Session Unit := onWorld (record e)

def reportFailure (d : Diagnostics) : Action Session Unit := do
  modify fun s => { s with failed := true, diagnostics := some d }
  say .error ("Script failed: ".toList ++ d.describe)
  emit (.failure d)

/-- Adds a flag to the status. Unless errors are ignored, the run fails and ends. -/
def fail (flag : Flag) (message : Option Text) (exitCode : Option Int) : Action Session Flow := do
  modify fun s => { s with status := s.status.add flag }
  let s ← get
  if s.store.ignoreErrors then do
    say .warning
      ("Ignoring ".toList ++ (Status.ofFlag flag).describe ++ " on line '".toList ++
        orNone s.line ++ "' in ".toList ++ orNone s.script)
    pure .next
  else do
    reportFailure
      { script := s.script, line := s.line, status := s.status, message, exitCode }
    pure .exit

def located (cause : Cause) : Action Session Fault := do
  let s ← get
  pure (.script { cause, line := s.line, script := s.script })

def require (value what : Text) (command : Script.Command) : Action Session Unit := do
  if value.isEmpty then
    throw (← located (.badArgument
      (what ++ " cannot be empty for ".toList ++ command.name ++ " command".toList)))

def Settings.pathOf (settings : Settings) (path : Text) : Text :=
  Path.join settings.directory (Script.unquote path)

def resolveMacros (t : Text) : Action Session Text := do
  let s ← get
  onWorld (Script.resolve s.store Derived.lookup t)

def assign (name value : Text) : Action Session Unit := do
  let value ← resolveMacros value
  let s ← get
  match s.store.assign name value with
  | .ok store => set { s with store }
  | .error e => throw (.script e)

def untilExit {α : Type} (step : α → Action Session Flow) : List α → Action Session Flow
  | [] => pure .next
  | a :: rest => do
    match ← step a with
    | .exit => pure .exit
    | .next => untilExit step rest

def deeper {α : Type} (a : Action Session α) : Action Session α := fun s =>
  match a { s with depth := s.depth + 1 } with
  | .ok x s => .ok x { s with depth := s.depth - 1 }
  | .error e s => .error e { s with depth := s.depth - 1 }

end Rollout
