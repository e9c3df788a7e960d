import Rollout.Interpreter.Builtin

namespace Rollout.Interpreter

open Text Script

inductive Handler
  | condition (condition : Builtin.Condition)
  | run
  | plain (act : Settings → List Text → Action Session Flow)

def handlerOf : Command → Handler
  | .run => .run
  | .message => .plain fun _ => Builtin.message
  | .notify => .plain fun _ => Builtin.notify
  | .pack => .plain Builtin.pack
  | .unpack => .plain fun settings _ => Builtin.unpack settings
  | .delete => .plain Builtin.delete
  | .kill => .plain fun _ => Builtin.kill
  | .serviceStart => .plain fun _ => Builtin.serviceStart
  | .serviceStop => .plain fun _ => Builtin.serviceStop
  | .ifExists => .condition .fileThere
  | .ifNotExists => .condition .fileMissing
  | .ifUpgradeTo => .condition .upgrade
  | .passAssemblyVersion => .plain Builtin.passAssemblyVersion

/-- The runs of scripts for the levels that are left, the next one first. A condition that holds
takes a level, as a run that is nested does. -/
abbrev Nested := List (List Text → Action Session Flow)

def descend (nested : Nested)
    (enter : (List Text → Action Session Flow) → Nested → Action Session Flow) :
    Action Session Flow :=
  match nested with
  | [] => throw .nestedTooDeep
  | run :: below => enter run below

def runNext (nested : Nested) (names : List Text) : Action Session Flow :=
  descend nested fun run _ => run names

def execute (settings : Settings) (nested : Nested) : List Text → Action Session Flow
  | [] => throw .noTokens
  | name :: arguments =>
    match headOf name with
    | .exit => do
      say .debug "Exit requested".toList
      pure .exit
    | .external => Builtin.runProcess settings name (unwords arguments)
    | .builtin command => do
      say .debug ("Built-in ".toList ++ command.name ++ [' '] ++ tupleLiteral arguments)
      match handlerOf command with
      | .plain act => act settings arguments
      | .run => runNext nested arguments
      | .condition condition =>
        match arguments with
        | [] => do
          require [] "Path".toList command
          pure .next
        | path :: rest => do
          require path "Path".toList command
          match ← condition.decide settings path with
          | some flow => pure flow
          | none =>
            if rest.isEmpty then pure .next
            else descend nested fun _ below => execute settings below rest

def executeAssignment (left right : Text) : Action Session Unit := do
  match macroName left with
  | none => throw (← located (.malformed "Invalid assignment".toList))
  | some name => do
    assign name right
    let s ← get
    let value ← onWorld (valueOf s.store Derived.lookup name)
    say .debug (name ++ " = ".toList ++ literal value)

def executeLine (settings : Settings) (nested : Nested) (line : Text) :
    Action Session Flow := do
  match splitAssignment line with
  | some (left, right) => do
    executeAssignment left right
    pure .next
  | none => do
    let resolved ← resolveMacros line
    execute settings nested (tokenize resolved)

def runLine (settings : Settings) (nested : Nested) (script line : Text) :
    Action Session Flow := do
  modify fun s => { s with script := some script, line := some line }
  say .debug (script ++ ": ".toList ++ line)
  executeLine settings nested (stripComment line)

def activeLines (t : Text) : List Text := (scriptLines t).filter fun line => !isSkipped line

def runScript (settings : Settings) (nested : Nested) (name : Text) :
    Action Session Flow := do
  match ← attempt (onWorld (settings.resources.readText name)) with
  | .error (.missingResource name location) =>
    fail .fileNotFound (some (Fault.missingResource name location).message) none
  | .error e => throw e
  | .ok t => untilExit (runLine settings nested name) (activeLines t)

def runNamed (settings : Settings) (nested : Nested) (name : Text) :
    Action Session Flow :=
  if name = exitToken then pure .exit else runScript settings nested (unquote name)

/-- Tells the host of success when the outermost scripts have ended without a failure. -/
def reportSuccess : Action Session Unit := do
  let s ← get
  if s.depth = 0 && !s.failed && s.status = .ok then do
    say .info "Run completed successfully".toList
    emit .success

def runAll (settings : Settings) (nested : Nested) (names : List Text) : Action Session Flow := do
  let flow ← deeper (untilExit (runNamed settings nested) names)
  reportSuccess
  pure flow

def levels (settings : Settings) : (limit : Nat) → Nested
  | 0 => []
  | limit + 1 =>
    let below := levels settings limit
    runAll settings below :: below

def runScripts (settings : Settings) (limit : Nat) (names : List Text) : Action Session Flow :=
  runNext (levels settings limit) names

/-- Runs scripts as a new run and tells whether it succeeded. A script error ends the run as a
failure; any other fault is passed on. -/
def run (settings : Settings) (limit : Nat) (names : List Text) : Action Session Bool := do
  modify fun s =>
    { s with status := .ok, failed := false, diagnostics := none, script := none, line := none }
  match ← attempt (runScripts settings limit names) with
  | .ok _ => pure ()
  | .error (.script e) => do
    modify fun s => { s with status := s.status.union e.cause.status }
    let s ← get
    reportFailure
      { script := s.script, line := s.line, status := s.status, message := some e.message }
  | .error e => throw e
  let s ← get
  pure (!s.failed && s.status = .ok)

/-- How deep scripts and conditions may be nested, unless the host sets another limit: a condition
takes three of the thousand frames there are. -/
def nestingLimit : Nat := 333

end Rollout.Interpreter
