import Rollout.Host.Derived

namespace Rollout

open Text

structure Outcome where
  exitCode : Int
  stdout : Option Text := none
  stderr : Option Text := none
  deriving DecidableEq, Repr

def Outcome.output (o : Outcome) : Option Text :=
  let streams := ([o.stdout, o.stderr].filterMap id).map trim
  match streams.filter fun t => !t.isEmpty with
  | [] => none
  | parts => some (join ['\n'] parts)

/-- Backslashes double before a double quote, and the quote gets one of its own. `slashes` counts
those just read. -/
def escapeArgument (slashes : Nat) : Text → Text × Nat
  | [] => ([], slashes)
  | c :: rest =>
    if c = '\\' then escapeArgument (slashes + 1) rest
    else
      let escaped :=
        if c = '"' then List.replicate (2 * slashes) '\\' ++ "\\\"".toList
        else List.replicate slashes '\\' ++ [c]
      let (tail, left) := escapeArgument 0 rest
      (escaped ++ tail, left)

def quoteArgument (t : Text) : Text :=
  let (escaped, slashes) := escapeArgument 0 t
  let body := escaped ++ List.replicate slashes '\\'
  if t.isEmpty || t.contains ' ' || t.contains '\t' then
    '"' :: (body ++ List.replicate slashes '\\' ++ ['"'])
  else body

def callOf (platform : Platform) (path arguments : Text) : Call :=
  match platform with
  | .windows => .line (trimRight (quoteArgument path ++ ' ' :: arguments))
  | .posix => .words path (Script.splitArguments arguments)

def Call.describe : Call → Text
  | .words path arguments => listLiteral (path :: arguments)
  | .line text => text

def launch (path arguments : Text) (directory : Option Text) (captured : Bool)
    (timeout : Option Int) : Action World Outcome := do
  let w ← get
  let call := callOf w.host.platform path arguments
  log .debug .processes ("Launching ".toList ++ call.describe)
  record (.launch call directory captured timeout)
  match w.programs { call, directory, timeout, current := w.current, tree := w.tree } with
  | .refused reason path => throw (.refused reason path)
  | .nullByte => throw .nullByte
  | .exited exited => do
    modify fun w => { w with tree := exited.tree }
    match timeout with
    | some limit =>
      if (limit : Rat) ≤ exited.seconds then
        throw (.script { cause := .processTimeout path limit })
    | none => pure ()
    pure
      { exitCode := exited.exitCode
        stdout := if captured then some exited.stdout else none
        stderr := if captured then some exited.stderr else none }

def processName (path : Text) : Text :=
  Path.withoutExtension (Path.fileName (path.map fun c => if c = '\\' then '/' else c))

def RunningProcess.isNamed (p : RunningProcess) (name : Text) : Bool :=
  lower (Path.withoutExtension (p.name.getD [])) = name

/-- The first process of a name that is not gone, with those before it and after it. -/
def findProcess (name : Text) :
    List RunningProcess → Option (List RunningProcess × RunningProcess × List RunningProcess)
  | [] => none
  | p :: rest =>
    if p.isNamed name && p.fate ≠ .gone then some ([], p, rest)
    else (findProcess name rest).map fun (before, q, after) => (p :: before, q, after)

def killByPath (path : Text) : Action World Bool := do
  let w ← get
  match findProcess (lower (processName path)) w.processes with
  | none => pure false
  | some (before, p, after) =>
    let name := p.name.getD []
    if p.fate = .denied then throw (.killDenied name p.pid)
    set { w with processes := before ++ after }
    record (.killed p.pid)
    log .debug .processes
      ("Killed process ".toList ++ name ++ " (pid ".toList ++ ofInt p.pid ++ [')'])
    pure true

end Rollout
