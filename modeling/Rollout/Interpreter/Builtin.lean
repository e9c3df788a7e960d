import Rollout.Archive
import Rollout.Host.Process
import Rollout.Host.Service
import Rollout.Interpreter.Session
import Rollout.Version.Metadata

namespace Rollout.Builtin

open Text Script

def message (arguments : List Text) : Action Session Flow := do
  let text := unwords (arguments.map unquote)
  say .info ("Message: ".toList ++ text)
  emit (.message text)
  pure .next

def notify (arguments : List Text) : Action Session Flow := do
  let text := unwords (arguments.map unquote)
  say .info ("Notification: ".toList ++ text)
  emit (.notification text)
  pure .next

/-- The files that a list names, below a directory. Blank lines name none. -/
def listedFiles (directory listing : Text) : List Text :=
  ((lines listing).map fun entry => (Path.parts (trim entry)).filter fun part => !part.isEmpty)
    |>.filter (fun parts => !parts.isEmpty)
    |>.map (Path.joinAll directory)

def pack (settings : Settings) (arguments : List Text) : Action Session Flow := do
  let list := arguments.head?.getD []
  require list "File list argument".toList .pack
  let s ← get
  require s.store.source "Source".toList .pack
  require s.store.target "Target".toList .pack
  let source := settings.pathOf s.store.source
  let target := settings.pathOf s.store.target
  match ← attempt (onWorld (settings.resources.readText (unquote list))) with
  | .error (.missingResource name location) =>
    fail .fileNotFound (some (Fault.missingResource name location).message) none
  | .error e => throw e
  | .ok listing => do
    let files := listedFiles source listing
    let packing : Action World Unit := do
      makeDirectories (Path.directory target)
      let w ← get
      Archiver.create (Archiver.setBase { codec := .deflate } w source) target files
    match ← attempt (onWorld packing) with
    | .error (.refused .noSuchFile path) =>
      fail .fileNotFound (some (Refusal.noSuchFile.message path)) none
    | .error (.refused reason path) =>
      fail .fileAccessDenied (some (reason.message path)) none
    | .error e => throw e
    | .ok () => do
      say .debug ("Packed ".toList ++ ofNat files.length ++ " files into ".toList ++ target)
      pure .next

def unpack (settings : Settings) : Action Session Flow := do
  let s ← get
  require s.store.source "Source".toList .unpack
  require s.store.target "Target".toList .unpack
  let target := settings.pathOf s.store.target
  match ← attempt (onWorld (settings.resources.read (unquote s.store.source))) with
  | .error (.missingResource name location) =>
    fail .fileNotFound (some (Fault.missingResource name location).message) none
  | .error e => throw e
  | .ok data => do
    let extracting :=
      Archiver.extract { codec := .deflate } (Stream.ofBytes portion data) target
    match ← attempt (onWorld extracting) with
    | .error (.invalidArchive detail) =>
      fail .fileNotFound
        (some ("Cannot unpack '".toList ++ s.store.source ++ "': ".toList ++
          (Fault.invalidArchive detail).message)) none
    | .error (.refused reason path) =>
      fail .fileAccessDenied (some (reason.message path)) none
    | .error e => throw e
    | .ok () => pure .next

def deleteAs (flag : Flag) (path : Text) : Action Session Flow := do
  match ← attempt (onWorld (removePath path)) with
  | .error (.refused reason path) => fail flag (some (reason.message path)) none
  | .error e => throw e
  | .ok () => pure .next

def deleteOne (settings : Settings) (argument : Text) : Action Session Flow := do
  let path := settings.pathOf argument
  let s ← get
  if s.world.isFile path then deleteAs .fileAccessDenied path
  else if s.world.isDirectory path then deleteAs .directoryAccessDenied path
  else pure .next

def delete (settings : Settings) (arguments : List Text) : Action Session Flow :=
  untilExit (deleteOne settings) arguments

def killOne (argument : Text) : Action Session Flow := do
  match ← attempt (onWorld (killByPath (unquote argument))) with
  | .error (.killDenied name pid) =>
    fail .fileAccessDenied (some (Fault.killDenied name pid).message) none
  | .error e => throw e
  | .ok true => pure .next
  | .ok false => do
    say .debug ("No running process for ".toList ++ argument)
    pure .next

def kill (arguments : List Text) : Action Session Flow := untilExit killOne arguments

def serviceStep (operation : Text → Action World Unit) (argument : Text) : Action Session Flow := do
  match ← attempt (onWorld (operation (unquote argument))) with
  | .error (.serviceOperation name detail) => do
    say .debug (Fault.serviceOperation name detail).message
    pure .next
  | .error e => throw e
  | .ok () => pure .next

def serviceStart (arguments : List Text) : Action Session Flow :=
  untilExit
    (serviceStep fun name => Service.start Service.defaultPoll name (some Service.startTimeout))
    arguments

def serviceStop (arguments : List Text) : Action Session Flow :=
  untilExit (serviceStep fun name => Service.stop Service.defaultPoll name none) arguments

def passAssemblyVersion (settings : Settings) (arguments : List Text) : Action Session Flow := do
  match arguments with
  | [source, target] =>
    match ← attempt (onWorld (Metadata.pass (settings.pathOf source) (settings.pathOf target))) with
    | .error (.missingMetadata path) =>
      fail .fileNotFound (some (Fault.missingMetadata path).message) none
    | .error (.refused .noSuchFile path) =>
      fail .fileNotFound (some (Refusal.noSuchFile.message path)) none
    | .error e => throw e
    | .ok (version, fileVersion) => do
      say .debug
        ("Passed version ".toList ++ version ++ " (file version ".toList ++ fileVersion ++ [')'])
      pure .next
  | _ =>
    throw (← located (.badArgument
      (Command.passAssemblyVersion.name ++ " requires 2 project paths".toList)))

def installedVersion (settings : Settings) (path : Text) : Action World Version := do
  let found ← match settings.probe with
    | .declared => Metadata.probe path
    | .table versions => pure ((versions.lookup path).getD none)
  match found with
  | some (n :: rest) => pure (n :: rest)
  | _ => pure [0]

/-- Decides a condition: nothing when the rest of the line is to be executed, or else what comes of
the line. A missing file can always be upgraded. -/
def decideUpgrade (settings : Settings) (path : Text) : Action Session (Option Flow) := do
  let s ← get
  if s.world.isFile path then do
    let installed ← onWorld (installedVersion settings path)
    if Version.compare settings.version installed = .gt then pure none
    else do
      let flow ← fail .alreadyInstalled
        (some ("Version ".toList ++ Version.describe installed ++
          " is already installed at ".toList ++ path)) none
      pure (some flow)
  else pure none

inductive Condition
  | fileThere
  | fileMissing
  | upgrade
  deriving DecidableEq, Repr

def Condition.decide (settings : Settings) (argument : Text) :
    Condition → Action Session (Option Flow)
  | fileThere => do
    let s ← get
    pure (if s.world.pathExists (settings.pathOf argument) then none else some .next)
  | fileMissing => do
    let s ← get
    pure (if s.world.pathExists (settings.pathOf argument) then some .next else none)
  | upgrade => decideUpgrade settings (settings.pathOf argument)

def runProcess (settings : Settings) (path arguments : Text) : Action Session Flow := do
  let s ← get
  let starting := launch (unquote path) arguments (some settings.directory)
    s.store.redirectOutput (some s.store.processTimeout)
  let refused (flag : Flag) (e : Fault) : Action Session Flow :=
    fail flag (some ("Cannot start '".toList ++ path ++ "': ".toList ++ e.message)) none
  match ← attempt (onWorld starting) with
  | .error (.refused .noSuchFile key) => refused .fileNotFound (.refused .noSuchFile key)
  | .error (.refused .denied key) => refused .fileAccessDenied (.refused .denied key)
  | .error e => throw e
  | .ok outcome =>
    if outcome.exitCode = 0 then pure .next
    else fail .nonZeroExitCode outcome.output (some outcome.exitCode)

end Rollout.Builtin
