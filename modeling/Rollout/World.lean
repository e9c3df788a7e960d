import Rollout.FileSystem.Walk
import Rollout.Journal

namespace Rollout

open Text

inductive Platform
  | posix
  | windows
  deriving DecidableEq, Repr

structure Host where
  environment : List (Text × Text) := []
  machine : Text := "x86_64".toList
  pointerBytes : Nat := 8
  executable : Text := []
  platform : Platform := .posix
  user : Int := 0
  /-- The answer to whether the user is an administrator, if there is one. -/
  administrator : Option Bool := some false
  /-- Whether the current directory is lost when it is removed. -/
  losesDirectory : Bool := false
  /-- How much of what is written to a file may wait. -/
  bufferBytes : Nat := 0x1000
  deriving DecidableEq, Repr

/-- A program that is to be started, and the files that are there then. -/
structure Start where
  call : Call
  directory : Option Text
  timeout : Option Int
  current : Text
  tree : Tree

structure Exited where
  tree : Tree
  seconds : Rat := 0
  exitCode : Int := 0
  stdout : Text := []
  stderr : Text := []

inductive Started
  | refused (reason : Refusal) (path : Text)
  | nullByte
  | exited (exited : Exited)

/-- A program that does the same whenever it is started. -/
structure Program where
  refusal : Option Refusal := none
  seconds : Rat := 0
  writes : List (Location × Bytes) := []
  exitCode : Int := 0
  stdout : Text := []
  stderr : Text := []
  deriving DecidableEq, Repr

def Program.leaves (program : Program) (start : Start) : Tree :=
  if start.timeout.any fun limit => (limit : Rat) ≤ program.seconds then start.tree
  else program.writes.foldl (fun t (l, content) => t.put l content) start.tree

def startListed (programs : List (Text × Program)) (start : Start) : Started :=
  match programs.lookup start.call.key with
  | none => .refused .noSuchFile start.call.key
  | some program =>
    match program.refusal with
    | some reason => .refused reason start.call.key
    | none =>
      .exited
        { tree := program.leaves start
          seconds := program.seconds
          exitCode := program.exitCode
          stdout := program.stdout
          stderr := program.stderr }

inductive Fate
  | dies
  | gone
  | denied
  deriving DecidableEq, Repr

structure RunningProcess where
  name : Option Text
  pid : Int
  fate : Fate := .dies
  deriving DecidableEq, Repr

inductive Reply
  | state (name : Text)
  | raw (code : Int) (output : Text)
  deriving DecidableEq, Repr

inductive Derived
  | solutionDirectory
  | platformTag
  | programFiles
  | windowsDirectory
  | systemDirectory
  | runtimeDirectory
  | nativeCompiler
  deriving DecidableEq, Repr

structure World where
  tree : Tree := .empty
  current : Text := ['/']
  denied : List Text := []
  host : Host := {}
  packages : List (Text × Tree) := []
  /-- Where the packages lie. -/
  site : Text := "/site-packages".toList
  programs : Start → Started := startListed []
  processes : List RunningProcess := []
  replies : List Reply := []
  clock : Rat := 0
  memo : List (Derived × Option Text) := []
  journal : Journal := []

def record (e : Entry) : Action World Unit :=
  modify fun w => { w with journal := w.journal ++ [e] }

def log (level : Level) (channel : Channel) (text : Text) : Action World Unit :=
  record (.log level channel text)

end Rollout
