import Rollout.FileSystem.Access
import Rollout.FileSystem.Glob
import Rollout.Script.Macro
import Rollout.Text.Lower

namespace Rollout

open Text

namespace Derived

def all : List Derived :=
  [.solutionDirectory, .platformTag, .programFiles, .windowsDirectory, .systemDirectory,
   .runtimeDirectory, .nativeCompiler]

def name : Derived → Text
  | solutionDirectory => "SolutionDir".toList
  | platformTag => "Platform".toList
  | programFiles => "ProgramFiles".toList
  | windowsDirectory => "Windows".toList
  | systemDirectory => "System".toList
  | runtimeDirectory => "Runtime".toList
  | nativeCompiler => "NGen".toList

def ofName? (t : Text) : Option Derived := all.find? fun d => d.name = t

end Derived

namespace World

def setting (w : World) (name : String) : Option Text := w.host.environment.lookup name.toList

/-- A directory is marked by an entry that ends in `.sln` and is not hidden. -/
def isMarked (w : World) (directory : Text) : Bool :=
  !(w.tree.glob w.current false (Path.join (Glob.escape directory) "*.sln".toList)).isEmpty

def nearestMarked (w : World) : (height : Nat) → Text → Option Text
  | 0, here => if w.isMarked here then some here else none
  | height + 1, here =>
    if w.isMarked here then some here
    else
      let parent := Path.directory here
      if parent = here then none else w.nearestMarked height parent

def platformTag (w : World) : Text :=
  let machine := lower w.host.machine
  if machine = "amd64".toList || machine = "x86_64".toList then
    if w.host.pointerBytes = 8 then "x64".toList else "x86".toList
  else if ["x86".toList, "i386".toList, "i686".toList].contains machine then "x86".toList
  else []

def windowsDirectory (w : World) : Option Text :=
  match w.setting "SystemRoot" with
  | some (c :: root) => some (c :: root)
  | _ => w.setting "windir"

def runtimeDirectory (w : World) : Text :=
  Path.directory (Path.absolute w.current w.host.executable)

def isLost (w : World) : Bool := w.host.losesDirectory && !w.isDirectory w.current

end World

def needDirectory (needed : Bool) : Action World Unit := do
  let w ← get
  if needed && w.isLost then throw .lostDirectory

/-- A value that is computed once and then kept, also when it is absent. -/
def memoized (d : Derived) (compute : Action World (Option Text)) : Action World (Option Text) := do
  let w ← get
  match w.memo.lookup d with
  | some value => pure value
  | none => do
    let value ← compute
    modify fun w => { w with memo := (d, value) :: w.memo }
    pure value

namespace Derived

def solutionDirectoryValue : Action World (Option Text) :=
  memoized .solutionDirectory do
    needDirectory true
    let w ← get
    pure (w.nearestMarked w.current.length w.current)

def platformTagValue : Action World (Option Text) :=
  memoized .platformTag do
    let w ← get
    pure (some w.platformTag)

def programFilesValue : Action World (Option Text) :=
  memoized .programFiles do
    let tag ← platformTagValue
    let w ← get
    match w.setting "ProgramFiles(x86)" with
    | some (c :: directory) =>
      if tag = some "x86".toList then pure (some (c :: directory))
      else pure (w.setting "ProgramFiles")
    | _ => pure (w.setting "ProgramFiles")

def windowsDirectoryValue : Action World (Option Text) :=
  memoized .windowsDirectory do
    let w ← get
    pure w.windowsDirectory

def systemDirectoryValue : Action World (Option Text) :=
  memoized .systemDirectory do
    match ← windowsDirectoryValue with
    | some (c :: root) => pure (some (Path.join (c :: root) "System32".toList))
    | _ => pure none

def runtimeDirectoryValue : Action World (Option Text) :=
  memoized .runtimeDirectory do
    let w ← get
    needDirectory (!Path.isAbsolute w.host.executable)
    pure (some w.runtimeDirectory)

def nativeCompilerValue : Action World (Option Text) :=
  memoized .nativeCompiler do
    let runtime ← runtimeDirectoryValue
    pure (runtime.map (Path.join · "NGen.exe".toList))

def value : Derived → Action World (Option Text)
  | solutionDirectory => solutionDirectoryValue
  | platformTag => platformTagValue
  | programFiles => programFilesValue
  | windowsDirectory => windowsDirectoryValue
  | systemDirectory => systemDirectoryValue
  | runtimeDirectory => runtimeDirectoryValue
  | nativeCompiler => nativeCompilerValue

def lookup : Script.Lookup World := fun name => (ofName? name).map value

end Derived

def World.isElevated (w : World) : Bool :=
  match w.host.platform with
  | .windows => w.host.administrator.getD false
  | .posix => w.host.user = 0

end Rollout
