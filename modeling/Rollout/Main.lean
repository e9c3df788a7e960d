import Rollout.CommandLine

namespace Rollout.CommandLine

def pathOf (l : Location) : String := String.ofList (l.flatMap ('/' :: ·))

def loadTree : IO Tree := do
  let here ← IO.currentDir
  let mut tree := Tree.empty.ensureDirectories [] (Tree.placeOf here.toString.toList)
  for path in ← here.walkDir do
    let place := Tree.placeOf path.toString.toList
    if ← path.isDir then
      tree := tree.ensureDirectories [] place
    else
      let content ← IO.FS.readBinFile path
      tree := tree.put place content.toList
  pure tree

def settingNames : List String :=
  ["DEPLOYEX_DEBUG", "ProgramFiles", "ProgramFiles(x86)", "SystemRoot", "windir"]

def loadSettings : IO (List (Text × Text)) :=
  settingNames.filterMapM fun name => do
    let value ← IO.getEnv name
    pure (value.map fun v => (name.toList, v.toList))

def loadWorld : IO World := do
  let tree ← loadTree
  let environment ← loadSettings
  let user ← IO.getEnv "USER"
  let executable ← IO.appPath
  pure
    { tree
      current := (← IO.currentDir).toString.toList
      host :=
        { environment
          executable := executable.toString.toList
          user := if user = some "root" then 0 else 1000 } }

def removeLost (before after : Tree) : IO Unit := do
  for (l, n) in before.entries do
    if (after.get? l).isNone then
      match n with
      | .file _ => IO.FS.removeFile (pathOf l)
      | .directory => pure ()
  for (l, n) in before.entries do
    if (after.get? l).isNone && n == .directory then
      try IO.FS.removeDirAll (pathOf l) catch _ => pure ()

def storeChanges (before after : Tree) : IO Unit := do
  for (l, n) in after.entries do
    if before.get? l ≠ some n then
      match n with
      | .directory => IO.FS.createDirAll (pathOf l)
      | .file content => do
        IO.FS.createDirAll (pathOf l.dropLast)
        IO.FS.writeBinFile (pathOf l) (ByteArray.mk content.toArray)

end Rollout.CommandLine

open Rollout CommandLine in
def main (arguments : List String) : IO UInt32 := do
  let w ← loadWorld
  let r := call (arguments.map String.toList) w
  removeLost w.tree r.world.tree
  storeChanges w.tree r.world.tree
  IO.print (String.ofList r.output)
  IO.eprint (String.ofList r.errorOutput)
  match r.outcome with
  | .ok code => pure (UInt32.ofNat code)
  | .error e => do
    IO.eprintln (String.ofList e.message)
    pure 1
