import Rollout.World

namespace Rollout

open Text

namespace World

def node? (w : World) (path : Text) : Option Node := (w.tree.find w.current path).toOption

def isFile (w : World) (path : Text) : Bool :=
  match w.node? path with
  | some (.file _) => true
  | _ => false

def isDirectory (w : World) (path : Text) : Bool := w.node? path == some .directory

def pathExists (w : World) (path : Text) : Bool := (w.node? path).isSome

/-- Access is denied by the normalised path, whether or not there is anything. -/
def isDenied (w : World) (path : Text) : Bool := w.denied.contains (Path.absolute w.current path)

end World

def guardPath (path : Text) : Action World Unit := do
  let w ← get
  if w.isDenied path then throw (.refused .denied path)
  if path.contains '\x00' then throw .nullByte

def readFile (path : Text) : Action World Bytes := do
  guardPath path
  let w ← get
  match w.tree.read w.current path with
  | .ok content => pure content
  | .error r => throw (.refused r path)

def writeFile (path : Text) (content : Bytes) : Action World Unit := do
  guardPath path
  let w ← get
  match w.tree.write w.current path content with
  | .ok tree => set { w with tree }
  | .error r => throw (.refused r path)

def removePath (path : Text) : Action World Unit := do
  guardPath path
  let w ← get
  let (tree, refusal) := w.tree.erase w.current path
  set { w with tree }
  match refusal with
  | none => pure ()
  | some r => throw (.refused r path)

def makeDirectory (path : Text) : Action World Unit := do
  if path.contains '\x00' then throw .nullByte
  let w ← get
  match w.tree.makeDirectory w.current path with
  | .ok tree => set { w with tree }
  | .error r => throw (.refused r path)

def settleDirectory (path : Text) : Action World Unit :=
  tryCatch (makeDirectory path) fun e => do
    match e with
    | .refused _ _ =>
      let w ← get
      if w.isDirectory path then pure () else throw e
    | _ => throw e

/-- A path cut before its last name; slashes after the name do not count. -/
def splitDirectory (path : Text) : Text × Text :=
  let (head, tail) := Path.splitLast path
  let head := Path.trimSlashes head
  if tail.isEmpty then
    let (head, tail) := Path.splitLast head
    (Path.trimSlashes head, tail)
  else (head, tail)

/-- Makes a directory below `depth` missing ones at most. A file in the way is reported only by the
directory that is made last. -/
def makeDirectoriesWithin : (depth : Nat) → Text → Action World Unit
  | 0, path => settleDirectory path
  | depth + 1, path => do
    let (head, tail) := splitDirectory path
    let w ← get
    if !head.isEmpty && !tail.isEmpty && !w.pathExists head then
      tryCatch (makeDirectoriesWithin depth head) fun e =>
        match e with
        | .refused .alreadyExists _ => pure ()
        | _ => throw e
      if tail = Path.dot then pure () else settleDirectory path
    else settleDirectory path

def makeDirectories (path : Text) : Action World Unit := do
  let w ← get
  if w.isDenied path then throw (.refused .denied path)
  makeDirectoriesWithin path.length path

end Rollout
