import Rollout.FileSystem.Access
import Rollout.Text.Lines

namespace Rollout

open Text

inductive Resources
  | directory (root : Text)
  | package (name : Text)
  | memory (items : List (Text × Bytes))
  deriving DecidableEq, Repr

namespace Resources

def ofDirectory (w : World) (root : Text) : Resources := .directory (Path.absolute w.current root)

def namesIn (name : Text) : List Text :=
  (Path.components name).filter fun n => !n.isEmpty && n ≠ Path.dot

/-- What a name of a package leads to. An absolute name leaves the package. -/
def packaged (w : World) (home : Text) (files : Tree) (name : Text) : Except Refusal Node :=
  if Path.isAbsolute name then w.tree.find ['/'] ('/' :: join ['/'] (namesIn name))
  else files.find ['/'] ('/' :: join ['/'] (home :: namesIn name))

def packagedPath (w : World) (home name : Text) : Text :=
  if Path.isAbsolute name then '/' :: join ['/'] (namesIn name)
  else Path.join w.site (join ['/'] (home :: namesIn name))

/-- The content of a file of a package, unless a file is not found or may not be opened. -/
def readPackaged (w : World) (home : Text) (files : Tree) (name : Text) : Except Fault Bytes :=
  if name.contains '\x00' then .error (.missingResource name (some home))
  else match packaged w home files name with
    | .ok (.file content) =>
      if w.isDenied (packagedPath w home name) then
        .error (.refused .denied (packagedPath w home name))
      else .ok content
    | .error .nameTooLong => .error (.refused .nameTooLong (packagedPath w home name))
    | _ => .error (.missingResource name (some home))

def read (r : Resources) (name : Text) : Action World Bytes :=
  match r with
  | .directory root => do
    let path := Path.join root name
    let w ← get
    if w.isFile path then readFile path else throw (.missingResource name (some root))
  | .package home => do
    let w ← get
    match w.packages.lookup home with
    | none => throw (.unknownPackage home)
    | some files =>
      match readPackaged w home files name with
      | .ok content => pure content
      | .error e => throw e
  | .memory items =>
    match items.lookup name with
    | some content => pure content
    | none => throw (.missingResource name (some "<memory>".toList))

/-- Files lose a byte order mark and have their line ends unified; texts in memory stay as they
are. -/
def decode (r : Resources) (content : Bytes) : Except Utf8.DecodeError Text :=
  match r with
  | .memory _ => Utf8.decode content
  | _ => (Utf8.decodeMarked content).map unifyNewlines

def readText (r : Resources) (name : Text) : Action World Text := do
  let content ← r.read name
  match r.decode content with
  | .ok t => pure t
  | .error e => throw (.undecodable e)

end Resources

end Rollout
