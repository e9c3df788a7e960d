import Rollout.Fault
import Rollout.FileSystem.Tree
import Rollout.Path

namespace Rollout.Tree

open Text

def nameLimit : Nat := 255

/-- Follows names down from a location. Every name but the last must lead to a directory; the last
may be missing. -/
def walk (t : Tree) : Location → List Text → Except Refusal Location
  | l, [] => .ok l
  | l, name :: rest =>
    match t.get? l with
    | none => .error .noSuchFile
    | some (.file _) => .error .notDirectory
    | some .directory =>
      if name.isEmpty || name = Path.dot then walk t l rest
      else if name = Path.dotDot then walk t l.dropLast rest
      else if nameLimit < (Utf8.encode name).length then .error .nameTooLong
      else walk t (l ++ [name]) rest

def namesOf (current path : Text) : List Text :=
  if Path.isAbsolute path then Path.components path
  else Path.components current ++ Path.components path

def locate (t : Tree) (current path : Text) : Except Refusal Location :=
  if path.isEmpty then .error .noSuchFile else t.walk [] (namesOf current path)

def find (t : Tree) (current path : Text) : Except Refusal Node :=
  match t.locate current path with
  | .error r => .error r
  | .ok l =>
    match t.get? l with
    | some n => .ok n
    | none => .error .noSuchFile

def read (t : Tree) (current path : Text) : Except Refusal Bytes :=
  match t.find current path with
  | .error r => .error r
  | .ok .directory => .error .isDirectory
  | .ok (.file content) => .ok content

def dropEmptyEnd (names : List Text) : List Text := (names.reverse.dropWhile List.isEmpty).reverse

/-- Creates or replaces a file. A path that ends in a slash stands for a directory. -/
def write (t : Tree) (current path : Text) (content : Bytes) : Except Refusal Tree :=
  if path.isEmpty then .error .noSuchFile
  else if endsWith path ['/'] then
    match t.walk [] ((dropEmptyEnd (namesOf current path)).dropLast ++ [[]]) with
    | .error r => .error r
    | .ok _ => .error .isDirectory
  else
    match t.walk [] (namesOf current path) with
    | .error r => .error r
    | .ok l => if t.isDirectory l then .error .isDirectory else .ok (t.insert l (.file content))

def makeDirectory (t : Tree) (current path : Text) : Except Refusal Tree :=
  if path.isEmpty then .error .noSuchFile
  else match t.walk [] (dropEmptyEnd (namesOf current path)) with
    | .error r => .error r
    | .ok l => if (t.get? l).isSome then .error .alreadyExists else .ok (t.insert l .directory)

/-- Removes a directory that is empty and that a path names by its own name. -/
def removeDirectory (t : Tree) (current path : Text) : Except Refusal Tree :=
  let names := dropEmptyEnd (namesOf current path)
  match names.getLast? with
  | none => .error .busy
  | some name =>
    match t.walk [] (names.dropLast ++ [[]]) with
    | .error r => .error r
    | .ok l =>
      if name = Path.dot then .error .invalidArgument
      else if name = Path.dotDot then .error .notEmpty
      else .ok (t.remove (l ++ [name]))

/-- A tree without a file, or without a directory and all that is below it, and why something is
left if it is. The directory is emptied first, and then its path is followed once more. -/
def erase (t : Tree) (current path : Text) : Tree × Option Refusal :=
  match t.locate current path with
  | .error r => (t, some r)
  | .ok l =>
    match t.get? l with
    | none => (t, some .noSuchFile)
    | some (.file _) => (t.remove l, none)
    | some .directory =>
      match (t.clear l).removeDirectory current path with
      | .ok t => (t, none)
      | .error r => (t.clear l, some r)

def placeOf (path : Text) : Location := (Path.components path).filter fun name => !name.isEmpty

def ensureDirectories (t : Tree) (above : Location) : List Text → Tree
  | [] => t
  | name :: rest =>
    let here := above ++ [name]
    let t := if (t.get? here).isSome then t else t.insert here .directory
    t.ensureDirectories here rest

def put (t : Tree) (l : Location) (content : Bytes) : Tree :=
  (t.ensureDirectories [] l.dropLast).insert l (.file content)

end Rollout.Tree
