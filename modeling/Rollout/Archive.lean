import Rollout.Archive.Scan
import Rollout.Archive.Writer
import Rollout.FileSystem.Access
import Rollout.Text.Lower

namespace Rollout

open Text

structure Archiver where
  codec : Codec := .plain
  level : Int := 6
  base : Option Text := none
  deriving DecidableEq, Repr

namespace Archiver

def baseIn (a : Archiver) (w : World) : Text := a.base.getD w.current

def settle (a : Archiver) (w : World) : Archiver := { a with base := some (a.baseIn w) }

def setBase (a : Archiver) (w : World) (path : Text) : Archiver :=
  { a with base := some (Path.absolute w.current path) }

def trimSlashes (p : Text) : Text :=
  ((p.dropWhile (· = '/')).reverse.dropWhile (· = '/')).reverse

/-- The path under which a file is stored: without as many code points as the base has when it
begins with the base, ignoring case, and with single slashes between its parts. -/
def storedPath (base full : Text) : Text :=
  let rest := if startsWith (lower full) (lower base) then full.drop base.length else full
  trimSlashes (Text.join ['/'] (Path.parts rest))

def relativePath (a : Archiver) (w : World) (path : Text) : Text :=
  storedPath (a.baseIn w) (Path.absolute w.current path)

def recordOf (a : Archiver) (path : Text) : Action World Record := do
  let w ← get
  let content ← readFile path
  pure ⟨a.relativePath w path, content⟩

section

variable {σ τ : Type} (coder : Coder σ) (put : τ → Bytes → Action World τ)

def putPieces : σ → τ → List Bytes → Action World (σ × τ)
  | s, t, [] => pure (s, t)
  | s, t, piece :: rest => do
    let t ← put t (coder.feed s piece).1
    putPieces (coder.feed s piece).2 t rest

/-- Writes the records of files up to the first that cannot be read, or whose record cannot be
written, and tells why it cannot. -/
def putFiles (a : Archiver) : σ → τ → List Text → Action World (σ × τ × Option Fault)
  | s, t, [] => pure (s, t, none)
  | s, t, path :: rest => do
    match ← attempt (a.recordOf path) with
    | .error e => pure (s, t, some e)
    | .ok record =>
      let (s, t) ← putPieces coder put s t record.pieces.1
      match record.pieces.2 with
      | some e => pure (s, t, some e)
      | none => a.putFiles s t rest

/-- Writes the archive of some files to a stream. The coder is closed whether or not all of them
could be read. -/
def writeThrough (a : Archiver) (t : τ) (files : List Text) : Action World (τ × Option Fault) := do
  let (s, t, fault) ← a.putFiles coder put coder.start t files
  let t ← put t (coder.close s)
  pure (t, fault)

def writeTo (a : Archiver) (t : τ) (files : List Text) : Action World (τ × Option Fault) :=
  match a.codec with
  | .plain => a.writeThrough .plain put t files
  | .deflate =>
    if Deflate.isLevel a.level then a.writeThrough .deflate put t files
    else pure (t, some .badLevel)

end

def keep (pieces : List Bytes) (piece : Bytes) : Action World (List Bytes) := pure (piece :: pieces)

def write (a : Archiver) (files : List Text) : Action World (Bytes × Option Fault) := do
  let (pieces, fault) ← a.writeTo keep [] files
  pure (pieces.reverse.flatten, fault)

def putFile (target : Text) (b : Buffered) (piece : Bytes) : Action World Buffered := do
  let w ← get
  let b := b.put w.host.bufferBytes piece
  writeFile target b.written
  pure b

/-- Writes the archive of some files to a file, which is emptied before they are read, and shows
what has been written while they are. -/
def create (a : Archiver) (target : Text) (files : List Text) : Action World Unit := do
  writeFile target []
  let (b, fault) ← a.writeTo (putFile target) {} files
  writeFile target b.content
  match fault with
  | none => pure ()
  | some e => throw e

def extractRecord (directory : Text) (r : Record) : Action World Unit := do
  let target := Path.joinAll directory (Path.parts r.path)
  let parent := Path.directory target
  if !parent.isEmpty then makeDirectories parent
  writeFile target r.content
  log .debug .archive
    ("Extracted ".toList ++ r.path ++ " (".toList ++ ofNat r.content.length ++ " bytes)".toList)

def extractRecords (directory : Text) : List Record → Action World Unit
  | [] => pure ()
  | r :: rest => do
    extractRecord directory r
    extractRecords directory rest

def finish : Ending → Action World Unit
  | .clean => pure ()
  | .truncated => log .debug .archive "Archive stream ended inside a record".toList
  | .wrong e => throw e

def extract (a : Archiver) (stream : Stream) (directory : Text) : Action World Unit := do
  let scan := Scan.ofStream a.codec stream
  extractRecords directory scan.records
  finish scan.ending

def extractFile (a : Archiver) (path directory : Text) : Action World Unit := do
  let data ← readFile path
  a.extract (Stream.ofBytes portion data) directory

end Archiver

end Rollout
