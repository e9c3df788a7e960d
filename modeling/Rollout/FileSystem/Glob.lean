import Rollout.FileSystem.Walk
import Rollout.Text.Occurrence

namespace Rollout

inductive Wildcard
  | anyText
  | anyChar
  | oneOf (negated : Bool) (ranges : List (Char × Char))
  deriving DecidableEq, Repr

def Wildcard.admits : Wildcard → Char → Bool
  | anyText, _ => true
  | anyChar, _ => true
  | oneOf negated ranges, c =>
    (ranges.any fun range => range.1.val ≤ c.val && c.val ≤ range.2.val) != negated

namespace Glob

def isMagic (c : Char) : Bool := c = '*' || c = '?' || c = '['

def isPattern (t : Text) : Bool := t.any isMagic

def escape (t : Text) : Text := t.flatMap fun c => if isMagic c then ['[', c, ']'] else [c]

/-- The ranges in brackets. A hyphen between two characters makes a range of them. -/
def ranges : Text → List (Char × Char)
  | first :: '-' :: last :: rest => (first, last) :: ranges rest
  | c :: rest => (c, c) :: ranges rest
  | [] => []

/-- What stands before the bracket that closes, which is not the first character. -/
def bracketed : Text → Option Text
  | [] => none
  | c :: rest =>
    let inside := rest.takeWhile (· ≠ ']')
    if inside.length < rest.length then some (c :: inside) else none

/-- The wildcard at the beginning of a pattern, and its length. A bracket that is not closed stands
for itself. -/
def wildcardAt : Text → Option (Wildcard × Nat)
  | '*' :: _ => some (.anyText, 1)
  | '?' :: _ => some (.anyChar, 1)
  | '[' :: '!' :: rest =>
    (bracketed rest).map fun inside => (.oneOf true (ranges inside), inside.length + 3)
  | '[' :: rest =>
    (bracketed rest).map fun inside => (.oneOf false (ranges inside), inside.length + 2)
  | _ => none

def someEnd (test : Text → Bool) : Text → Bool
  | [] => test []
  | c :: rest => test (c :: rest) || someEnd test rest

def fitsPieces : List (Piece Char Wildcard) → Text → Bool
  | [], t => t.isEmpty
  | .found .anyText :: pieces, t => someEnd (fitsPieces pieces) t
  | _ :: _, [] => false
  | .plain d :: pieces, c :: rest => c = d && fitsPieces pieces rest
  | .found wildcard :: pieces, c :: rest => wildcard.admits c && fitsPieces pieces rest

def fits (pattern name : Text) : Bool := fitsPieces (occurrences wildcardAt 0 pattern) name

def isHidden (name : Text) : Bool := name.head? == some '.'

end Glob

namespace Tree

/-- The names in a directory that fit a pattern. A name that is hidden fits only a pattern that
begins with a dot as well. -/
def namesFitting (t : Tree) (current : Text) (directoriesOnly : Bool) (directory pattern : Text) :
    List Text :=
  match t.locate current (if directory.isEmpty then Path.dot else directory) with
  | .error _ => []
  | .ok l =>
    if t.isDirectory l then
      (t.names l).filter fun name =>
        (!directoriesOnly || t.isDirectory (l ++ [name])) &&
          (Glob.isHidden pattern || !Glob.isHidden name) && Glob.fits pattern name
    else []

/-- The names in a directory that fit the last part of a pattern. A part that is empty stands for
the directory itself. -/
def namesIn (t : Tree) (current : Text) (directoriesOnly : Bool) (directory part : Text) :
    List Text :=
  if Glob.isPattern part then t.namesFitting current directoriesOnly directory part
  else if part.isEmpty then
    if t.find current directory matches .ok .directory then [part] else []
  else if t.find current (Path.join directory part) matches .ok _ then [part] else []

def glob (t : Tree) (current : Text) (directoriesOnly : Bool) (pattern : Text) : List Text :=
  let directory := Path.directory pattern
  let part := Path.fileName pattern
  if !Glob.isPattern pattern then
    if part.isEmpty then
      if t.find current directory matches .ok .directory then [pattern] else []
    else if t.find current pattern matches .ok _ then [pattern] else []
  else if directory.isEmpty then t.namesFitting current directoriesOnly [] part
  else
    let directories :=
      if _h : directory ≠ pattern ∧ Glob.isPattern directory then t.glob current true directory
      else [directory]
    directories.flatMap fun directory =>
      (t.namesIn current directoriesOnly directory part).map (Path.join directory)
termination_by pattern.length
decreasing_by exact Path.length_directory_lt _h.1

end Tree

end Rollout
