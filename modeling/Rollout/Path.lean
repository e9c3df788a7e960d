import Rollout.Text

namespace Rollout.Path

open Text

def isAbsolute (p : Text) : Bool := p.head? == some '/'

/-- Puts `q` below `p`, unless `q` is absolute. -/
def join (p q : Text) : Text :=
  if isAbsolute q then q
  else if p.isEmpty || endsWith p ['/'] then p ++ q
  else p ++ '/' :: q

def joinAll (p : Text) (qs : List Text) : Text := qs.foldl join p

def components (p : Text) : List Text := p.splitOn '/'

def dot : Text := ['.']

def dotDot : Text := ['.', '.']

/-- Adds a component to the reversed ones before it, where `..` takes away the one before. -/
def pushComponent (rooted : Bool) (before : List Text) (c : Text) : List Text :=
  if c.isEmpty || c = dot then before
  else if c ≠ dotDot then c :: before
  else match before with
    | [] => if rooted then [] else [c]
    | last :: more => if last = dotDot then c :: before else more

/-- The slashes that a path begins with: two stay two, more are one. -/
def leadingSlashes (p : Text) : Text :=
  if startsWith p "//".toList && !startsWith p "///".toList then "//".toList
  else if isAbsolute p then ['/']
  else []

def normalize (p : Text) : Text :=
  let root := leadingSlashes p
  let parts := (components p).foldl (pushComponent (!root.isEmpty)) []
  let path := root ++ Text.join ['/'] parts.reverse
  if path.isEmpty then dot else path

def absolute (current p : Text) : Text :=
  normalize (if isAbsolute p then p else join current p)

def splitLast (p : Text) : Text × Text :=
  let name := (p.reverse.takeWhile (· ≠ '/')).reverse
  (p.take (p.length - name.length), name)

def trimSlashes (p : Text) : Text :=
  if p.all (· = '/') then p else (p.reverse.dropWhile (· = '/')).reverse

def directory (p : Text) : Text := trimSlashes (splitLast p).1

def fileName (p : Text) : Text := (splitLast p).2

theorem trimSlashes_isPrefix (p : Text) : trimSlashes p <+: p := by
  rw [trimSlashes]
  split
  · exact List.prefix_refl p
  · rw [← List.reverse_suffix, List.reverse_reverse]
    exact List.dropWhile_suffix _

theorem directory_isPrefix (p : Text) : directory p <+: p :=
  (trimSlashes_isPrefix _).trans (List.take_prefix _ _)

theorem length_directory_lt {p : Text} (h : directory p ≠ p) : (directory p).length < p.length :=
  Nat.lt_of_le_of_ne (directory_isPrefix p).length_le
    fun hlength => h ((directory_isPrefix p).eq_of_length hlength)

/-- The path without the extension of its file name. Dots that a name begins with are no
extension. -/
def withoutExtension (p : Text) : Text :=
  let (path, name) := splitLast p
  let afterDot := (name.reverse.takeWhile (· ≠ '.')).length
  let stem := name.take (name.length - afterDot - 1)
  if name.contains '.' && stem.any (· ≠ '.') then path ++ stem else p

def splitSeparators : (inRun : Bool) → Text → List Text
  | _, [] => [[]]
  | inRun, c :: rest =>
    if c = '/' || c = '\\' then
      if inRun then splitSeparators true rest else [] :: splitSeparators true rest
    else match splitSeparators false rest with
      | [] => [[c]]
      | part :: more => (c :: part) :: more

/-- The parts of a stored path, which may use either separator. -/
def parts (p : Text) : List Text := splitSeparators false p

end Rollout.Path
