import Rollout.FileSystem.Access
import Rollout.Text.Lines
import Rollout.Text.Occurrence
import Rollout.Version

namespace Rollout

open Text

namespace Metadata

def isVersionChar (c : Char) : Bool := ('0' ≤ c && c ≤ '9') || c = '.'

/-- An occurrence of a declared version: what stands before it, the version, what stands after. -/
structure Declaration where
  opening : Text
  version : Text
  closing : Text
  deriving DecidableEq, Repr

def Declaration.text (d : Declaration) : Text := d.opening ++ d.version ++ d.closing

def declaration? (opening rest : Text) (closing? : Text → Option Text) :
    Option (Declaration × Nat) := do
  let version := rest.takeWhile isVersionChar
  let closing ← closing? (rest.drop version.length)
  if version.isEmpty then none
  else
    let d : Declaration := ⟨opening, version, closing⟩
    some (d, d.text.length)

def attributeAt (name : Text) (t : Text) : Option (Declaration × Nat) := do
  let head := "[assembly:".toList
  let rest ← after? head t
  let spaces := rest.takeWhile (· = ' ')
  let label := name ++ "(\"".toList
  let rest ← after? label (rest.drop spaces.length)
  declaration? (head ++ spaces ++ label) rest fun tail =>
    let closing := "\")]".toList
    if startsWith tail closing then some closing else none

def assemblyVersionAt : Text → Option (Declaration × Nat) := attributeAt "AssemblyVersion".toList

def fileVersionAt : Text → Option (Declaration × Nat) := attributeAt "AssemblyFileVersion".toList

def isQuote (c : Char) : Bool := c = '"' || c = '\''

def moduleVersionAt (t : Text) : Option (Declaration × Nat) := do
  let head := "__version__".toList
  let rest ← after? head t
  let before := rest.takeWhile isBlank
  let rest ← after? ['='] (rest.drop before.length)
  let behind := rest.takeWhile isBlank
  match rest.drop behind.length with
  | [] => none
  | c :: rest =>
    if isQuote c then
      declaration? (head ++ before ++ ['='] ++ behind ++ [c]) rest fun tail =>
        (tail.head?.filter isQuote).map fun c => [c]
    else none

def declared? (t : Text) : Option Text :=
  match firstOccurrence? assemblyVersionAt t with
  | some d => some d.version
  | none => (firstOccurrence? moduleVersionAt t).map (·.version)

def probe (path : Text) : Action World (Option Version) := do
  let content ← readFile path
  match declared? (unifyNewlines (Utf8.decodeLossy content)) with
  | none => pure none
  | some t =>
    match Version.parse t with
    | .ok v => pure (some v)
    | .error _ => do
      log .debug .versions
        ("Unparsable version ".toList ++ literal t ++ " in ".toList ++ path)
      pure none

def projectFile : Text := "Properties/AssemblyInfo.cs".toList

def readMarked (path : Text) : Action World Text := do
  let content ← readFile path
  match Utf8.decodeMarked content with
  | .ok t => pure t
  | .error e => throw (.undecodable e)

def replaceVersions (pattern : Text → Option (Declaration × Nat)) (version t : Text) : Text :=
  replaceOccurrences pattern (fun d => replaceWord d.version version d.text) t

def firstVersion (pattern : Text → Option (Declaration × Nat)) (t : Text) : Text :=
  ((firstOccurrence? pattern t).map (·.version)).getD []

/-- The target's text with the source's versions, which are empty where the source has none. -/
def passText (source target : Text) : Text :=
  replaceVersions fileVersionAt (firstVersion fileVersionAt source)
    (replaceVersions assemblyVersionAt (firstVersion assemblyVersionAt source) target)

def pass (source target : Text) : Action World (Text × Text) := do
  let sourceFile := Path.join source projectFile
  let targetFile := Path.join target projectFile
  let w ← get
  if !w.isFile sourceFile then throw (.missingMetadata sourceFile)
  if !w.isFile targetFile then throw (.missingMetadata targetFile)
  let sourceText ← readMarked sourceFile
  let targetText ← readMarked targetFile
  writeFile targetFile (Utf8.encode (passText sourceText targetText))
  pure (firstVersion assemblyVersionAt sourceText, firstVersion fileVersionAt sourceText)

end Metadata

end Rollout
