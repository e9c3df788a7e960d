import Rollout.Deflate.Token

namespace Rollout.Deflate

inductive Corruption
  | blockType
  | storedLengths
  | tooManySymbols
  | lengthCode
  | lengthRepeat
  | missingEnd
  | literalSet
  | distanceSet
  | literalSymbol
  | distanceSymbol
  | distanceTooFar
  deriving DecidableEq, Repr

def Corruption.message : Corruption → Text
  | blockType => "invalid block type".toList
  | storedLengths => "invalid stored block lengths".toList
  | tooManySymbols => "too many length or distance symbols".toList
  | lengthCode => "invalid code lengths set".toList
  | lengthRepeat => "invalid bit length repeat".toList
  | missingEnd => "invalid code -- missing end-of-block".toList
  | literalSet => "invalid literal/lengths set".toList
  | distanceSet => "invalid distances set".toList
  | literalSymbol => "invalid literal/length code".toList
  | distanceSymbol => "invalid distance code".toList
  | distanceTooFar => "invalid distance too far back".toList

inductive Phase
  | header
  | storedHeader
  | stored (left : Nat)
  | sizes
  /-- `left` more lengths of the code for lengths; those read so far, last first. -/
  | codeLengths (literals distances left : Nat) (found : List Nat)
  /-- The lengths of both codes; those read so far, last first, and how many. -/
  | lengths (code : Code) (literals distances : Nat) (found : List Nat) (count : Nat)
  | symbols (literals distances : Code)
  | done
  deriving DecidableEq, Repr

structure Place where
  phase : Phase := .header
  last : Bool := false
  deriving DecidableEq, Repr

def Place.afterBlock (last : Bool) : Place := ⟨if last then .done else .header, last⟩

/-- One step of decoding: the input is too short for it, it is wrong, or it leads on and may give a
token. -/
inductive Step
  | short
  | wrong (corruption : Corruption)
  | next (place : Place) (token : Option Token) (source : Source)

def readHeader (s : Source) : Step :=
  match s.number? 3 with
  | none => .short
  | some (n, s) =>
    let last := n % 2 = 1
    if n / 2 = 0 then .next ⟨.storedHeader, last⟩ none s
    else if n / 2 = 1 then .next ⟨.symbols fixedLiteralCode fixedDistanceCode, last⟩ none s
    else if n / 2 = 2 then .next ⟨.sizes, last⟩ none s
    else .wrong .blockType

def readStoredHeader (last : Bool) (s : Source) : Step :=
  match s.align.number? 32 with
  | none => .short
  | some (n, s) =>
    let length := n % 0x10000
    if length + n / 0x10000 = 0xFFFF then
      .next (if length = 0 then .afterBlock last else ⟨.stored length, last⟩) none s
    else .wrong .storedLengths

def readStored (last : Bool) (left : Nat) (s : Source) : Step :=
  match s.number? 8 with
  | none => .short
  | some (n, s) =>
    .next (if left ≤ 1 then .afterBlock last else ⟨.stored (left - 1), last⟩)
      (some (.literal (UInt8.ofNat n))) s

def readSizes (last : Bool) (s : Source) : Step :=
  match s.number? 14 with
  | none => .short
  | some (n, s) =>
    let literals := n % 32 + 257
    let distances := n / 32 % 32 + 1
    if literals > 286 || distances > 30 then .wrong .tooManySymbols
    else .next ⟨.codeLengths literals distances (n / 1024 + 4) [], last⟩ none s

def codeLengthOrder : List Nat := [16, 17, 18, 0, 8, 7, 9, 6, 10, 5, 11, 4, 12, 3, 13, 2, 14, 1, 15]

/-- The code for lengths. With no symbol at all every bit stands for the length zero. -/
def lengthCode? (found : List Nat) : Option Code :=
  let given := codeLengthOrder.zip found
  let lengths := (List.range 19).map fun symbol => (given.lookup symbol).getD 0
  if Code.isVoid lengths then some (.node (.leaf 0) (.leaf 0))
  else if Code.isComplete lengths then some (.ofLengths lengths)
  else none

def readCodeLength (last : Bool) (literals distances left : Nat) (found : List Nat) (s : Source) :
    Step :=
  match s.number? 3 with
  | none => .short
  | some (n, s) =>
    let found := n :: found
    if 1 < left then .next ⟨.codeLengths literals distances (left - 1) found, last⟩ none s
    else match lengthCode? found.reverse with
      | some code => .next ⟨.lengths code literals distances [] 0, last⟩ none s
      | none => .wrong .lengthCode

/-- A set of code lengths is good when it is complete, or has a single code of one bit. -/
def isGoodSet (lengths : List Nat) : Bool := Code.isComplete lengths || Code.isSingle lengths

def startSymbols (last : Bool) (literals : Nat) (lengths : List Nat) (s : Source) : Step :=
  let ofLiterals := lengths.take literals
  let ofDistances := lengths.drop literals
  if ofLiterals.getD endSymbol 0 = 0 then .wrong .missingEnd
  else if !isGoodSet ofLiterals then .wrong .literalSet
  else if !(isGoodSet ofDistances || Code.isVoid ofDistances) then .wrong .distanceSet
  else .next ⟨.symbols (.ofLengths ofLiterals) (.ofLengths ofDistances), last⟩ none s

/-- How often to repeat which length: the one before three to six times, or zero more often. -/
def repeat? (symbol : Nat) (found : List Nat) (s : Source) :
    Option (Option (Nat × Nat) × Source) :=
  if symbol < 16 then some (some (1, symbol), s)
  else if symbol = 16 then
    (s.number? 2).map fun (n, s) => (found.head?.map fun length => (n + 3, length), s)
  else if symbol = 17 then (s.number? 3).map fun (n, s) => (some (n + 3, 0), s)
  else (s.number? 7).map fun (n, s) => (some (n + 11, 0), s)

def readLength (last : Bool) (code : Code) (literals distances : Nat) (found : List Nat)
    (count : Nat) (s : Source) : Step :=
  match code.decode s with
  | none => .short
  | some (none, _) => .wrong .lengthCode
  | some (some symbol, s) =>
    match repeat? symbol found s with
    | none => .short
    | some (none, _) => .wrong .lengthRepeat
    | some (some (times, length), s) =>
      let found := List.replicate times length ++ found
      let count := count + times
      if literals + distances < count then .wrong .lengthRepeat
      else if count < literals + distances then
        .next ⟨.lengths code literals distances found count, last⟩ none s
      else startSymbols last literals found.reverse s

def readDistance (place : Place) (distances : Code) (written length : Nat) (s : Source) : Step :=
  match distances.decode s with
  | none => .short
  | some (none, _) => .wrong .distanceSymbol
  | some (some symbol, s) =>
    match distanceRows[symbol]? with
    | none => .wrong .distanceSymbol
    | some (base, extra) =>
      match s.number? extra with
      | none => .short
      | some (n, s) =>
        if written < base + n then .wrong .distanceTooFar
        else .next place (some (.copy length (base + n))) s

def readSymbol (place : Place) (literals distances : Code) (written : Nat) (s : Source) : Step :=
  match literals.decode s with
  | none => .short
  | some (none, _) => .wrong .literalSymbol
  | some (some symbol, s) =>
    if symbol < endSymbol then .next place (some (.literal (UInt8.ofNat symbol))) s
    else if symbol = endSymbol then .next (.afterBlock place.last) none s
    else match lengthRows[symbol - 257]? with
      | none => .wrong .literalSymbol
      | some (base, extra) =>
        match s.number? extra with
        | none => .short
        | some (n, s) => readDistance place distances written (base + n) s

def step (place : Place) (written : Nat) (s : Source) : Step :=
  match place.phase with
  | .header => readHeader s
  | .storedHeader => readStoredHeader place.last s
  | .stored left => readStored place.last left s
  | .sizes => readSizes place.last s
  | .codeLengths literals distances left found =>
    readCodeLength place.last literals distances left found s
  | .lengths code literals distances found count =>
    readLength place.last code literals distances found count s
  | .symbols literals distances => readSymbol place literals distances written s
  | .done => .short

structure Decoder where
  place : Place := {}
  source : Source := {}
  output : Array UInt8 := #[]
  deriving DecidableEq, Repr

def run : (steps : Nat) → Place → Source → Array UInt8 → Except Corruption Decoder
  | 0, place, source, output => .ok ⟨place, source, output⟩
  | steps + 1, place, source, output =>
    match step place output.size source with
    | .short => .ok ⟨place, source, output⟩
    | .wrong corruption => .error corruption
    | .next place (some token) source => run steps place source (token.emit output)
    | .next place none source => run steps place source output

namespace Decoder

def isDone (d : Decoder) : Bool := d.place.phase = .done

def feed (d : Decoder) (piece : Bytes) : Except Corruption Decoder :=
  let source := d.source.append piece
  run (source.size + 1) d.place source d.output

end Decoder

/-- What compressed data hold, as far as it can be decoded, and whether they end with their last
block. -/
structure Inflated where
  data : Bytes
  complete : Bool
  deriving DecidableEq, Repr

def inflate (data : Bytes) : Except Corruption Inflated :=
  match Decoder.feed {} data with
  | .error corruption => .error corruption
  | .ok d => .ok ⟨d.output.toList, d.isDone && d.source.bytes.isEmpty⟩

end Rollout.Deflate
