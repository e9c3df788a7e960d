import Rollout.CommandLine.Word

namespace Rollout.CommandLine

open Text

inductive Item
  | marked (s : Switch)
  | given (s : Switch) (value : Text)
  | filled (p : Parameter) (values : List Text)
  deriving DecidableEq, Repr

/-- What has been found in arguments, which parameters still want some, and what fits nowhere. -/
structure Findings where
  items : List Item := []
  extras : List Text := []
  wanted : List Parameter
  deriving DecidableEq, Repr

structure Segment where
  option : Word
  run : List Word
  deriving DecidableEq, Repr

def Segment.words (s : Segment) : List Word := s.option :: s.run

def segments : List Word → List Word × List Segment
  | [] => ([], [])
  | w :: rest =>
    let (run, more) := segments rest
    if w.isOption then ([], ⟨w, run⟩ :: more) else (w :: run, more)

/-- The values in words. The first separator among them is none. -/
def valuesOf (ws : List Word) : List Text := (ws.map (·.text)).erase separator

def isSeparator (w : Word) : Bool := w.reading == .separator

def takeOne (run : List Word) : Option (List Word × List Word) :=
  match run.dropWhile isSeparator with
  | [] => none
  | w :: rest =>
    some (run.takeWhile isSeparator ++ w :: rest.takeWhile isSeparator,
      rest.dropWhile isSeparator)

structure Filling where
  items : List Item
  wanted : List Parameter
  left : List Word

/-- Fills parameters from a run of words as far as possible. A parameter that takes the rest takes
the words after the run too. -/
def fill (after : List Word) : List Parameter → List Word → Filling
  | [], run => ⟨[], [], run⟩
  | p :: wanted, run =>
    match p.arity, takeOne run with
    | _, none => ⟨[], p :: wanted, run⟩
    | .one, some (taken, left) =>
      let more := fill after wanted left
      { more with items := .filled p (valuesOf taken) :: more.items }
    | .some, some _ => ⟨[.filled p (valuesOf run)], wanted, []⟩
    | .rest, some _ => ⟨[.filled p ((run ++ after).map (·.text))], wanted, []⟩

def takesRest (items : List Item) : Bool :=
  items.any fun
    | .filled p _ => p.arity = .rest
    | _ => false

def readBare (s : Switch) (run : List Word) : Except Misuse (List Item × List Word) :=
  match s.purpose, run with
  | .value, ⟨value, .plain⟩ :: left => .ok ([.given s value], left)
  | .value, _ => .error (.missingValue s)
  | _, run => .ok ([.marked s], run)

def readAttached (g : Grammar) (s : Switch) (run : List Word) :
    Text → Except Misuse (List Item × List Word)
  | [] => if s.purpose = .value then .ok ([.given s []], run) else .error (.needlessValue s [])
  | c :: rest =>
    if s.purpose = .value then .ok ([.given s (c :: rest)], run)
    else match g.switch? ['-', c] with
      | none => .error (.needlessValue s (c :: rest))
      | some next =>
        match if rest.isEmpty then readBare next run else readAttached g next run rest with
        | .error m => .error m
        | .ok (items, left) => .ok (.marked s :: items, left)

def readOption (g : Grammar) (o : Word) (run : List Word) :
    Except Misuse (List Item × List Word) :=
  match o.reading with
  | .option s _ none => readBare s run
  | .option s name (some value) =>
    if !startsWith name separator then readAttached g s run value
    else if s.purpose = .value then .ok ([.given s value], run)
    else .error (.needlessValue s value)
  | _ => .ok ([], run)

def stopOf : List Item → Option Stop
  | [] => none
  | .marked s :: rest =>
    match s.purpose with
    | .help => some .help
    | .version => some .version
    | _ => stopOf rest
  | _ :: rest => stopOf rest

def Findings.fill (f : Findings) (run after : List Word) : Findings :=
  let filling := CommandLine.fill after f.wanted run
  { items := f.items ++ filling.items
    extras := f.extras ++ filling.left.map (·.text)
    wanted := filling.wanted }

def readSegments (g : Grammar) (f : Findings) : List Segment → Except Stop Findings
  | [] => .ok f
  | s :: rest =>
    if takesRest f.items then .ok f
    else match readOption g s.option s.run with
      | .error m => .error (.misuse m)
      | .ok (items, left) =>
        match stopOf items with
        | some stop => .error stop
        | none =>
          let extras := if s.option.reading = .unknown then [s.option.text] else []
          let f := { f with items := f.items ++ items, extras := f.extras ++ extras }
          readSegments g (f.fill left (rest.flatMap Segment.words)) rest

def Grammar.parse (g : Grammar) (arguments : List Text) : Except Stop Findings :=
  match g.words arguments with
  | .error m => .error (.misuse m)
  | .ok ws =>
    let (run, more) := segments ws
    let start : Findings := { wanted := g.parameters }
    match readSegments g (start.fill run (more.flatMap Segment.words)) more with
    | .error stop => .error stop
    | .ok f =>
      if f.wanted.isEmpty then .ok f
      else .error (.misuse (.missing (f.wanted.map (·.name))))

namespace Findings

def has (f : Findings) (name : String) : Bool :=
  f.items.any fun
    | .marked s => s.names.contains name.toList
    | _ => false

def valuesFor (f : Findings) (name : String) : List Text :=
  f.items.filterMap fun
    | .given s value => if s.names.contains name.toList then some value else none
    | _ => none

def arguments (f : Findings) (name : String) : List Text :=
  f.items.flatMap fun
    | .filled p values => if p.name = name.toList then values else []
    | _ => []

end Findings

end Rollout.CommandLine
