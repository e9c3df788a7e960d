import Rollout.Text.Literal

namespace Rollout.CommandLine

open Text

inductive Purpose
  | help
  | version
  /-- It is there or not. -/
  | mark
  /-- It takes a value. -/
  | value
  deriving DecidableEq, Repr

structure Switch where
  names : List Text
  purpose : Purpose
  deriving DecidableEq, Repr

inductive Arity
  | one
  /-- All arguments up to the next option, and one at least. -/
  | some
  /-- All that is left, options included, and one argument at least. -/
  | rest
  deriving DecidableEq, Repr

structure Parameter where
  name : Text
  arity : Arity := .one
  deriving DecidableEq, Repr

/-- The arguments that a command takes. Only the last parameter takes more than one. -/
structure Grammar where
  program : Text
  usage : Text
  details : Text
  /-- Whether a long name may be cut short where that leaves one option. -/
  abbreviates : Bool
  switches : List Switch
  parameters : List Parameter
  deriving DecidableEq, Repr

inductive Misuse
  | ambiguous (argument : Text) (candidates : List Text)
  | missingValue (s : Switch)
  | needlessValue (s : Switch) (value : Text)
  | unknownCommand (name : Text) (known : List Text)
  | missing (parameters : List Text)
  | unrecognized (arguments : List Text)
  deriving DecidableEq, Repr

inductive Stop
  | help
  | version
  | misuse (m : Misuse)
  deriving DecidableEq, Repr

def Switch.title (s : Switch) : Text := join ['/'] s.names

def Misuse.message : Misuse → Text
  | ambiguous argument candidates =>
    "ambiguous option: ".toList ++ argument ++ " could match ".toList ++
      join ", ".toList candidates
  | missingValue s => "argument ".toList ++ s.title ++ ": expected one argument".toList
  | needlessValue s value =>
    "argument ".toList ++ s.title ++ ": ignored explicit argument ".toList ++ literal value
  | unknownCommand name known =>
    "argument command: invalid choice: ".toList ++ literal name ++ " (choose from ".toList ++
      join ", ".toList (known.map literal) ++ [')']
  | missing parameters =>
    "the following arguments are required: ".toList ++ join ", ".toList parameters
  | unrecognized arguments => "unrecognized arguments: ".toList ++ unwords arguments

namespace Grammar

def help (g : Grammar) : Text := g.usage ++ '\n' :: g.details

def complaint (g : Grammar) (m : Misuse) : Text :=
  g.usage ++ g.program ++ ": error: ".toList ++ m.message ++ ['\n']

def names (g : Grammar) : List (Text × Switch) :=
  g.switches.flatMap fun s => s.names.map (·, s)

def switch? (g : Grammar) (name : Text) : Option Switch := g.names.lookup name

end Grammar

end Rollout.CommandLine
