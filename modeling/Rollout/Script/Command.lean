import Rollout.Script.Token

namespace Rollout.Script

open Text

inductive Command
  | run
  | message
  | notify
  | pack
  | unpack
  | delete
  | kill
  | serviceStart
  | serviceStop
  | ifExists
  | ifNotExists
  | ifUpgradeTo
  | passAssemblyVersion
  deriving DecidableEq, Repr

namespace Command

def all : List Command :=
  [.run, .message, .notify, .pack, .unpack, .delete, .kill, .serviceStart, .serviceStop, .ifExists,
   .ifNotExists, .ifUpgradeTo, .passAssemblyVersion]

theorem mem_all (c : Command) : c ∈ all := by cases c <;> decide

def name : Command → Text
  | run => "Run".toList
  | message => "Message".toList
  | notify => "Notify".toList
  | pack => "Pack".toList
  | unpack => "Unpack".toList
  | delete => "Delete".toList
  | kill => "Kill".toList
  | serviceStart => "ServiceStart".toList
  | serviceStop => "ServiceStop".toList
  | ifExists => "IfExists".toList
  | ifNotExists => "IfNotExists".toList
  | ifUpgradeTo => "IfUpgradeTo".toList
  | passAssemblyVersion => "PassAssemblyVersion".toList

def ofName? (t : Text) : Option Command := all.find? fun c => c.name = t

theorem ofName?_name (c : Command) : ofName? c.name = some c := by cases c <;> decide

end Command

def spell (name : Text) : Text := "$(".toList ++ name ++ [')']

def exitName : Text := "Exit".toList

/-- The token that ends the script and all that run it. -/
def exitToken : Text := spell exitName

def bareName (token : Text) : Text :=
  if startsWith token "$(".toList && endsWith token [')'] then (token.drop 2).dropLast else token

def Command.lookup (token : Text) : Option Command := ofName? (bareName token)

/-- Names that macros leave to the dispatcher. -/
def isReserved (name : Text) : Bool := name = exitName || (Command.ofName? name).isSome

inductive Head
  | exit
  | builtin (command : Command)
  | external
  deriving DecidableEq, Repr

/-- Everything that is neither the exit token nor a command is a program. -/
def headOf (name : Text) : Head :=
  if name = exitToken then .exit
  else match Command.lookup name with
    | some command => .builtin command
    | none => .external

end Rollout.Script
