import Rollout.Text.Literal

namespace Rollout

open Text

inductive Flag
  | nullReference
  | fileNotFound
  | directoryNotFound
  | fileAccessDenied
  | directoryAccessDenied
  | alreadyInstalled
  | nonZeroExitCode
  deriving DecidableEq, Repr

namespace Flag

def all : List Flag :=
  [.nullReference, .fileNotFound, .directoryNotFound, .fileAccessDenied, .directoryAccessDenied,
   .alreadyInstalled, .nonZeroExitCode]

def bit : Flag → Nat
  | nullReference => 1
  | fileNotFound => 2
  | directoryNotFound => 4
  | fileAccessDenied => 8
  | directoryAccessDenied => 16
  | alreadyInstalled => 32
  | nonZeroExitCode => 64

def name : Flag → Text
  | nullReference => "NULL_REFERENCE".toList
  | fileNotFound => "FILE_NOT_FOUND".toList
  | directoryNotFound => "DIRECTORY_NOT_FOUND".toList
  | fileAccessDenied => "FILE_ACCESS_DENIED".toList
  | directoryAccessDenied => "DIRECTORY_ACCESS_DENIED".toList
  | alreadyInstalled => "ALREADY_INSTALLED".toList
  | nonZeroExitCode => "NON_ZERO_EXIT_CODE".toList

end Flag

structure Status where
  bits : Nat
  deriving DecidableEq, Repr

namespace Status

def ok : Status := ⟨0⟩

def ofFlag (f : Flag) : Status := ⟨f.bit⟩

def union (s t : Status) : Status := ⟨s.bits ||| t.bits⟩

def add (s : Status) (f : Flag) : Status := s.union (ofFlag f)

def contains (s : Status) (f : Flag) : Bool := s.bits &&& f.bit != 0

def unknownBits (s : Status) : Nat := s.bits - s.bits % 128

def describe (s : Status) : Text :=
  let known := (Flag.all.filter s.contains).map Flag.name
  let names :=
    if known.isEmpty then if s = ok then ".OK".toList else []
    else '.' :: join ['|']
      (known ++ if s.unknownBits = 0 then [] else [ofNat s.unknownBits])
  "<StatusFlags".toList ++ names ++ ": ".toList ++ ofNat s.bits ++ ['>']

theorem union_assoc (r s t : Status) : (r.union s).union t = r.union (s.union t) := by
  simp [union, Nat.or_assoc]

end Status

structure Diagnostics where
  script : Option Text
  line : Option Text
  status : Status
  message : Option Text := none
  exitCode : Option Int := none
  deriving DecidableEq, Repr

namespace Diagnostics

def describe (d : Diagnostics) : Text :=
  let fields :=
    ["status=".toList ++ d.status.describe] ++
    (d.script.map ("script=".toList ++ ·)).toList ++
    (d.line.map fun line => "line=".toList ++ literal line).toList ++
    (d.exitCode.map fun code => "exit_code=".toList ++ ofInt code).toList
  let message := d.message.getD []
  unwords fields ++ if message.isEmpty then [] else '\n' :: message

end Diagnostics

end Rollout
