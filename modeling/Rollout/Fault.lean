import Rollout.Status
import Rollout.Utf8

namespace Rollout

open Text

inductive Refusal
  | noSuchFile
  | notExecutable
  | denied
  | busy
  | alreadyExists
  | notDirectory
  | isDirectory
  | invalidArgument
  | nameTooLong
  | notEmpty
  deriving DecidableEq, Repr

namespace Refusal

def code : Refusal → Nat
  | noSuchFile => 2
  | notExecutable => 8
  | denied => 13
  | busy => 16
  | alreadyExists => 17
  | notDirectory => 20
  | isDirectory => 21
  | invalidArgument => 22
  | nameTooLong => 36
  | notEmpty => 39

def reason : Refusal → Text
  | noSuchFile => "No such file or directory".toList
  | notExecutable => "Exec format error".toList
  | denied => "Permission denied".toList
  | busy => "Device or resource busy".toList
  | alreadyExists => "File exists".toList
  | notDirectory => "Not a directory".toList
  | isDirectory => "Is a directory".toList
  | invalidArgument => "Invalid argument".toList
  | nameTooLong => "File name too long".toList
  | notEmpty => "Directory not empty".toList

def describe (r : Refusal) : Text :=
  "[Errno ".toList ++ Text.ofNat r.code ++ "] ".toList ++ r.reason

def message (r : Refusal) (path : Text) : Text := r.describe ++ ": ".toList ++ literal path

end Refusal

inductive Cause
  | aborted (detail : Text)
  | malformed (detail : Text)
  | undefinedVariable (name : Text)
  | unresolvedMacro (name : Text)
  | badArgument (detail : Text)
  | processTimeout (path : Text) (seconds : Int)
  | serviceTimeout (name state : Text)
  deriving DecidableEq, Repr

structure ScriptError where
  cause : Cause
  line : Option Text := none
  script : Option Text := none
  deriving DecidableEq, Repr

def Cause.message : Cause → Text
  | aborted detail | malformed detail | badArgument detail => detail
  | undefinedVariable name => "Undefined variable '".toList ++ name ++ ['\'']
  | unresolvedMacro name => "Macro '$(".toList ++ name ++ ")' resolved to nothing".toList
  | processTimeout path seconds =>
    "Process '".toList ++ path ++ "' hasn't exited in ".toList ++ ofInt seconds ++
      " seconds".toList
  | serviceTimeout name state =>
    "Service '".toList ++ name ++ "' did not reach state ".toList ++ state

def Cause.label : Cause → Text
  | aborted _ => "ScriptException".toList
  | malformed _ => "MalformedScriptException".toList
  | undefinedVariable _ => "UndefinedVariableException".toList
  | unresolvedMacro _ => "UnresolvedMacroException".toList
  | badArgument _ => "CommandArgumentException".toList
  | processTimeout .. => "ProcessTimeoutException".toList
  | serviceTimeout .. => "ServiceTimeoutException".toList

def Cause.status : Cause → Status
  | unresolvedMacro _ => .ofFlag .nullReference
  | _ => .ok

def ScriptError.message (e : ScriptError) : Text :=
  e.cause.message ++
  (e.line.map fun line => " on line '".toList ++ line ++ ['\'']).getD [] ++
  (e.script.map (" in ".toList ++ ·)).getD []

inductive Fault
  | script (error : ScriptError)
  | refused (reason : Refusal) (path : Text)
  | lostDirectory
  | missingMetadata (path : Text)
  | killDenied (name : Text) (pid : Int)
  | missingResource (name : Text) (location : Option Text)
  | serviceOperation (name : Text) (detail : Option Text)
  | invalidArchive (detail : Text)
  | undecodable (error : Utf8.DecodeError)
  | badInteger (text : Text)
  | tooManyDigits (count : Nat)
  | nullByte
  | badLevel
  | badLength
  | unknownPackage (name : Text)
  | noTokens
  | nestedTooDeep
  deriving DecidableEq, Repr

def Fault.message : Fault → Text
  | script error => error.message
  | refused reason path => reason.message path
  | lostDirectory => Refusal.noSuchFile.describe
  | missingMetadata path => "Project metadata '".toList ++ path ++ "' not found".toList
  | killDenied name pid =>
    "Cannot kill process ".toList ++ name ++ " (pid ".toList ++ ofInt pid ++ [')']
  | missingResource name location =>
    "Resource '".toList ++ name ++ "' not found".toList ++
      (location.map (" in ".toList ++ ·)).getD []
  | serviceOperation name detail =>
    let detail := detail.getD []
    "Invalid operation on service '".toList ++ name ++ ['\''] ++
      if detail.isEmpty then [] else ": ".toList ++ detail
  | invalidArchive detail => "Invalid archive: ".toList ++ detail
  | undecodable error => error.message
  | badInteger text =>
    "invalid literal for int() with base 10: ".toList ++ (literal text).take 200
  | tooManyDigits count =>
    "Exceeds the limit (4300 digits) for integer string conversion: value has ".toList ++
      ofNat count ++ " digits; use sys.set_int_max_str_digits() to increase the limit".toList
  | nullByte => "embedded null byte".toList
  | badLevel => "Invalid initialization option".toList
  | badLength => "'i' format requires -2147483648 <= number <= 2147483647".toList
  | unknownPackage name => "No module named ".toList ++ literal name
  | noTokens => "list index out of range".toList
  | nestedTooDeep => "maximum recursion depth exceeded".toList

/-- A computation on a state of type `σ`. What it has done to the state stays when it fails. -/
abbrev Action (σ α : Type) := EStateM Fault σ α

def attempt {σ α : Type} (a : Action σ α) : Action σ (Except Fault α) := fun s =>
  match a s with
  | .ok x s => .ok (.ok x) s
  | .error e s => .ok (.error e) s

end Rollout
