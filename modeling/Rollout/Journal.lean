import Rollout.Duration
import Rollout.Fault

namespace Rollout

inductive Level
  | debug
  | info
  | warning
  | error
  deriving DecidableEq, Repr

def Level.name : Level → Text
  | debug => "DEBUG".toList
  | info => "INFO".toList
  | warning => "WARNING".toList
  | error => "ERROR".toList

def Level.rank : Level → Nat
  | debug => 0
  | info => 1
  | warning => 2
  | error => 3

inductive Channel
  | interpreter
  | archive
  | processes
  | services
  | versions
  deriving DecidableEq, Repr

def Channel.name : Channel → Text
  | interpreter => "deployex.interpreter".toList
  | archive => "deployex.arc".toList
  | processes => "deployex.processes".toList
  | services => "deployex.services".toList
  | versions => "deployex.versions".toList

/-- How a program is called: by its path and arguments, or by one line. -/
inductive Call
  | words (path : Text) (arguments : List Text)
  | line (text : Text)
  deriving DecidableEq, Repr

def Call.key : Call → Text
  | .words path _ => path
  | .line text => text

inductive Entry
  | message (text : Text)
  | notification (text : Text)
  | success
  | failure (diagnostics : Diagnostics)
  | launch (call : Call) (directory : Option Text) (captured : Bool) (timeout : Option Int)
  | killed (pid : Int)
  | control (arguments : List Text)
  | pause (time : Duration)
  | log (level : Level) (channel : Channel) (text : Text)
  | printed (text : Text)
  | complained (text : Text)
  deriving DecidableEq, Repr

namespace Entry

def isEvent : Entry → Bool
  | message _ | notification _ | success | failure _ => true
  | _ => false

def isEffect : Entry → Bool
  | launch .. | killed _ | control _ | pause _ => true
  | _ => false

def logLine : Entry → Option Text
  | log level channel text =>
    some (level.name ++ [' '] ++ channel.name ++ ": ".toList ++ text)
  | _ => none

end Entry

abbrev Journal := List Entry

def Journal.trace (j : Journal) : List Entry := j.filter fun e => e.isEvent || e.isEffect

end Rollout
