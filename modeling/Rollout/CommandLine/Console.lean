import Rollout.Journal

namespace Rollout.CommandLine

open Text

def failureReport (d : Diagnostics) : Text :=
  let message := d.message.getD []
  "❌ Failed in ".toList ++ orNone d.script ++ ": ".toList ++ orNone d.line ++ ['\n'] ++
  "   status: ".toList ++ d.status.describe ++ ['\n'] ++
  (d.exitCode.map fun code => "   exit code: ".toList ++ ofInt code ++ ['\n']).getD [] ++
  if message.isEmpty then [] else message ++ ['\n']

def shownOnOutput : Entry → Text
  | .message t => t ++ ['\n']
  | .notification t => "🔔 ".toList ++ t ++ ['\n']
  | .success => "✅ Done\n".toList
  | .printed t => t
  | _ => []

def shownOnError (threshold : Level) : Entry → Text
  | .failure d => failureReport d
  | .complained t => t
  | .log level channel text =>
    if threshold.rank ≤ level.rank then
      ((Entry.log level channel text).logLine.map (· ++ ['\n'])).getD []
    else []
  | _ => []

def outputOf (j : Journal) : Text := j.flatMap shownOnOutput

def errorOutputOf (threshold : Level) (j : Journal) : Text := j.flatMap (shownOnError threshold)

end Rollout.CommandLine
