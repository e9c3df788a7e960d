import Rollout.World
import Rollout.Text.Blank
import Rollout.Text.Digit
import Rollout.Text.Occurrence
import Rollout.Text.Word

namespace Rollout

open Text

def Reply.output (name : Text) : Reply → Text
  | .state s =>
    "SERVICE_NAME: ".toList ++ name ++ "\n        STATE              : 4  ".toList ++ s ++ ['\n']
  | .raw _ output => output

def Reply.code : Reply → Int
  | .state _ => 0
  | .raw code _ => code

namespace Service

def running : Text := "RUNNING".toList

def stopped : Text := "STOPPED".toList

def startTimeout : Rat := 3

def defaultPoll : Duration := ⟨25, 2⟩

/-- The state named by a status line: a colon, a number and a word after the heading. -/
def stateAt (t : Text) : Option (Text × Nat) := do
  let t ← after? "STATE".toList t
  let t ← after? [':'] (trimLeft t)
  let t := trimLeft t
  let rest := t.dropWhile isDigit
  let word := (trimLeft rest).takeWhile isWord
  if rest.length < t.length && (rest.head?.map isBlank).getD false && !word.isEmpty then
    some (word, 1)
  else none

def control (verb name : Text) : Action World Text := do
  record (.control [verb, name])
  let w ← get
  match w.replies with
  | [] =>
    throw (.serviceOperation name (some (Refusal.noSuchFile.message "sc".toList)))
  | reply :: rest =>
    set { w with replies := rest }
    if reply.code = 0 then pure (reply.output name)
    else throw (.serviceOperation name (some (trim (reply.output name))))

def state (name : Text) : Action World (Option Text) := do
  let output ← control "query".toList name
  pure (firstOccurrence? stateAt output)

def pause (time : Duration) : Action World Unit := do
  record (.pause time)
  modify fun w => { w with clock := w.clock + time.seconds }

/-- Asks at most `queries` times until the service is in the wanted state. Past the deadline, if
there is one, it gives up after the query; otherwise it pauses and asks again. -/
def awaitState (poll : Duration) (name wanted : Text) (deadline : Option Rat) :
    (queries : Nat) → Action World Unit
  | 0 => throw .nestedTooDeep
  | queries + 1 => do
    let found ← state name
    if found = some wanted then pure ()
    else do
      let w ← get
      let late := match deadline with
        | some d => decide (d ≤ w.clock)
        | none => false
      if late then throw (.script { cause := .serviceTimeout name wanted })
      else do
        pause poll
        awaitState poll name wanted deadline queries

/-- Waits until a service is in a state, for `timeout` seconds if that is given. Each query takes a
reply, and one more finds the controller silent. -/
def waitFor (poll : Duration) (name wanted : Text) (timeout : Option Rat) : Action World Unit := do
  let w ← get
  awaitState poll name wanted (timeout.map (w.clock + ·)) (w.replies.length + 1)

def start (poll : Duration) (name : Text) (timeout : Option Rat) : Action World Unit := do
  log .debug .services ("Starting service ".toList ++ name)
  let _ ← control "start".toList name
  waitFor poll name running timeout

def stop (poll : Duration) (name : Text) (timeout : Option Rat) : Action World Unit := do
  log .debug .services ("Stopping service ".toList ++ name)
  let _ ← control "stop".toList name
  waitFor poll name stopped timeout

end Service

end Rollout
