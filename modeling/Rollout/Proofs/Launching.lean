import Rollout.Proofs.LineRequests
import Rollout.Proofs.Separators

namespace Rollout

open Text Script Interpreter

def Entry.call? : Entry → Option Call
  | launch call .. => some call
  | _ => none

def Journal.calls (j : Journal) : List Call := j.filterMap Entry.call?

theorem Journal.calls_append (j j' : Journal) : Journal.calls (j ++ j') = j.calls ++ j'.calls :=
  List.filterMap_append

structure SameCalls (w w' : World) : Prop where
  calls : w'.journal.calls = w.journal.calls
  host : w'.host = w.host

instance : IsPreorder World SameCalls where
  refl _ := ⟨rfl, rfl⟩
  trans _ _ _ h h' := ⟨h'.calls.trans h.calls, h'.host.trans h.host⟩

theorem record_sameCalls {e : Entry} (h : e.call? = none) : Obeys SameCalls (record e) := by
  refine obeys_modify fun w => ⟨?_, rfl⟩
  have hnone : Journal.calls [e] = [] := List.filterMap_cons_none h
  rw [Journal.calls_append, hnone, List.append_nil]

theorem say_sameCalls (level : Level) (t : Text) : Obeys (OnWorld SameCalls) (say level t) :=
  onWorld_obeys (record_sameCalls rfl)

theorem fail_sameCalls (flag : Flag) (message : Option Text) (exitCode : Option Int) :
    Obeys (OnWorld SameCalls) (fail flag message exitCode) := by
  refine Obeys.bind (obeys_modify fun s => refl (r := SameCalls) s.world) fun _ =>
    obeys_get.bind fun s => ?_
  split
  · exact (say_sameCalls _ _).bind fun _ => obeys_pure _
  · refine Obeys.bind ?_ fun _ => obeys_pure _
    refine Obeys.bind (obeys_modify fun s => refl (r := SameCalls) s.world) fun _ => ?_
    exact (say_sameCalls _ _).bind fun _ => onWorld_obeys (record_sameCalls rfl)

theorem decide_sameCalls (settings : Settings) (argument : Text) (condition : Builtin.Condition) :
    Obeys (OnWorld SameCalls) (condition.decide settings argument) := by
  cases condition with
  | fileThere => exact obeys_get.bind fun s => obeys_pure _
  | fileMissing => exact obeys_get.bind fun s => obeys_pure _
  | upgrade =>
    have hversion (path : Text) : Obeys SameCalls (Builtin.installedVersion settings path) :=
      Builtin.installedVersion_obeys (fun _ => record_sameCalls rfl) settings path
    refine obeys_get.bind fun s => ?_
    split
    · refine (onWorld_obeys (hversion _)).bind fun installed => ?_
      split
      · exact obeys_pure _
      · exact (fail_sameCalls _ _ _).bind fun _ => obeys_pure _
    · exact obeys_pure _

theorem launch_calls (path arguments : Text) (directory : Option Text) (captured : Bool)
    (timeout : Option Int) (w : World) :
    (finalState (launch path arguments directory captured timeout) w).journal.calls =
      w.journal.calls ++ [callOf w.host.platform path arguments] := by
  have hcalled (t : Text) (call : Call) :
      Journal.calls ((w.journal ++ [.log .debug .processes t]) ++
        [.launch call directory captured timeout]) = w.journal.calls ++ [call] := by
    rw [Journal.calls_append, Journal.calls_append, List.append_assoc]
    rfl
  rw [launch, finalState_of_eq (get_bind _ w)]
  dsimp only
  rw [finalState_of_eq (bind_of_ok (rfl : log _ _ _ w = .ok () _)),
    finalState_of_eq (bind_of_ok (rfl : record _ _ = .ok () _))]
  -- once the call has been recorded, nothing else is
  refine Eq.trans ((?_ : Obeys SameCalls _) _).calls (hcalled _ _)
  split
  · exact obeys_throw _
  · exact obeys_throw _
  · refine Obeys.bind (obeys_modify fun w => ⟨rfl, rfl⟩) fun _ => ?_
    split
    · split
      · exact (obeys_throw _).bind fun _ => obeys_pure _
      · exact obeys_pure _
    · exact obeys_pure _

theorem runProcess_calls (settings : Settings) (path arguments : Text) (s : Session) :
    (finalState (Builtin.runProcess settings path arguments) s).world.journal.calls =
      s.world.journal.calls ++ [callOf s.world.host.platform (unquote path) arguments] := by
  have hlaunch := launch_calls (unquote path) arguments (some settings.directory)
    s.store.redirectOutput (some s.store.processTimeout) s.world
  rw [Builtin.runProcess, finalState_of_eq (get_bind _ s), ← hlaunch]
  dsimp only
  -- what comes of the call is at most a failure
  cases hl : launch (unquote path) arguments (some settings.directory) s.store.redirectOutput
      (some s.store.processTimeout) s.world with
  | ok outcome w =>
    rw [finalState_of_ok hl, finalState_of_eq (bind_of_ok (attempt_onWorld_of_ok hl))]
    refine ((?_ : Obeys (OnWorld SameCalls) _) { s with world := w }).calls
    dsimp only
    split
    · exact obeys_pure _
    · exact fail_sameCalls _ _ _
  | error e w =>
    rw [finalState_of_error hl, finalState_of_eq (bind_of_ok (attempt_onWorld_of_error hl))]
    refine ((?_ : Obeys (OnWorld SameCalls) _) { s with world := w }).calls
    split
    · exact fail_sameCalls _ _ _
    · exact fail_sameCalls _ _ _
    · exact obeys_throw _
    · next h => cases h

/-- With `limit` levels left the dispatcher comes to the tokens after the first `k`, which are
conditions that hold and their paths. -/
inductive Reaches (settings : Settings) : (limit : Nat) → List Text → Session → Nat → Session → Prop
  | here {limit : Nat} {tokens : List Text} {s : Session} : Reaches settings limit tokens s 0 s
  | holds {limit : Nat} {name path : Text} {rest : List Text} {command : Command}
      {condition : Builtin.Condition} {s s₁ s' : Session} {k : Nat}
      (head : headOf name = .builtin command)
      (conditional : handlerOf command = .condition condition) (path_ne : path ≠ [])
      (holds : condition.decide settings path (s.announced command (path :: rest)) = .ok none s₁)
      (reaches : Reaches settings limit rest s₁ k s') :
      Reaches settings (limit + 1) (name :: path :: rest) s (k + 2) s'

namespace Reaches

variable {settings : Settings} {limit : Nat} {tokens : List Text} {s s' : Session} {k : Nat}

theorem execute_eq (h : Reaches settings limit tokens s k s') (hk : k < tokens.length)
    {nested : Nested} (hn : nested.length = limit) :
    ∃ nested', execute settings nested tokens s = execute settings nested' (tokens.drop k) s' := by
  induction h generalizing nested with
  | here => exact ⟨nested, rfl⟩
  | @holds limit name path rest command condition s s₁ s' k head conditional path_ne holds reaches
      ih =>
    have hk : k < rest.length := by simpa using hk
    have hrest : rest.isEmpty = false := by
      cases rest with
      | nil => simp at hk
      | cons => rfl
    obtain ⟨run, below, rfl⟩ := List.exists_cons_of_length_eq_add_one hn
    obtain ⟨nested', heq⟩ := ih hk (Nat.succ.inj hn)
    exact ⟨nested', (execute_of_holds head conditional path_ne holds hrest).trans heq⟩

theorem sameCalls (h : Reaches settings limit tokens s k s') : SameCalls s.world s'.world := by
  induction h with
  | here => exact refl _
  | @holds limit name path rest command condition s s₁ s' k head conditional path_ne holds reaches
      ih =>
    have hannounced : SameCalls s.world (s.announced command (path :: rest)).world :=
      say_sameCalls _ _ s
    have hdecided : SameCalls _ s₁.world := (decide_sameCalls settings path condition _).of_ok holds
    exact IsTrans.trans _ _ _ hannounced (IsTrans.trans _ _ _ hdecided ih)

end Reaches

section

variable {settings : Settings} {nested : Nested} {x token : Text}
  {s s' : Session} {k : Nat}

theorem splitArguments_tokens {before tokens : List Text} (h : tokenize x = before ++ tokens) :
    splitArguments (unwords tokens) = (tokens.filter fun t => !t.isEmpty).map unquote := by
  cases tokens with
  | nil => rfl
  | cons token rest => rw [splitArguments, tokenize_unwords h (List.cons_ne_nil _ _)]

/-- The program that a line comes to is called once, with its token and those after it that are not
empty, each without its double quotes. -/
theorem launch_takes_tokens (posix : s.world.host.platform = .posix)
    (reaches : Reaches settings nested.length (tokenize x) s k s')
    (at_k : (tokenize x)[k]? = some token) (program : headOf token = .external) :
    execute settings nested (tokenize x) s =
        Builtin.runProcess settings token (unwords ((tokenize x).drop (k + 1))) s' ∧
      (finalState (execute settings nested (tokenize x)) s).world.journal.calls =
        s.world.journal.calls ++ [.words (unquote token)
          ((((tokenize x).drop (k + 1)).filter fun t => !t.isEmpty).map unquote)] := by
  obtain ⟨hk, htoken⟩ := List.getElem?_eq_some_iff.mp at_k
  have hdrop : (tokenize x).drop k = token :: (tokenize x).drop (k + 1) := by
    rw [List.drop_eq_getElem_cons hk, htoken]
  have hrun : execute settings nested (tokenize x) s =
      Builtin.runProcess settings token (unwords ((tokenize x).drop (k + 1))) s' := by
    obtain ⟨nested', heq⟩ := reaches.execute_eq hk rfl
    rw [heq, hdrop, execute]
    simp only [program]
  have hcut := splitArguments_tokens (List.take_append_drop (k + 1) (tokenize x)).symm
  obtain ⟨hcalls, hhost⟩ := reaches.sameCalls
  refine ⟨hrun, ?_⟩
  rw [finalState_of_eq hrun, runProcess_calls, hcalls, hhost, posix, callOf, hcut]

end

/-- A program after two conditions, with a quoted and an escaped space, an empty token and a quote
that is not closed. -/
theorem launch_takes_tokens_copy :
    let settings : Settings := { resources := .memory [], version := [], directory := ['/'] }
    let s : Session := { world := {} }
    let x := "IfExists / $(IfNotExists) a copy \"b c\"  d\\ e \"f g".toList
    ∃ s', s.world.host.platform = .posix ∧ Reaches settings 2 (tokenize x) s 4 s' ∧
      (tokenize x)[4]? = some "copy".toList ∧ headOf "copy".toList = .external ∧
      (finalState (execute settings (levels settings 2) (tokenize x)) s).world.journal.calls =
        [.words "copy".toList ["b c".toList, "d\\ e".toList, "f g".toList]] := by
  intro settings s x
  obtain ⟨s', hreaches⟩ : ∃ s', Reaches settings 2 (tokenize x) s 4 s' :=
    ⟨_, .holds rfl rfl (by decide) rfl (.holds rfl rfl (by decide) rfl .here)⟩
  refine ⟨s', rfl, hreaches, rfl, rfl, ?_⟩
  exact (@launch_takes_tokens settings (levels settings 2) x _ s s' 4 rfl hreaches rfl rfl).2

end Rollout
