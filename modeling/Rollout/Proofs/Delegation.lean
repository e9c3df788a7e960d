import Rollout.Proofs.Levels
import Rollout.Proofs.Action

namespace Rollout

open Text Script

structure Admits (S : Session → Session → Prop) : Prop where
  world : ∀ {α : Type} (a : Action World α), Obeys S (onWorld a)
  fail : ∀ (flag : Flag) (message : Option Text) (exitCode : Option Int),
    Obeys S (fail flag message exitCode)

structure AdmitsStores (S : Session → Session → Prop) : Prop extends Admits S where
  store : ∀ (s : Session) (store : Variables), S s { s with store }

namespace Admits

variable {S : Session → Session → Prop} [IsPreorder Session S] (hS : Admits S)

include hS

omit [IsPreorder Session S] in
theorem say (level : Level) (t : Text) : Obeys S (say level t) := hS.world _

omit hS in
theorem located (cause : Cause) : Obeys S (located cause) := obeys_get.bind fun _ => obeys_pure _

omit hS in
theorem require (value what : Text) (command : Command) :
    Obeys S (require value what command) := by
  unfold Rollout.require
  split
  · exact (located _).bind fun _ => obeys_throw _
  · exact obeys_pure _

theorem resolveMacros (t : Text) : Obeys S (resolveMacros t) :=
  obeys_get.bind fun _ => hS.world _

theorem attempt {α β : Type} (a : Action World α) {f : Except Fault α → Action Session β}
    (hf : ∀ r, Obeys S (f r)) : Obeys S (Rollout.attempt (onWorld a) >>= f) :=
  (hS.world a).attempt.bind hf

theorem told (e : Entry) (level : Level) (t : Text) :
    Obeys S (do Rollout.say level t; emit e; pure Flow.next) :=
  (hS.say level t).bind fun _ => Obeys.bind (hS.world _) fun _ => obeys_pure _

theorem said (level : Level) (t : Text) : Obeys S (do Rollout.say level t; pure Flow.next) :=
  (hS.say level t).bind fun _ => obeys_pure _

theorem pack (settings : Settings) (arguments : List Text) :
    Obeys S (Builtin.pack settings arguments) := by
  refine (require _ _ _).bind fun _ => obeys_get.bind fun s => ?_
  refine (require _ _ _).bind fun _ => (require _ _ _).bind fun _ => ?_
  refine hS.attempt _ fun listing => ?_
  split
  · exact hS.fail _ _ _
  · exact obeys_throw _
  · refine hS.attempt _ fun packed => ?_
    split
    · exact hS.fail _ _ _
    · exact hS.fail _ _ _
    · exact obeys_throw _
    · exact hS.said _ _

theorem unpack (settings : Settings) : Obeys S (Builtin.unpack settings) := by
  refine obeys_get.bind fun s => ?_
  refine (require _ _ _).bind fun _ => (require _ _ _).bind fun _ => ?_
  refine hS.attempt _ fun data => ?_
  split
  · exact hS.fail _ _ _
  · exact obeys_throw _
  · refine hS.attempt _ fun extracted => ?_
    split
    · exact hS.fail _ _ _
    · exact hS.fail _ _ _
    · exact obeys_throw _
    · exact obeys_pure _

theorem deleteAs (flag : Flag) (path : Text) : Obeys S (Builtin.deleteAs flag path) := by
  refine hS.attempt _ fun removed => ?_
  split
  · exact hS.fail _ _ _
  · exact obeys_throw _
  · exact obeys_pure _

theorem deleteOne (settings : Settings) (argument : Text) :
    Obeys S (Builtin.deleteOne settings argument) := by
  refine obeys_get.bind fun s => ?_
  split
  · exact hS.deleteAs _ _
  · split
    · exact hS.deleteAs _ _
    · exact obeys_pure _

theorem killOne (argument : Text) : Obeys S (Builtin.killOne argument) := by
  refine hS.attempt _ fun killed => ?_
  split
  · exact hS.fail _ _ _
  · exact obeys_throw _
  · exact obeys_pure _
  · exact hS.said _ _

theorem serviceStep (operation : Text → Action World Unit) (argument : Text) :
    Obeys S (Builtin.serviceStep operation argument) := by
  refine hS.attempt _ fun done => ?_
  split
  · exact hS.said _ _
  · exact obeys_throw _
  · exact obeys_pure _

theorem passAssemblyVersion (settings : Settings) (arguments : List Text) :
    Obeys S (Builtin.passAssemblyVersion settings arguments) := by
  unfold Builtin.passAssemblyVersion
  split
  · refine hS.attempt _ fun passed => ?_
    split
    · exact hS.fail _ _ _
    · exact hS.fail _ _ _
    · exact obeys_throw _
    · exact hS.said _ _
  · exact (located _).bind fun _ => obeys_throw _

theorem runProcess (settings : Settings) (path arguments : Text) :
    Obeys S (Builtin.runProcess settings path arguments) := by
  refine obeys_get.bind fun s => hS.attempt _ fun outcome => ?_
  split
  · exact hS.fail _ _ _
  · exact hS.fail _ _ _
  · exact obeys_throw _
  · split
    · exact obeys_pure _
    · exact hS.fail _ _ _

theorem decide (settings : Settings) (argument : Text) (condition : Builtin.Condition) :
    Obeys S (condition.decide settings argument) := by
  cases condition with
  | fileThere => exact obeys_get.bind fun s => obeys_pure _
  | fileMissing => exact obeys_get.bind fun s => obeys_pure _
  | upgrade =>
    refine obeys_get.bind fun s => ?_
    split
    · refine (hS.world _).bind fun installed => ?_
      split
      · exact obeys_pure _
      · exact (hS.fail _ _ _).bind fun _ => obeys_pure _
    · exact obeys_pure _

theorem plain {command : Command} {act : Settings → List Text → Action Session Flow}
    (h : Interpreter.handlerOf command = .plain act) (settings : Settings)
    (arguments : List Text) : Obeys S (act settings arguments) := by
  cases command with
  | run | ifExists | ifNotExists | ifUpgradeTo => cases h
  | message | notify =>
    cases h
    exact hS.told _ _ _
  | pack =>
    cases h
    exact hS.pack settings arguments
  | unpack =>
    cases h
    exact hS.unpack settings
  | delete =>
    cases h
    exact untilExit_obeys fun a _ => hS.deleteOne settings a
  | kill =>
    cases h
    exact untilExit_obeys fun a _ => hS.killOne a
  | serviceStart | serviceStop =>
    cases h
    exact untilExit_obeys fun a _ => hS.serviceStep _ a
  | passAssemblyVersion =>
    cases h
    exact hS.passAssemblyVersion settings arguments

end Admits

theorem AdmitsStores.executeAssignment {S : Session → Session → Prop} [IsPreorder Session S]
    (hS : AdmitsStores S) (left right : Text) :
    Obeys S (Interpreter.executeAssignment left right) := by
  unfold Interpreter.executeAssignment
  split
  · exact (Admits.located _).bind fun _ => obeys_throw _
  · refine Obeys.bind ?_ fun _ => obeys_get.bind fun s => ?_
    · refine (hS.resolveMacros right).bind fun value => obeys_get_bind fun s => ?_
      split
      · exact obeysAt_set (hS.store s _)
      · exact obeys_throw _ s
    · exact (hS.world _).bind fun _ => hS.say _ _

/-- Started in `s` with `limit` levels left, the step does not depend on how scripts are run, or it
hands over to scripts as its last act, with the levels that are left then. -/
inductive Delegates (S : Session → Session → Prop) (limit : Nat)
    (step : Interpreter.Nested → Action Session Flow) (s : Session) : Prop
  | alone
      (eq : ∀ nested nested', nested.length = limit → nested'.length = limit →
        step nested s = step nested' s)
      (rel : ∀ nested, nested.length = limit → ObeysAt S (step nested) s)
  | scripts {limit' : Nat} {names : List Text} {s' : Session}
      (defers : Interpreter.Defers limit step s limit' names s') (rel : S s s')

section

variable {S : Session → Session → Prop} {α : Type} {limit : Nat}

theorem Obeys.delegates {a : Action Session Flow} (h : Obeys S a) (limit : Nat) (s : Session) :
    Delegates S limit (fun _ => a) s := .alone (fun _ _ _ _ => rfl) fun _ _ => h s

variable [IsPreorder Session S]

/-- What comes before does not depend on how scripts are run. -/
theorem Obeys.bind_delegates {a : Action Session α}
    {f : α → Interpreter.Nested → Action Session Flow} (ha : Obeys S a)
    (hf : ∀ x s, Delegates S limit (f x) s) (s : Session) :
    Delegates S limit (fun nested => a >>= fun x => f x nested) s := by
  have hs := ha s
  cases h : a s with
  | error e s' =>
    apply Delegates.alone
    · intro nested nested' _ _
      rw [bind_of_error h, bind_of_error h]
    · intro nested _
      rw [ObeysAt, finalState_of_error (bind_of_error h)]
      exact hs.of_error h
  | ok x s' =>
    have hs' : S s s' := hs.of_ok h
    cases hf x s' with
    | alone eq rel =>
      apply Delegates.alone
      · intro nested nested' hn hn'
        rw [bind_of_ok h, bind_of_ok h, eq nested nested' hn hn']
      · intro nested hn
        have hstate : finalState (a >>= fun x => f x nested) s = finalState (f x nested) s' := by
          rw [finalState, finalState, bind_of_ok h]
        rw [ObeysAt, hstate]
        exact IsTrans.trans _ _ _ hs' (rel nested hn)
    | scripts defers rel => exact .scripts (defers.bind h) (IsTrans.trans _ _ _ hs' rel)

/-- One level down. Without a level the step fails at once. -/
theorem Delegates.down {f : Interpreter.Nested → Action Session Flow} (s : Session)
    (hf : ∀ limit, Delegates S limit f s) (limit : Nat) :
    Delegates S limit (fun nested => Interpreter.descend nested fun _ below => f below) s := by
  cases limit with
  | zero =>
    refine .alone (fun nested nested' hn hn' => ?_) fun nested hn => ?_
    · rw [List.length_eq_zero_iff.mp hn, List.length_eq_zero_iff.mp hn']
    · rw [List.length_eq_zero_iff.mp hn]
      exact obeys_throw .nestedTooDeep s
  | succ limit =>
    cases hf limit with
    | alone eq rel =>
      refine .alone (fun nested nested' hn hn' => ?_) fun nested hn => ?_
      · obtain ⟨run, below, rfl⟩ := List.exists_cons_of_length_eq_add_one hn
        obtain ⟨run', below', rfl⟩ := List.exists_cons_of_length_eq_add_one hn'
        exact eq below below' (Nat.succ.inj hn) (Nat.succ.inj hn')
      · obtain ⟨run, below, rfl⟩ := List.exists_cons_of_length_eq_add_one hn
        exact rel below (Nat.succ.inj hn)
    | scripts defers rel => exact .scripts defers.down rel

end

namespace Interpreter

variable {S : Session → Session → Prop} [IsPreorder Session S]

theorem execute_delegates (hS : Admits S) (settings : Settings) (tokens : List Text) (limit : Nat)
    (s : Session) : Delegates S limit (fun nested => execute settings nested tokens) s := by
  match tokens with
  | [] => exact (obeys_throw _).delegates limit s
  | name :: arguments =>
    unfold execute
    split
    · refine Obeys.delegates ?_ limit s
      exact (hS.say _ _).bind fun _ => obeys_pure _
    · exact (hS.runProcess _ _ _).delegates limit s
    · refine Obeys.bind_delegates (hS.say _ _) (fun _ s => ?_) s
      split
      · next plain => exact (hS.plain plain _ _).delegates limit s
      · exact .scripts (.here limit arguments s) (refl s)
      · split
        · refine Obeys.delegates ?_ limit s
          exact (Admits.require _ _ _).bind fun _ => obeys_pure _
        · next path rest =>
          refine Obeys.bind_delegates (Admits.require _ _ _) (fun _ s => ?_) s
          refine Obeys.bind_delegates (hS.decide settings path _) (fun decision s => ?_) s
          split
          · exact (obeys_pure _).delegates limit s
          · split
            · exact (obeys_pure _).delegates limit s
            · exact .down s (fun limit => execute_delegates hS settings rest limit s) limit
termination_by tokens.length

theorem executeLine_delegates (hS : AdmitsStores S) (settings : Settings) (line : Text)
    (limit : Nat) (s : Session) :
    Delegates S limit (fun nested => executeLine settings nested line) s := by
  unfold executeLine
  split
  · refine Obeys.delegates ?_ limit s
    exact (hS.executeAssignment _ _).bind fun _ => obeys_pure _
  · exact Obeys.bind_delegates (hS.resolveMacros line)
      (fun resolved s => execute_delegates hS.toAdmits settings (tokenize resolved) limit s) s

end Interpreter

end Rollout
