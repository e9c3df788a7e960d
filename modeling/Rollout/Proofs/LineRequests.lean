import Rollout.Proofs.Requests

namespace Rollout

open Text Script Interpreter

/-- While a command is executed that has no condition and runs no scripts, the session comes to a
request. -/
inductive CommandAsks (settings : Settings) :
    Command → List Text → Session → Request → Session → Prop
  | listing {list : Text} {arguments : List Text} {s : Session} (list_ne : list ≠ [])
      (source_ne : s.store.source ≠ []) (target_ne : s.store.target ≠ []) :
      CommandAsks settings .pack (list :: arguments) s (.listing (unquote list)) s
  | packing {list text : Text} {arguments : List Text} {s : Session} {w : World}
      (list_ne : list ≠ []) (source_ne : s.store.source ≠ []) (target_ne : s.store.target ≠ [])
      (read : settings.resources.readText (unquote list) s.world = .ok text w) :
      CommandAsks settings .pack (list :: arguments) s
        (.packing (settings.pathOf s.store.source) (settings.pathOf s.store.target) text)
        { s with world := w }
  | archive {arguments : List Text} {s : Session} (source_ne : s.store.source ≠ [])
      (target_ne : s.store.target ≠ []) :
      CommandAsks settings .unpack arguments s (.archive (unquote s.store.source)) s
  | extracting {arguments : List Text} {s : Session} {data : Bytes} {w : World}
      (source_ne : s.store.source ≠ []) (target_ne : s.store.target ≠ [])
      (read : settings.resources.read (unquote s.store.source) s.world = .ok data w) :
      CommandAsks settings .unpack arguments s (.extracting data (settings.pathOf s.store.target))
        { s with world := w }
  | deletingFile {before rest : List Text} {argument : Text} {s s₁ : Session}
      (passed : Builtin.delete settings before s = .ok .next s₁)
      (isFile : s₁.world.isFile (settings.pathOf argument) = true) :
      CommandAsks settings .delete (before ++ argument :: rest) s
        (.deleting .fileAccessDenied (settings.pathOf argument) rest) s₁
  | deletingDirectory {before rest : List Text} {argument : Text} {s s₁ : Session}
      (passed : Builtin.delete settings before s = .ok .next s₁)
      (notFile : s₁.world.isFile (settings.pathOf argument) = false)
      (isDirectory : s₁.world.isDirectory (settings.pathOf argument) = true) :
      CommandAsks settings .delete (before ++ argument :: rest) s
        (.deleting .directoryAccessDenied (settings.pathOf argument) rest) s₁
  | killing {before rest : List Text} {argument : Text} {s s₁ : Session}
      (passed : Builtin.kill before s = .ok .next s₁) :
      CommandAsks settings .kill (before ++ argument :: rest) s
        (.killing (unquote argument) rest) s₁
  | passing {source target : Text} {s : Session} :
      CommandAsks settings .passAssemblyVersion [source, target] s
        (.passing (settings.pathOf source) (settings.pathOf target)) s

section

variable {settings : Settings} {s s₁ s' : Session} {q : Request} {e : Fault} {w : World}

theorem unlessExit_next (a : Action Session Flow) (s : Session) :
    unlessExit a (pure .next) s = a s := by
  cases h : a s with
  | error e s₁ => exact bind_of_error h
  | ok flow s₁ =>
    apply (bind_of_ok h).trans
    cases flow <;> rfl

theorem deleteAs_refused {flag : Flag} {path : Text} (h : removePath path s.world = .error e w)
    (he : e.isRefusal = true) (settings : Settings) (rest : List Text) :
    unlessExit (Builtin.deleteAs flag path) (Builtin.delete settings rest) s =
      (Request.deleting flag path rest).answered settings e { s with world := w } := by
  obtain ⟨reason, path, rfl⟩ := removePath_throws ofPath_admitsFiles _ _ _ _ h he
  have hfail : Builtin.deleteAs flag _ s = _ := bind_of_ok (attempt_onWorld_of_error h)
  exact bind_of_eq hfail _

theorem CommandAsks.answered {command : Command} {arguments : List Text}
    {act : Settings → List Text → Action Session Flow}
    (h : CommandAsks settings command arguments s q s₁) (plain : handlerOf command = .plain act)
    (hm : q.Meets settings s₁ e w) (he : e.isRefusal = true) :
    act settings arguments s = q.answered settings e { s₁ with world := w } := by
  cases h with
  | @listing list arguments _ hl hs ht =>
    cases plain
    rw [Builtin.pack, List.head?_cons, Option.getD_some, bind_of_ok (require_of_ne_nil hl _ _ _),
      get_bind, bind_of_ok (require_of_ne_nil hs _ _ _), bind_of_ok (require_of_ne_nil ht _ _ _)]
    apply (bind_of_ok (attempt_onWorld_of_error hm)).trans
    cases e with
    | missingResource missing location => exact (unlessExit_next _ _).symm
    | _ => rfl
  | @packing list text arguments _ w hl hs ht hread =>
    cases plain
    rw [Builtin.pack, List.head?_cons, Option.getD_some, bind_of_ok (require_of_ne_nil hl _ _ _),
      get_bind, bind_of_ok (require_of_ne_nil hs _ _ _), bind_of_ok (require_of_ne_nil ht _ _ _)]
    apply (bind_of_ok (attempt_onWorld_of_ok hread)).trans
    apply (bind_of_ok (attempt_onWorld_of_error hm)).trans
    cases e with
    | refused reason path => cases reason <;> exact (unlessExit_next _ _).symm
    | _ => rfl
  | @archive arguments _ hs ht =>
    cases plain
    dsimp only
    rw [Builtin.unpack, get_bind, bind_of_ok (require_of_ne_nil hs _ _ _),
      bind_of_ok (require_of_ne_nil ht _ _ _)]
    apply (bind_of_ok (attempt_onWorld_of_error hm)).trans
    cases e with
    | missingResource missing location => exact (unlessExit_next _ _).symm
    | _ => rfl
  | @extracting arguments _ data w hs ht hread =>
    cases plain
    dsimp only
    rw [Builtin.unpack, get_bind, bind_of_ok (require_of_ne_nil hs _ _ _),
      bind_of_ok (require_of_ne_nil ht _ _ _)]
    apply (bind_of_ok (attempt_onWorld_of_ok hread)).trans
    apply (bind_of_ok (attempt_onWorld_of_error hm)).trans
    cases e with
    | refused reason path => exact (unlessExit_next _ _).symm
    | invalidArchive detail => cases he
    | _ => rfl
  | @deletingFile before rest argument _ _ hpassed hfile =>
    cases plain
    refine (untilExit_append_of_next hpassed _).trans
      ((bind_of_eq ?_ _).trans (deleteAs_refused hm he settings rest))
    rw [Builtin.deleteOne, get_bind, hfile]
    rfl
  | @deletingDirectory before rest argument _ _ hpassed hfile hdirectory =>
    cases plain
    refine (untilExit_append_of_next hpassed _).trans
      ((bind_of_eq ?_ _).trans (deleteAs_refused hm he settings rest))
    rw [Builtin.deleteOne, get_bind, hfile, hdirectory]
    rfl
  | @killing before rest argument _ _ hpassed =>
    cases plain
    obtain ⟨name, pid, rfl⟩ := killByPath_denied _ _ _ _ hm
    have hfail : Builtin.killOne argument s₁ = _ := bind_of_ok (attempt_onWorld_of_error hm)
    exact (untilExit_append_of_next hpassed _).trans (bind_of_eq hfail _)
  | @passing source target _ =>
    cases plain
    rw [Builtin.passAssemblyVersion]
    apply (bind_of_ok (attempt_onWorld_of_error hm)).trans
    cases e with
    | missingMetadata path => exact (unlessExit_next _ _).symm
    | refused reason path =>
      cases reason with
      | noSuchFile => exact (unlessExit_next _ _).symm
      | _ => rfl
    | _ => rfl

theorem fail_throws {P : Fault → Prop} (flag : Flag) (message : Option Text)
    (exitCode : Option Int) : Throws P (fail flag message exitCode) := by
  intro s e s' h
  cases hi : s.store.ignoreErrors with
  | true => cases (fail_of_ignoring hi flag message exitCode).symm.trans h
  | false => cases (fail_of_strict hi flag message exitCode).symm.trans h

theorem say_throws {P : Fault → Prop} (level : Level) (t : Text) : Throws P (say level t) :=
  onWorld_throws (log_throws _ _ _)

theorem say_bind {α : Type} (level : Level) (t : Text) (f : Unit → Action Session α) (s : Session) :
    (say level t >>= f) s =
      f () { s with
        world := { s.world with journal := s.world.journal ++ [.log level .interpreter t] } } := rfl

theorem untilExit_throws {α : Type} {P : Fault → Prop} {step : α → Action Session Flow}
    (h : ∀ a, Throws P (step a)) (items : List α) : Throws P (untilExit step items) := by
  induction items with
  | nil => exact throws_pure _
  | cons a rest ih =>
    refine (h a).bind fun flow => ?_
    cases flow with
    | exit => exact throws_pure _
    | next => exact ih

theorem attempt_throws {α β : Type} {P Q : Fault → Prop} {a : Action World α}
    {f : Except Fault α → Action Session β} (ha : Throws P a)
    (herror : ∀ e, P e → Throws Q (f (.error e)))
    (hok : ∀ x, Throws Q (f (.ok x))) : Throws Q (attempt (onWorld a) >>= f) := by
  intro s e s' h
  cases hs : a s.world with
  | ok x w => exact hok x _ _ _ ((bind_of_ok (attempt_onWorld_of_ok hs)).symm.trans h)
  | error e₁ w =>
    exact herror e₁ (ha _ _ _ hs) _ _ _ ((bind_of_ok (attempt_onWorld_of_error hs)).symm.trans h)

theorem fail_ne_error (flag : Flag) (message : Option Text) (exitCode : Option Int) :
    fail flag message exitCode s ≠ .error e s' := fun h =>
  (fail_throws (P := fun _ => False) flag message exitCode _ _ _ h).elim

theorem require_error {value what : Text} {command : Command} {α : Type}
    {f : Unit → Action Session α} (h : (require value what command >>= f) s = .error e s') :
    Internal e ∨ value ≠ [] ∧ f () s = .error e s' := by
  cases value with
  | nil =>
    cases h
    exact .inl rfl
  | cons c rest =>
    have hne : c :: rest ≠ [] := List.cons_ne_nil c rest
    exact .inr ⟨hne, (bind_of_ok (require_of_ne_nil hne _ _ _)).symm.trans h⟩

theorem pack_error {arguments : List Text} (h : Builtin.pack settings arguments s = .error e s') :
    Internal e ∨ ∃ q s₁, CommandAsks settings .pack arguments s q s₁ ∧ q.Fails settings s₁ e := by
  rw [Builtin.pack] at h
  obtain hinternal | ⟨hl, h⟩ := require_error h
  · exact .inl hinternal
  rw [get_bind] at h
  obtain hinternal | ⟨hs, h⟩ := require_error h
  · exact .inl hinternal
  obtain hinternal | ⟨ht, h⟩ := require_error h
  · exact .inl hinternal
  cases arguments with
  | nil => exact absurd rfl hl
  | cons list arguments =>
    right
    cases hread : settings.resources.readText (unquote list) s.world with
    | error e₁ w =>
      replace h := (bind_of_ok (attempt_onWorld_of_error hread)).symm.trans h
      refine ⟨_, _, .listing hl hs ht, ?_⟩
      cases e₁ with
      | missingResource missing location => exact absurd h (fail_ne_error _ _ _)
      | _ =>
        cases h
        exact ⟨rfl, w, hread⟩
    | ok text w =>
      replace h := (bind_of_ok (attempt_onWorld_of_ok hread)).symm.trans h
      refine ⟨_, _, .packing hl hs ht hread, ?_⟩
      cases hpack : Builtin.packing (settings.pathOf s.store.source)
          (settings.pathOf s.store.target) text w with
      | ok _ w₁ => cases (bind_of_ok (attempt_onWorld_of_ok hpack)).symm.trans h
      | error e₁ w₁ =>
        replace h := (bind_of_ok (attempt_onWorld_of_error hpack)).symm.trans h
        cases e₁ with
        | refused reason path => cases reason <;> exact absurd h (fail_ne_error _ _ _)
        | _ =>
          cases h
          exact ⟨rfl, w₁, hpack⟩

theorem unpack_error {arguments : List Text} (h : Builtin.unpack settings s = .error e s') :
    Internal e ∨ ∃ q s₁, CommandAsks settings .unpack arguments s q s₁ ∧ q.Fails settings s₁ e := by
  rw [Builtin.unpack, get_bind] at h
  obtain hinternal | ⟨hs, h⟩ := require_error h
  · exact .inl hinternal
  obtain hinternal | ⟨ht, h⟩ := require_error h
  · exact .inl hinternal
  right
  cases hread : settings.resources.read (unquote s.store.source) s.world with
  | error e₁ w =>
    replace h := (bind_of_ok (attempt_onWorld_of_error hread)).symm.trans h
    refine ⟨_, _, .archive hs ht, ?_⟩
    cases e₁ with
    | missingResource missing location => exact absurd h (fail_ne_error _ _ _)
    | _ =>
      cases h
      exact ⟨rfl, w, hread⟩
  | ok data w =>
    replace h := (bind_of_ok (attempt_onWorld_of_ok hread)).symm.trans h
    refine ⟨_, _, .extracting hs ht hread, ?_⟩
    cases hextract : Archiver.extract { codec := .deflate } (Stream.ofBytes portion data)
        (settings.pathOf s.store.target) w with
    | ok _ w₁ => cases (bind_of_ok (attempt_onWorld_of_ok hextract)).symm.trans h
    | error e₁ w₁ =>
      replace h := (bind_of_ok (attempt_onWorld_of_error hextract)).symm.trans h
      cases e₁ with
      | refused reason path => exact absurd h (fail_ne_error _ _ _)
      | invalidArchive detail => exact absurd h (fail_ne_error _ _ _)
      | _ =>
        cases h
        exact ⟨rfl, w₁, hextract⟩

theorem deleteAs_error {flag : Flag} {path : Text}
    (h : Builtin.deleteAs flag path s = .error e s') (rest : List Text) :
    (Request.deleting flag path rest).Fails settings s e := by
  rw [Builtin.deleteAs] at h
  cases hremove : removePath path s.world with
  | ok _ w => cases (bind_of_ok (attempt_onWorld_of_ok hremove)).symm.trans h
  | error e₁ w =>
    replace h := (bind_of_ok (attempt_onWorld_of_error hremove)).symm.trans h
    cases e₁ with
    | refused reason path => exact absurd h (fail_ne_error _ _ _)
    | _ =>
      cases h
      exact ⟨rfl, w, hremove⟩

theorem delete_error {arguments : List Text}
    (h : Builtin.delete settings arguments s = .error e s') :
    ∃ q s₁, CommandAsks settings .delete arguments s q s₁ ∧ q.Fails settings s₁ e := by
  obtain ⟨s₁, hnext⟩ | ⟨before, argument, rest, s₁, rfl, passed, hlast⟩ :=
    untilExit_cases (Builtin.deleteOne settings) arguments s
  · cases hnext.symm.trans h
  replace h := hlast.symm.trans h
  rw [Builtin.deleteOne, get_bind] at h
  cases isFile : s₁.world.isFile (settings.pathOf argument) with
  | true =>
    rw [isFile] at h
    exact ⟨_, _, .deletingFile passed isFile, deleteAs_error h rest⟩
  | false =>
    rw [isFile] at h
    cases isDirectory : s₁.world.isDirectory (settings.pathOf argument) with
    | true =>
      rw [isDirectory] at h
      exact ⟨_, _, .deletingDirectory passed isFile isDirectory, deleteAs_error h rest⟩
    | false =>
      rw [isDirectory] at h
      cases h

theorem kill_throws (arguments : List Text) : Throws (fun _ => False) (Builtin.kill arguments) := by
  refine untilExit_throws (fun argument => ?_) arguments
  refine attempt_throws (killByPath_denied _) (fun e he => ?_) fun found => ?_
  · obtain ⟨name, pid, rfl⟩ := he
    exact fail_throws _ _ _
  · cases found with
    | true => exact throws_pure _
    | false => exact (say_throws _ _).bind fun _ => throws_pure _

theorem serviceStep_throws {operation : Text → Action World Unit}
    (h : ∀ name, Throws Internal (operation name)) (argument : Text) :
    Throws Internal (Builtin.serviceStep operation argument) := by
  refine attempt_throws (h _) (fun e he => ?_) fun _ => throws_pure _
  cases e with
  | serviceOperation name detail => exact (say_throws _ _).bind fun _ => throws_pure _
  | _ => exact throws_throw he

theorem passAssemblyVersion_error {arguments : List Text}
    (h : Builtin.passAssemblyVersion settings arguments s = .error e s') :
    Internal e ∨ ∃ q s₁, CommandAsks settings .passAssemblyVersion arguments s q s₁ ∧
      q.Fails settings s₁ e := by
  unfold Builtin.passAssemblyVersion at h
  split at h
  · next source target =>
    refine .inr ⟨_, _, .passing, ?_⟩
    cases hpass : Metadata.pass (settings.pathOf source) (settings.pathOf target) s.world with
    | ok versions w => cases (bind_of_ok (attempt_onWorld_of_ok hpass)).symm.trans h
    | error e₁ w =>
      replace h := (bind_of_ok (attempt_onWorld_of_error hpass)).symm.trans h
      cases e₁ with
      | missingMetadata path => exact absurd h (fail_ne_error _ _ _)
      | refused reason path =>
        cases reason with
        | noSuchFile => exact absurd h (fail_ne_error _ _ _)
        | _ =>
          cases h
          exact ⟨rfl, w, hpass⟩
      | _ =>
        cases h
        exact ⟨rfl, w, hpass⟩
  · exact .inl (throw_located_throws _ _ _ _ h)

/-- A command ends early by itself, or by a request of which it lets out the fault. -/
theorem plain_error {command : Command} {act : Settings → List Text → Action Session Flow}
    {arguments : List Text} (plain : handlerOf command = .plain act)
    (h : act settings arguments s = .error e s') :
    Internal e ∨ ∃ q s₁, CommandAsks settings command arguments s q s₁ ∧
      q.Fails settings s₁ e := by
  cases command with
  | run | ifExists | ifNotExists | ifUpgradeTo => cases plain
  | message | notify =>
    cases plain
    cases h
  | pack =>
    cases plain
    exact pack_error h
  | unpack =>
    cases plain
    exact unpack_error h
  | delete =>
    cases plain
    exact .inr (delete_error h)
  | kill =>
    cases plain
    exact (kill_throws arguments _ _ _ h).elim
  | serviceStart =>
    cases plain
    exact .inl (untilExit_throws (serviceStep_throws fun name =>
      Service.start_throws Service.defaultPoll name (some Service.startTimeout)) arguments _ _ _ h)
  | serviceStop =>
    cases plain
    exact .inl (untilExit_throws (serviceStep_throws fun name =>
      Service.stop_throws Service.defaultPoll name none) arguments _ _ _ h)
  | passAssemblyVersion =>
    cases plain
    exact passAssemblyVersion_error h

end

inductive TokensAsk (settings : Settings) :
    (limit : Nat) → List Text → Session → Request → Session → Prop
  | program {limit : Nat} {path : Text} {arguments : List Text} {s : Session}
      (head : headOf path = .external) :
      TokensAsk settings limit (path :: arguments) s (.starting path (unwords arguments)) s
  | command {limit : Nat} {name : Text} {arguments : List Text} {command : Command}
      {act : Settings → List Text → Action Session Flow} {s s₁ : Session} {q : Request}
      (head : headOf name = .builtin command) (plain : handlerOf command = .plain act)
      (asks : CommandAsks settings command arguments (s.announced command arguments) q s₁) :
      TokensAsk settings limit (name :: arguments) s q s₁
  | probe {limit : Nat} {name path : Text} {rest : List Text} {s : Session}
      (head : headOf name = .builtin .ifUpgradeTo) (path_ne : path ≠ [])
      (isFile : s.world.isFile (settings.pathOf path) = true) :
      TokensAsk settings limit (name :: path :: rest) s (.probing (settings.pathOf path))
        (s.announced .ifUpgradeTo (path :: rest))
  | holds {limit : Nat} {name path : Text} {rest : List Text} {command : Command}
      {condition : Builtin.Condition} {s s₁ s₂ : Session} {q : Request}
      (head : headOf name = .builtin command)
      (conditional : handlerOf command = .condition condition) (path_ne : path ≠ [])
      (holds : condition.decide settings path (s.announced command (path :: rest)) = .ok none s₁)
      (asks : TokensAsk settings limit rest s₁ q s₂) :
      TokensAsk settings (limit + 1) (name :: path :: rest) s q s₂

section

variable {settings : Settings} {nested : Nested} {s s₁ s' : Session}
  {q : Request} {e : Fault} {w : World}

theorem runProcess_refused {path arguments : Text}
    (hm : (Request.starting path arguments).Meets settings s e w) :
    Builtin.runProcess settings path arguments s =
      (Request.starting path arguments).answered settings e { s with world := w } := by
  rw [Builtin.runProcess, get_bind]
  apply (bind_of_ok (attempt_onWorld_of_error hm)).trans
  cases e with
  | refused reason path =>
    cases reason with
    | noSuchFile => exact (unlessExit_next _ _).symm
    | denied => exact (unlessExit_next _ _).symm
    | _ => rfl
  | _ => rfl

theorem decideUpgrade_refused {path : Text} (hf : s.world.isFile path = true)
    (h : Builtin.installedVersion settings path s.world = .error e w) :
    Builtin.decideUpgrade settings path s = .error e { s with world := w } := by
  rw [Builtin.decideUpgrade, get_bind, hf]
  exact bind_of_error (onWorld_of_error h)

theorem TokensAsk.answered {limit : Nat} {tokens : List Text}
    (h : TokensAsk settings limit tokens s q s₁) (hn : nested.length = limit)
    (hm : q.Meets settings s₁ e w) (he : e.isRefusal = true) :
    execute settings nested tokens s = q.answered settings e { s₁ with world := w } := by
  induction h generalizing nested with
  | program head =>
    rw [execute]
    simp only [head]
    exact runProcess_refused hm
  | command head plain asks =>
    rw [execute_of_plain head plain]
    exact asks.answered plain hm he
  | probe head path_ne =>
    rw [execute_of_condition head rfl path_ne]
    obtain ⟨hf, hversion⟩ := hm
    apply (bind_of_error (decideUpgrade_refused hf hversion)).trans
    cases e <;> rfl
  | @holds limit name path rest command condition s s₁ s₂ q head conditional path_ne holds asks ih =>
    rw [execute_of_condition head conditional path_ne, bind_of_ok holds]
    obtain ⟨run, below, rfl⟩ := List.exists_cons_of_length_eq_add_one hn
    have hrest : rest.isEmpty = false := by
      cases asks <;> rfl
    rw [executeRest, hrest]
    exact ih (Nat.succ.inj hn) hm

theorem runProcess_error {path arguments : Text}
    (h : Builtin.runProcess settings path arguments s = .error e s') :
    (Request.starting path arguments).Fails settings s e := by
  rw [Builtin.runProcess, get_bind] at h
  cases hlaunch : launch (unquote path) arguments (some settings.directory) s.store.redirectOutput
      (some s.store.processTimeout) s.world with
  | ok outcome w =>
    replace h := (bind_of_ok (attempt_onWorld_of_ok hlaunch)).symm.trans h
    dsimp only at h
    split at h
    · cases h
    · exact absurd h (fail_ne_error _ _ _)
  | error e₁ w =>
    replace h := (bind_of_ok (attempt_onWorld_of_error hlaunch)).symm.trans h
    cases e₁ with
    | refused reason key =>
      cases reason with
      | noSuchFile => exact absurd h (fail_ne_error _ _ _)
      | denied => exact absurd h (fail_ne_error _ _ _)
      | _ =>
        cases h
        exact ⟨rfl, w, hlaunch⟩
    | _ =>
      cases h
      exact ⟨rfl, w, hlaunch⟩

/-- A condition ends early only when a version is looked up. -/
theorem decide_error {condition : Builtin.Condition} {path : Text}
    (h : condition.decide settings path s = .error e s') :
    condition = .upgrade ∧ s.world.isFile (settings.pathOf path) = true ∧
      (Request.probing (settings.pathOf path)).Fails settings s e := by
  cases condition with
  | fileThere => cases h
  | fileMissing => cases h
  | upgrade =>
    replace h : Builtin.decideUpgrade settings (settings.pathOf path) s = .error e s' := h
    rw [Builtin.decideUpgrade, get_bind] at h
    cases hf : s.world.isFile (settings.pathOf path) with
    | false =>
      rw [hf] at h
      cases h
    | true =>
      rw [hf] at h
      have hflag : (Request.probing (settings.pathOf path)).flag? e = none := by cases e <;> rfl
      refine ⟨rfl, rfl, hflag, ?_⟩
      cases hversion : Builtin.installedVersion settings (settings.pathOf path) s.world with
      | error e₁ w =>
        cases (bind_of_error (onWorld_of_error hversion)).symm.trans h
        exact ⟨w, hf, hversion⟩
      | ok installed w =>
        replace h := (bind_of_ok (onWorld_of_ok hversion)).symm.trans h
        split at h
        · cases h
        · obtain hfail | ⟨_, _, -, hpure⟩ := bind_eq_error.mp h
          · exact absurd hfail (fail_ne_error _ _ _)
          · cases hpure

theorem condition_error {name : Text} {arguments : List Text} {command : Command}
    {condition : Builtin.Condition} (head : headOf name = .builtin command)
    (conditional : handlerOf command = .condition condition)
    (h : execute settings nested (name :: arguments) s = .error e s') :
    Internal e ∨ ∃ path rest, arguments = path :: rest ∧ path ≠ [] := by
  rw [execute] at h
  simp only [head, conditional] at h
  rw [say_bind] at h
  cases arguments with
  | nil => exact (require_error h).imp_right fun hne => absurd rfl hne.1
  | cons path rest => exact (require_error h).imp_right fun hne => ⟨path, rest, rfl, hne.1⟩

/-- A condition ends early by itself, by the lookup of a version, or when it holds, by what stands
behind it. -/
theorem conditional_error (limit : Nat) {name : Text} {arguments : List Text} {command : Command}
    {condition : Builtin.Condition} (head : headOf name = .builtin command)
    (conditional : handlerOf command = .condition condition)
    (h : execute settings nested (name :: arguments) s = .error e s') :
    (Internal e ∨
      ∃ q s₁, TokensAsk settings limit (name :: arguments) s q s₁ ∧ q.Fails settings s₁ e) ∨
    ∃ path rest s₁ run below, arguments = path :: rest ∧ path ≠ [] ∧ rest ≠ [] ∧
      condition.decide settings path (s.announced command (path :: rest)) = .ok none s₁ ∧
      nested = run :: below ∧ execute settings below rest s₁ = .error e s' := by
  obtain hinternal | ⟨path, rest, rfl, path_ne⟩ := condition_error head conditional h
  · exact .inl (.inl hinternal)
  rw [execute_of_condition head conditional path_ne] at h
  cases hd : condition.decide settings path (s.announced command (path :: rest)) with
  | error e₁ s₁ =>
    cases (bind_of_error hd).symm.trans h
    obtain ⟨rfl, hf, fails⟩ := decide_error hd
    have hcommand : command = .ifUpgradeTo := by
      cases command <;> first | rfl | cases conditional
    subst hcommand
    exact .inl (.inr ⟨_, _, .probe head path_ne hf, fails⟩)
  | ok decision s₁ =>
    replace h := (bind_of_ok hd).symm.trans h
    cases decision with
    | some flow => cases h
    | none =>
      cases rest with
      | nil => cases h
      | cons token rest =>
        cases nested with
        | nil =>
          cases h
          exact .inl (.inl rfl)
        | cons run below =>
          exact .inr ⟨path, _, s₁, run, below, rfl, path_ne, List.cons_ne_nil _ _, hd, rfl, h⟩

/-- A command of tokens ends early by itself, by a request, or by the scripts that it runs. -/
theorem execute_error {limit : Nat} {tokens : List Text} (hne : tokens ≠ [])
    (hn : nested.length = limit) (h : execute settings nested tokens s = .error e s') :
    Internal e ∨ (∃ q s₁, TokensAsk settings limit tokens s q s₁ ∧ q.Fails settings s₁ e) ∨
      ∃ limit' names s₁,
        Defers limit (fun nested => execute settings nested tokens) s limit' names s₁ := by
  -- on the number of tokens, since a condition that holds takes two of them
  induction hlength : tokens.length using Nat.strong_induction_on
    generalizing tokens s nested limit with
  | _ n ih =>
    obtain ⟨name, arguments, rfl⟩ := List.exists_cons_of_ne_nil hne
    cases head : headOf name with
    | exit =>
      rw [execute] at h
      simp only [head] at h
      cases h
    | external =>
      rw [execute] at h
      simp only [head] at h
      exact .inr (.inl ⟨_, _, .program head, runProcess_error h⟩)
    | builtin command =>
      cases handler : handlerOf command with
      | plain act =>
        rw [execute_of_plain head handler] at h
        refine (plain_error handler h).imp_right fun hasks => .inl ?_
        obtain ⟨q, s₁, asks, fails⟩ := hasks
        exact ⟨q, s₁, .command head handler asks, fails⟩
      | run =>
        refine .inr (.inr ⟨limit, arguments, s.announced command arguments, ?_⟩)
        exact (Defers.here limit arguments _).of_eq fun nested => execute_of_run head handler
      | condition condition =>
        obtain hself | ⟨path, rest, s₁, run, below, rfl, path_ne, rest_ne, hd, rfl, hrest⟩ :=
          conditional_error limit head handler h
        · exact hself.imp_right .inl
        subst hn
        have hless : rest.length < n := by
          rw [← hlength, List.length_cons, List.length_cons]
          omega
        obtain hinternal | ⟨q, s₂, asks, fails⟩ | ⟨limit', names, s₂, defers⟩ :=
          ih _ hless rest_ne rfl hrest rfl
        · exact .inl hinternal
        · exact .inr (.inl ⟨q, s₂, .holds head handler path_ne hd asks, fails⟩)
        · exact .inr (.inr ⟨limit', names, s₂, defers_of_condition head handler path_ne hd
            (by simpa using rest_ne) defers⟩)

end

end Rollout
