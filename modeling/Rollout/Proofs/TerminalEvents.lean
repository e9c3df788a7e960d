import Mathlib.Data.List.Induction
import Rollout.Proofs.Conduct

namespace Rollout

open Text Script

namespace Builtin

theorem message_conducts (arguments : List Text) : Conducts IsExit (message arguments) :=
  (say_calm .info nofun _).conducts fun _ =>
    (emit_calm ⟨rfl, rfl⟩).conducts fun _ => .of_calm (obeys_pure _)

theorem notify_conducts (arguments : List Text) : Conducts IsExit (notify arguments) :=
  (say_calm .info nofun _).conducts fun _ =>
    (emit_calm ⟨rfl, rfl⟩).conducts fun _ => .of_calm (obeys_pure _)

theorem pack_conducts (settings : Settings) (arguments : List Text) :
    Conducts IsExit (pack settings arguments) := by
  refine (require_calm _ _ _).conducts fun _ => obeys_get.conducts fun s => ?_
  refine (require_calm _ _ _).conducts fun _ => (require_calm _ _ _).conducts fun _ => ?_
  refine (onWorld_calm (settings.resources.readText_evolves _)).attempt.conducts fun listing => ?_
  split
  · exact fail_conducts _ _ _
  · exact .of_calm (obeys_throw _)
  · refine (onWorld_calm ?_).attempt.conducts fun packed => ?_
    · exact (makeDirectories_sameButTree _).evolves.bind fun _ =>
        obeys_get.bind fun _ => Archiver.create_evolves _ _ _
    · split
      · exact fail_conducts _ _ _
      · exact fail_conducts _ _ _
      · exact .of_calm (obeys_throw _)
      · exact (say_calm .debug nofun _).conducts fun _ => .of_calm (obeys_pure _)

theorem unpack_conducts (settings : Settings) : Conducts IsExit (unpack settings) := by
  refine obeys_get.conducts fun s => ?_
  refine (require_calm _ _ _).conducts fun _ => (require_calm _ _ _).conducts fun _ => ?_
  refine (onWorld_calm (settings.resources.read_evolves _)).attempt.conducts fun data => ?_
  split
  · exact fail_conducts _ _ _
  · exact .of_calm (obeys_throw _)
  · refine (onWorld_calm (Archiver.extract_evolves _ _ _)).attempt.conducts fun extracted => ?_
    split
    · exact fail_conducts _ _ _
    · exact fail_conducts _ _ _
    · exact .of_calm (obeys_throw _)
    · exact .of_calm (obeys_pure _)

theorem deleteAs_conducts (flag : Flag) (path : Text) : Conducts IsExit (deleteAs flag path) := by
  refine (onWorld_calm (removePath_sameButTree path).evolves).attempt.conducts fun removed => ?_
  split
  · exact fail_conducts _ _ _
  · exact .of_calm (obeys_throw _)
  · exact .of_calm (obeys_pure _)

theorem deleteOne_conducts (settings : Settings) (argument : Text) :
    Conducts IsExit (deleteOne settings argument) := by
  refine obeys_get.conducts fun s => ?_
  split
  · exact deleteAs_conducts _ _
  · split
    · exact deleteAs_conducts _ _
    · exact .of_calm (obeys_pure _)

theorem killOne_conducts (argument : Text) : Conducts IsExit (killOne argument) := by
  refine (onWorld_calm (killByPath_evolves _)).attempt.conducts fun killed => ?_
  split
  · exact fail_conducts _ _ _
  · exact .of_calm (obeys_throw _)
  · exact .of_calm (obeys_pure _)
  · exact (say_calm .debug nofun _).conducts fun _ => .of_calm (obeys_pure _)

theorem serviceStep_conducts {operation : Text → Action World Unit}
    (h : ∀ name, Obeys Evolves (operation name)) (argument : Text) :
    Conducts IsExit (serviceStep operation argument) := by
  refine (onWorld_calm (h _)).attempt.conducts fun done => ?_
  split
  · exact (say_calm .debug nofun _).conducts fun _ => .of_calm (obeys_pure _)
  · exact .of_calm (obeys_throw _)
  · exact .of_calm (obeys_pure _)

theorem passAssemblyVersion_conducts (settings : Settings) (arguments : List Text) :
    Conducts IsExit (passAssemblyVersion settings arguments) := by
  unfold passAssemblyVersion
  split
  · refine (onWorld_calm (Metadata.pass_evolves _ _)).attempt.conducts fun passed => ?_
    split
    · exact fail_conducts _ _ _
    · exact fail_conducts _ _ _
    · exact .of_calm (obeys_throw _)
    · exact (say_calm .debug nofun _).conducts fun _ => .of_calm (obeys_pure _)
  · exact (located_calm _).conducts fun _ => .of_calm (obeys_throw _)

theorem runProcess_conducts (settings : Settings) (path arguments : Text) :
    Conducts IsExit (runProcess settings path arguments) := by
  refine obeys_get.conducts fun s => ?_
  refine (onWorld_calm (launch_evolves _ _ _ _ _)).attempt.conducts fun outcome => ?_
  split
  · exact fail_conducts _ _ _
  · exact fail_conducts _ _ _
  · exact .of_calm (obeys_throw _)
  · split
    · exact .of_calm (obeys_pure _)
    · exact fail_conducts _ _ _

/-- Of the conditions only that on the version can halt a run. -/
theorem decide_conducts (settings : Settings) (argument : Text) (condition : Condition) :
    Conducts (· = some Flow.exit) (condition.decide settings argument) := by
  cases condition with
  | fileThere => exact obeys_get.conducts fun s => .of_calm (obeys_pure _)
  | fileMissing => exact obeys_get.conducts fun s => .of_calm (obeys_pure _)
  | upgrade =>
    refine obeys_get.conducts fun s => ?_
    split
    · refine (onWorld_calm (installedVersion_evolves _ _)).conducts fun installed => ?_
      split
      · exact .of_calm (obeys_pure _)
      · refine (fail_conducts _ _ _).bind (fun _ => .of_calm (obeys_pure _)) ?_
        rintro _ rfl
        exact ⟨some .exit, rfl, rfl⟩
    · exact .of_calm (obeys_pure _)

end Builtin

def Session.succeeded (s : Session) : Session :=
  { s with world := s.world.told .info "Run completed successfully".toList .success }

namespace Interpreter

theorem plain_conducts {command : Command} {act : Settings → List Text → Action Session Flow}
    (h : handlerOf command = .plain act) (settings : Settings) (arguments : List Text) :
    Conducts IsExit (act settings arguments) := by
  cases command with
  | run | ifExists | ifNotExists | ifUpgradeTo => cases h
  | message =>
    cases h
    exact Builtin.message_conducts arguments
  | notify =>
    cases h
    exact Builtin.notify_conducts arguments
  | pack =>
    cases h
    exact Builtin.pack_conducts settings arguments
  | unpack =>
    cases h
    exact Builtin.unpack_conducts settings
  | delete =>
    cases h
    exact untilExit_conducts (Builtin.deleteOne_conducts settings) arguments
  | kill =>
    cases h
    exact untilExit_conducts Builtin.killOne_conducts arguments
  | serviceStart =>
    cases h
    exact untilExit_conducts (Builtin.serviceStep_conducts fun _ => Service.start_evolves _ _ _) _
  | serviceStop =>
    cases h
    exact untilExit_conducts (Builtin.serviceStep_conducts fun _ => Service.stop_evolves _ _ _) _
  | passAssemblyVersion =>
    cases h
    exact Builtin.passAssemblyVersion_conducts settings arguments

variable {settings : Settings} {nested : Nested}

theorem descend_conducts {enter : (List Text → Action Session Flow) → Nested → Action Session Flow}
    (h : ∀ run below, nested = run :: below → Conducts IsExit (enter run below)) :
    Conducts IsExit (descend nested enter) := by
  cases nested with
  | nil => exact .of_calm (obeys_throw _)
  | cons run below => exact h run below rfl

theorem runNext_conducts (h : ∀ run ∈ nested, ∀ names, Conducts IsExit (run names))
    (names : List Text) : Conducts IsExit (runNext nested names) :=
  descend_conducts fun run _ hn => h run (hn ▸ List.mem_cons_self ..) names

theorem execute_conducts {nested : Nested}
    (h : ∀ run ∈ nested, ∀ names, Conducts IsExit (run names)) (tokens : List Text) :
    Conducts IsExit (execute settings nested tokens) := by
  match tokens with
  | [] => exact .of_calm (obeys_throw _)
  | name :: arguments =>
    unfold execute
    split
    · exact (say_calm .debug nofun _).conducts fun _ => .of_calm (obeys_pure _)
    · exact Builtin.runProcess_conducts _ _ _
    · refine (say_calm .debug nofun _).conducts fun _ => ?_
      split
      · next act plain => exact plain_conducts plain _ _
      · exact runNext_conducts h _
      · split
        · exact (require_calm _ _ _).conducts fun _ => .of_calm (obeys_pure _)
        · next path rest =>
          refine (require_calm _ _ _).conducts fun _ => ?_
          refine (Builtin.decide_conducts settings path _).bind (fun decision => ?_) ?_
          · split
            · exact .of_calm (obeys_pure _)
            · split
              · exact .of_calm (obeys_pure _)
              · exact descend_conducts fun run below hn =>
                  execute_conducts (fun r hr => h r (hn ▸ List.mem_cons_of_mem _ hr)) rest
          · rintro _ rfl
            exact ⟨.exit, rfl, rfl⟩
termination_by tokens.length

theorem assign_calm (name value : Text) : Obeys Calm (assign name value) := by
  refine (resolveMacros_calm value).bind fun value => obeys_get_bind fun s => ?_
  split
  · exact obeysAt_set (calm_of_evolves rfl rfl rfl rfl (refl _))
  · exact obeys_throw _ s

theorem executeAssignment_calm (left right : Text) : Obeys Calm (executeAssignment left right) := by
  unfold executeAssignment
  split
  · exact (located_calm _).bind fun _ => obeys_throw _
  · refine (assign_calm _ right).bind fun _ => obeys_get.bind fun s => ?_
    exact (onWorld_calm (valueOf_evolves _ _)).bind fun _ => say_calm .debug nofun _

theorem executeLine_conducts (h : ∀ run ∈ nested, ∀ names, Conducts IsExit (run names))
    (line : Text) :
    Conducts IsExit (executeLine settings nested line) := by
  unfold executeLine
  split
  · exact (executeAssignment_calm _ _).conducts fun _ => .of_calm (obeys_pure _)
  · exact (resolveMacros_calm _).conducts fun _ => execute_conducts h _

theorem runLine_conducts (h : ∀ run ∈ nested, ∀ names, Conducts IsExit (run names))
    (script line : Text) :
    Conducts IsExit (runLine settings nested script line) := by
  refine Obeys.conducts (obeys_modify fun s => ?_) fun _ => ?_
  · exact calm_of_evolves rfl rfl rfl rfl (refl _)
  · exact (say_calm .debug nofun _).conducts fun _ => executeLine_conducts h _

theorem runScript_conducts (h : ∀ run ∈ nested, ∀ names, Conducts IsExit (run names)) (name : Text) :
    Conducts IsExit (runScript settings nested name) := by
  refine (onWorld_calm (settings.resources.readText_evolves name)).attempt.conducts fun t => ?_
  split
  · exact fail_conducts _ _ _
  · exact .of_calm (obeys_throw _)
  · exact untilExit_conducts (runLine_conducts h name) _

theorem runNamed_conducts (h : ∀ run ∈ nested, ∀ names, Conducts IsExit (run names)) (name : Text) :
    Conducts IsExit (runNamed settings nested name) := by
  unfold runNamed
  split
  · exact .of_calm (obeys_pure _)
  · exact runScript_conducts h _

theorem reportSuccess_eq (s : Session) :
    reportSuccess s =
      .ok () (if s.depth = 0 ∧ s.failed = false ∧ s.status = .ok then s.succeeded else s) := by
  change (if s.depth = 0 && !s.failed && s.status = .ok then _ else _ : Action Session Unit) s = _
  by_cases h : s.depth = 0 ∧ s.failed = false ∧ s.status = .ok
  · rw [if_pos h, if_pos (by simp [h])]
    change EStateM.Result.ok _ _ = _
    simp only [Session.succeeded, World.told, List.append_assoc]
    rfl
  · rw [if_neg h, if_neg (by simpa [and_assoc] using h)]
    rfl

theorem reportSuccess_of_depth {s : Session} (h : 0 < s.depth) : reportSuccess s = .ok () s := by
  rw [reportSuccess_eq, if_neg fun hs => absurd hs.1 (Nat.pos_iff_ne_zero.mp h)]

theorem runAll_conducts (h : ∀ run ∈ nested, ∀ names, Conducts IsExit (run names))
    (names : List Text) : Conducts IsExit (runAll settings nested names) := by
  intro s hs
  have quiet (flow : Flow) {s' : Session} (h : s'.depth = s.depth) :
      (do reportSuccess; pure flow : Action Session Flow) s' = .ok flow s' := by
    rw [bind_of_ok (reportSuccess_of_depth (h ▸ hs))]
    rfl
  refine (deeper_conducts (untilExit_conducts (runNamed_conducts h) names) s).bind ?_ ?_
  · intro flow s' hc
    unfold ConductsAt
    rw [quiet flow hc.depth]
    exact .inl (refl s')
  · intro flow s' hx hd
    exact ⟨flow, hx, quiet flow hd⟩

theorem levels_conducts (settings : Settings) (limit : Nat) :
    ∀ run ∈ levels settings limit, ∀ names, Conducts IsExit (run names) :=
  forall_levels (fun _ => runAll_conducts) limit

theorem runScripts_conducts (limit : Nat) (names : List Text) :
    Conducts IsExit (runScripts settings limit names) :=
  runNext_conducts (levels_conducts settings limit) names

/-- The outermost scripts end calmly, by a halt or by a fault. Of the calm endings those with a clean
status are told to the host. -/
theorem runScripts_outermost (settings : Settings) (limit : Nat) (names : List Text) {s : Session}
    (hd : s.depth = 0) (hf : s.failed = false) :
    (∃ flow s₁, Calm s s₁ ∧ s₁.status = .ok ∧
      runScripts settings limit names s = .ok flow s₁.succeeded) ∨
    (∃ flow s₁, Calm s s₁ ∧ s₁.status ≠ .ok ∧ runScripts settings limit names s = .ok flow s₁) ∨
    (∃ s₁, Halts s s₁ ∧ runScripts settings limit names s = .ok .exit s₁) ∨
    (∃ e s₁, Calm s s₁ ∧ runScripts settings limit names s = .error e s₁) := by
  cases limit with
  | zero => exact .inr (.inr (.inr ⟨_, s, refl s, rfl⟩))
  | succ limit =>
    let scripts := untilExit (runNamed settings (levels settings limit)) names
    have h : ConductsAt IsExit (deeper scripts) s :=
      deeper_conducts
        (untilExit_conducts (runNamed_conducts (levels_conducts settings limit)) names) s
    unfold ConductsAt at h
    cases hr : deeper scripts s with
    | error e s₁ =>
      rw [hr] at h
      exact .inr (.inr (.inr ⟨e, s₁, h, bind_of_error hr⟩))
    | ok flow s₁ =>
      rw [hr] at h
      have he : runScripts settings (limit + 1) names s = _ :=
        (bind_of_ok hr).trans (bind_of_ok (reportSuccess_eq s₁))
      obtain hc | ⟨rfl, hh⟩ := h
      · by_cases hs : s₁.status = .ok
        · rw [if_pos ⟨hc.depth.trans hd, hc.failed.trans hf, hs⟩] at he
          exact .inl ⟨flow, s₁, hc, hs, he⟩
        · rw [if_neg fun h => hs h.2.2] at he
          exact .inr (.inl ⟨flow, s₁, hc, hs, he⟩)
      · have hfail : s₁.failed = true := by
          obtain ⟨s₂, flag, message, exitCode, -, -, rfl⟩ := hh
          rfl
        rw [if_neg fun h => by simp [hfail] at h] at he
        exact .inr (.inr (.inl ⟨s₁, hh, he⟩))

end Interpreter

def Session.renewed (s : Session) : Session :=
  { s with status := .ok, failed := false, diagnostics := none, script := none, line := none }

def Session.errorReport (s : Session) (e : ScriptError) : Diagnostics :=
  { script := s.script
    line := s.line
    status := s.status.union e.cause.status
    message := some e.message }

theorem run_eq (settings : Settings) (limit : Nat) (names : List Text) (s : Session) :
    Interpreter.run settings limit names s =
      match Interpreter.runScripts settings limit names s.renewed with
      | .ok _ s' => .ok (!s'.failed && s'.status = .ok) s'
      | .error (.script e) s' => .ok false (s'.endedBy (s'.errorReport e))
      | .error e s' => .error e s' := by
  change EStateM.bind (attempt (Interpreter.runScripts settings limit names)) _ s.renewed = _
  unfold EStateM.bind attempt
  cases Interpreter.runScripts settings limit names s.renewed with
  | ok flow s' => rfl
  | error e s' =>
    cases e with
    | script e =>
      let s₁ := { s' with status := s'.status.union e.cause.status }
      change (do
        reportFailure (s'.errorReport e)
        let s ← get
        pure (!s.failed && s.status = .ok) : Action Session Bool) s₁ = _
      rw [bind_of_ok (reportFailure_eq _ s₁ rfl)]
      rfl
    | _ => rfl

theorem Status.add_ne_ok (s : Status) (f : Flag) : s.add f ≠ .ok := by
  intro h
  have hb : s.bits ||| f.bit = 0 := congrArg Status.bits h
  have := (Nat.or_eq_zero_iff.mp hb).2
  cases f <;> contradiction

theorem Status.foldl_add_eq_ok {fs : List Flag} : fs.foldl Status.add .ok = .ok ↔ fs = [] := by
  induction fs using List.reverseRecOn with
  | nil => simp
  | append_singleton fs f _ => simp [Status.add_ne_ok]

/-- The last event or effect of a journal, and its only terminal event. -/
def Journal.EndsWith (es : Journal) (event : Entry) : Prop :=
  ∃ before, es.trace = before ++ [event] ∧ ∀ e ∈ before, e.isTerminal = false

inductive Verdict
  | succeeded
  | failed
  | passedOver
  deriving DecidableEq

/-- What each verdict says of a run with the given result: of the entries `es` that the run has
added to the journal, of how its scripts have ended, and of the session it leaves. Every failure is
either in the journal as ignored, or it is the one that has ended the run. -/
def Verdict.Holds (scripts : EStateM.Result Fault Session Flow) (es : Journal) (result : Bool)
    (s : Session) : Verdict → Prop
  | succeeded =>
    result = true ∧ es.EndsWith .success ∧ es.ignored = [] ∧ s.status = .ok ∧
      ∃ flow, scripts = .ok flow s
  | failed =>
    result = false ∧ ∃ d, es.EndsWith (.failure d) ∧ d.status = s.status ∧
      s.diagnostics = some d ∧
      ((scripts = .ok .exit s ∧ ∃ s₁ flag, fail flag d.message d.exitCode s₁ = .ok .exit s ∧
          s.status = (es.ignored.foldl Status.add .ok).add flag) ∨
        ∃ e s₁, scripts = .error (.script e) s₁ ∧
          s.status = (es.ignored.foldl Status.add .ok).union e.cause.status)
  | passedOver =>
    result = false ∧ (∀ e ∈ es, e.isTerminal = false) ∧ es.ignored ≠ [] ∧
      s.status = es.ignored.foldl Status.add .ok ∧ s.status ≠ .ok ∧ ∃ flow, scripts = .ok flow s

theorem Journal.EndsWith.mem {es : Journal} {event : Entry} (h : es.EndsWith event) :
    event ∈ es := by
  obtain ⟨before, ht, -⟩ := h
  have hm : event ∈ es.trace := by simp [ht]
  exact (List.mem_filter.mp hm).1

theorem Verdict.unique {scripts : EStateM.Result Fault Session Flow} {es : Journal} {result : Bool}
    {s : Session} {v v' : Verdict} (h : v.Holds scripts es result s)
    (h' : v'.Holds scripts es result s) : v' = v := by
  have noFailure {d : Diagnostics} (hd : es.EndsWith (.failure d))
      (hn : ∀ e ∈ es, e.isTerminal = false) : False :=
    Bool.noConfusion (hn _ hd.mem)
  cases v with
  | succeeded =>
    cases v' with
    | succeeded => rfl
    | failed => exact absurd (h.1.symm.trans h'.1) nofun
    | passedOver => exact absurd (h.1.symm.trans h'.1) nofun
  | failed =>
    obtain ⟨hr, d, hd, -⟩ := h
    cases v' with
    | succeeded => exact absurd (hr.symm.trans h'.1) nofun
    | failed => rfl
    | passedOver => exact (noFailure hd h'.2.1).elim
  | passedOver =>
    cases v' with
    | succeeded => exact absurd (h.1.symm.trans h'.1) nofun
    | failed =>
      obtain ⟨-, d, hd, -⟩ := h'
      exact (noFailure hd h.2.1).elim
    | passedOver => rfl

/-- What the host can rely on: a run that returns has exactly one verdict, and one that is left by a
fault has told of no end. -/
structure Concludes (settings : Settings) (limit : Nat) (names : List Text) (s : Session) :
    Prop where
  verdict : ∀ {result s'}, Interpreter.run settings limit names s = .ok result s' →
    ∃ es, s'.world.journal = s.world.journal ++ es ∧
      ∃! v : Verdict, v.Holds (Interpreter.runScripts settings limit names s.renewed) es result s'
  fault : ∀ {e s'}, Interpreter.run settings limit names s = .error e s' →
    (∃ es, s'.world.journal = s.world.journal ++ es ∧ ∀ e ∈ es, e.isTerminal = false) ∧
      ∀ error, e ≠ .script error

/-- The log line and the event that follow a calm time add no failure to those that were ignored. -/
theorem Calm.told {s s₁ : Session} (hc : Calm s s₁) (level : Level) (hl : level ≠ .warning)
    (t : Text) (event : Entry) (he : event.isTerminal = true) :
    ∃ es, (s₁.world.told level t event).journal = s.world.journal ++ es ∧ es.EndsWith event ∧
      s₁.status = es.ignored.foldl Status.add s.status := by
  obtain ⟨es, hj, hn, hs⟩ := hc.entries
  have hevent : event.isEvent = true ∧ event.ignored? = none := by
    cases event with
    | success | failure => exact ⟨rfl, rfl⟩
    | _ => exact absurd he nofun
  have hlog : (Entry.log level .interpreter t).ignored? = none := by
    cases level with
    | warning => exact absurd rfl hl
    | _ => rfl
  refine ⟨es ++ [.log level .interpreter t, event], ?_, ⟨es.trace, ?_, ?_⟩, ?_⟩
  · rw [World.told, hj, List.append_assoc]
  · have hquiet : (Entry.log level .interpreter t).isEvent = false ∧
        (Entry.log level .interpreter t).isEffect = false := ⟨rfl, rfl⟩
    simp [Journal.trace, hevent.1, hquiet]
  · exact fun e h => hn e (List.mem_filter.mp h).1
  · rw [hs]
    simp [Journal.ignored, hevent.2, hlog]

theorem Halts.failed {s s' : Session} (h : Halts s.renewed s') :
    ∃ es, s'.world.journal = s.world.journal ++ es ∧
      Verdict.failed.Holds (.ok .exit s') es (!s'.failed && s'.status = .ok) s' := by
  obtain ⟨s₁, flag, message, exitCode, hc, hi, rfl⟩ := h
  let d := s₁.report flag message exitCode
  obtain ⟨es, hj, hl, hs⟩ := hc.told .error nofun
    ("Script failed: ".toList ++ d.describe) (.failure d) rfl
  refine ⟨es, hj, rfl, d, hl, rfl, rfl, .inl ⟨rfl, s₁, flag, ?_, ?_⟩⟩
  · exact fail_of_strict hi flag message exitCode
  · exact congrArg (Status.add · flag) hs

theorem Calm.failed_of_error {s s₁ : Session} (hc : Calm s.renewed s₁) (e : ScriptError) :
    ∃ es, (s₁.endedBy (s₁.errorReport e)).world.journal = s.world.journal ++ es ∧
      Verdict.failed.Holds (.error (.script e) s₁) es false (s₁.endedBy (s₁.errorReport e)) := by
  let d := s₁.errorReport e
  obtain ⟨es, hj, hl, hs⟩ := hc.told .error nofun
    ("Script failed: ".toList ++ d.describe) (.failure d) rfl
  refine ⟨es, hj, rfl, d, hl, rfl, rfl, .inr ⟨e, s₁, rfl, ?_⟩⟩
  exact congrArg (Status.union · e.cause.status) hs

theorem Calm.succeeded {s s₁ : Session} (hc : Calm s.renewed s₁) (h : s₁.status = .ok)
    (flow : Flow) :
    ∃ es, s₁.succeeded.world.journal = s.world.journal ++ es ∧
      Verdict.succeeded.Holds (.ok flow s₁.succeeded) es true s₁.succeeded := by
  obtain ⟨es, hj, hl, hs⟩ := hc.told .info nofun
    "Run completed successfully".toList .success rfl
  refine ⟨es, hj, rfl, hl, ?_, h, flow, rfl⟩
  exact Status.foldl_add_eq_ok.mp (hs.symm.trans h)

theorem Calm.passedOver {s s₁ : Session} (hc : Calm s.renewed s₁) (h : s₁.status ≠ .ok)
    (flow : Flow) :
    ∃ es, s₁.world.journal = s.world.journal ++ es ∧
      Verdict.passedOver.Holds (.ok flow s₁) es false s₁ := by
  obtain ⟨es, hj, hn, hs⟩ := hc.entries
  refine ⟨es, hj, rfl, hn, ?_, hs, h, flow, rfl⟩
  intro hi
  exact h (hs.trans (Status.foldl_add_eq_ok.mpr hi))

theorem concludes_of_ok {settings : Settings} {limit : Nat} {names : List Text} {s s' : Session}
    {result : Bool} {v : Verdict} (hrun : Interpreter.run settings limit names s = .ok result s')
    (hv : ∃ es, s'.world.journal = s.world.journal ++ es ∧
      v.Holds (Interpreter.runScripts settings limit names s.renewed) es result s') :
    Concludes settings limit names s := by
  refine ⟨fun h => ?_, fun h => by simp [hrun] at h⟩
  cases hrun.symm.trans h
  obtain ⟨es, hj, hv⟩ := hv
  exact ⟨es, hj, v, hv, fun _ hv' => Verdict.unique hv hv'⟩

/-- Between runs the depth is zero. Started there, every run keeps to the protocol of terminal
events. -/
theorem run_concludes (settings : Settings) (limit : Nat) (names : List Text) {s : Session}
    (hs : s.depth = 0) : Concludes settings limit names s := by
  have ends := Interpreter.runScripts_outermost settings limit names (s := s.renewed) hs rfl
  have hrun := run_eq settings limit names s
  obtain ⟨flow, s₁, hc, hok, he⟩ | ⟨flow, s₁, hc, hne, he⟩ | ⟨s₁, hh, he⟩ | ⟨e, s₁, hc, he⟩ := ends
  · have hr : (!s₁.succeeded.failed && s₁.succeeded.status = .ok) = true := by
      simp [Session.succeeded, hc.failed, hok, Session.renewed]
    simp only [he, hr] at hrun
    exact concludes_of_ok hrun (he ▸ hc.succeeded hok flow)
  · simp only [he, hne, decide_false, Bool.and_false] at hrun
    exact concludes_of_ok hrun (he ▸ hc.passedOver hne flow)
  · simp only [he] at hrun
    exact concludes_of_ok hrun (he ▸ hh.failed)
  · cases e with
    | script e =>
      simp only [he] at hrun
      exact concludes_of_ok hrun (he ▸ hc.failed_of_error e)
    | _ =>
      obtain ⟨es, hj, hn, -⟩ := hc.entries
      simp only [he] at hrun
      refine ⟨fun h => by simp [hrun] at h, fun h => ?_⟩
      cases hrun.symm.trans h
      exact ⟨⟨es, hj, hn⟩, nofun⟩

/-- A script that passes over the failure of a script it runs, and is then ended by an error. -/
theorem run_concludes_ignoring :
    let settings : Settings :=
      { resources := .memory
          [("main".toList, Utf8.encode "$(IgnoreErrors) = yes\nRun missing\nPack".toList)]
        version := [1]
        directory := ['/'] }
    let s : Session := { world := {} }
    s.depth = 0 ∧ Concludes settings 3 ["main".toList] s := by
  intro settings s
  exact ⟨rfl, run_concludes settings 3 ["main".toList] rfl⟩

end Rollout
