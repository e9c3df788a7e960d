import Rollout.Proofs.Lockstep
import Rollout.Proofs.Utf8

namespace Rollout

open Text Script Interpreter

def Session.ignoring (s : Session) : Session :=
  { s with store := { s.store with ignoreErrors := true } }

/-- The text that scripts must not hold: the name of the variable. -/
def Mentions (t : Text) : Prop := Variable.ignoreErrors.name <:+: t

instance : DecidablePred Mentions := fun _ => inferInstanceAs (Decidable (_ <:+: _))

/-- A strict run without failures, and one that ignores errors. -/
structure Strict (s t : Session) : Prop where
  strict : s.store.ignoreErrors = false
  clean : s.status = .ok
  eq : t = { s.ignoring with depth := t.depth }

/-- A strict run that has just failed, and one that has gone on after the same failure. -/
structure Parted (s t : Session) : Prop where
  status : t.status ≠ .ok
  failure : ∃ (s₁ : Session) (flag : Flag) (message : Option Text) (exitCode : Option Int),
    s = s₁.endedBy (s₁.report flag message exitCode) ∧ ∃ es,
      t.world.journal = s₁.world.journal ++ es ∧ .success ∉ es

theorem Strict.eq_of_depth {s t : Session} (h : Strict s t) (hd : t.depth = s.depth) :
    t = s.ignoring := by
  rw [h.eq, hd]
  rfl

theorem Status.foldl_add_ne_ok {s : Status} (h : s ≠ .ok) (fs : List Flag) :
    fs.foldl Status.add s ≠ .ok := by
  induction fs generalizing s with
  | nil => exact h
  | cons f fs ih => exact ih (s.add_ne_ok f)

theorem success_not_mem {es : Journal} (h : ∀ e ∈ es, e.isTerminal = false) : .success ∉ es :=
  fun hmem => Bool.noConfusion (h _ hmem)

theorem Parted.grow {s t t' : Session} (h : Parted s t) (hs : t'.status ≠ .ok) {es : Journal}
    (hj : t'.world.journal = t.world.journal ++ es) (hes : .success ∉ es) : Parted s t' := by
  obtain ⟨s₁, flag, message, exitCode, rfl, es₁, hj₁, hes₁⟩ := h.failure
  refine ⟨hs, s₁, flag, message, exitCode, rfl, es₁ ++ es, ?_, by simp [hes₁, hes]⟩
  rw [hj, hj₁, List.append_assoc]

theorem Parted.calm {s t t' : Session} (h : Parted s t) (hc : Calm t t') : Parted s t' := by
  obtain ⟨es, hj, hes, hs⟩ := hc.entries
  refine h.grow ?_ hj (success_not_mem hes)
  rw [hs]
  exact Status.foldl_add_ne_ok h.status _

theorem Parted.halts {s t t' : Session} (h : Parted s t) (hh : Halts t t') : Parted s t' := by
  obtain ⟨t₁, flag, message, exitCode, hc, -, rfl⟩ := hh
  exact (h.calm hc).grow (t₁.status.add_ne_ok flag) rfl (by simp)

theorem Strict.fail {s t : Session} (h : Strict s t) (flag : Flag) (message : Option Text)
    (exitCode : Option Int) :
    ∃ s', Rollout.fail flag message exitCode s = .ok .exit s' ∧
      Parted s' (finalState (Rollout.fail flag message exitCode) t) := by
  have hignoring : t.store.ignoreErrors = true := by rw [h.eq]; rfl
  have hjournal : t.world.journal = s.world.journal := by rw [h.eq]; rfl
  refine ⟨_, fail_of_strict h.strict flag message exitCode, ?_⟩
  rw [finalState_of_ok (fail_of_ignoring hignoring flag message exitCode)]
  refine ⟨t.status.add_ne_ok flag, s, flag, message, exitCode, rfl, [t.warning flag], ?_, ?_⟩
  · rw [hjournal]
  · simp [Session.warning]

theorem safe_name {v : Variable} (h : ¬ Mentions v.name) : v ≠ .ignoreErrors := by
  rintro rfl
  exact h List.infix_rfl

def leniency : Coupling where
  inStep := Strict
  apart := Parted
  alike := Eq
  firstYields _ := False
  secondYields _ := False
  stores vs vs' := vs.ignoreErrors = false ∧ vs' = { vs with ignoreErrors := true }
  safe t := ¬ Mentions t
  alike_refl _ := rfl
  alike_located h cause := by rw [h.eq]; rfl
  inStep_world {s t} h := by
    have hworld : t.world = s.world := by rw [h.eq]; rfl
    refine ⟨s.world.journal, hworld, fun w es => ⟨h.strict, h.clean, ?_⟩⟩
    rw [h.eq]
    rfl
  inStep_place h script line := ⟨h.strict, h.clean, by rw [h.eq]; rfl⟩
  inStep_depth h n m := ⟨h.strict, h.clean, by rw [h.eq]; rfl⟩
  inStep_store h := ⟨h.strict, by rw [h.eq]; rfl⟩
  inStep_update h hvs := ⟨hvs.1, h.clean, by rw [h.eq, hvs.2]; rfl⟩
  inStep_fail h flag message exitCode := .inr (h.fail flag message exitCode)
  stores_eq hvs := by rw [hvs.2]
  stores_get {vs vs' v} hvs hv := by
    rw [hvs.2]
    cases v with
    | ignoreErrors => exact absurd rfl (safe_name hv)
    | _ => rfl
  stores_set {vs vs' vs₁ v t} hvs hv hset := by
    obtain ⟨hstrict, rfl⟩ := hvs
    refine ⟨{ vs₁ with ignoreErrors := true }, ?_⟩
    cases v with
    | ignoreErrors => exact absurd rfl (safe_name hv)
    | processTimeout =>
      unfold Variables.set at hset ⊢
      cases ht : toInt t with
      | error e => simp [ht] at hset
      | ok n =>
        simp only [ht, Except.ok.injEq] at hset
        subst hset
        exact ⟨rfl, hstrict, rfl⟩
    | _ =>
      cases hset
      exact ⟨rfl, hstrict, rfl⟩
  safe_part h hu hm := h (hm.trans hu)
  apart_depth h n m := by
    obtain ⟨hs, s₁, flag, message, exitCode, rfl, hes⟩ := h
    exact ⟨hs, { s₁ with depth := n }, flag, message, exitCode, rfl, hes⟩
  apart_calm h hc := h.calm hc
  apart_halts h hh := h.halts hh

def Session.trace (s : Session) : List Entry := s.world.journal.trace

def Unfailing (settings : Settings) (limit : Nat) (names : List Text) (s : Session) : Prop :=
  (finalState (runScripts settings limit names) s.renewed).status = .ok

variable {settings : Settings} {limit : Nat} {names : List Text}

theorem Session.status_concluded (s : Session) : s.concluded.status = s.status := by
  unfold concluded
  split <;> rfl

theorem Session.concluded_ignoring (s : Session) : s.ignoring.concluded = s.concluded.ignoring := by
  by_cases h : s.depth = 0 ∧ s.failed = false ∧ s.status = .ok
  · have hs : s.concluded = s.succeeded := if_pos h
    have hi : s.ignoring.concluded = s.ignoring.succeeded := if_pos h
    rw [hs, hi]
    rfl
  · have hs : s.concluded = s := if_neg h
    have hi : s.ignoring.concluded = s.ignoring := if_neg h
    rw [hs, hi]

theorem run_ignoring_eq {s : Session}
    (h : runScripts settings limit names s.ignoring.renewed =
      mapEnd Session.ignoring (runScripts settings limit names s.renewed)) :
    run settings limit names s.ignoring =
      mapEnd Session.ignoring (run settings limit names s) := by
  rw [run_eq, run_eq, h]
  cases runScripts settings limit names s.renewed with
  | ok flow s' => rfl
  | error e s' => cases e <;> rfl

theorem Status.union_ne_ok {s : Status} (h : s ≠ .ok) (s' : Status) : s.union s' ≠ .ok := by
  intro hu
  have hbits : s.bits ||| s'.bits = 0 := congrArg Status.bits hu
  exact h (congrArg Status.mk (Nat.or_eq_zero_iff.mp hbits).1)

/-- Once parted from a strict run, a run does not succeed. -/
theorem Parted.run {s t : Session}
    (h : Parted s (finalState (runScripts settings limit names) t.renewed)) :
    Parted s (finalState (run settings limit names) t) ∧
      ((∃ t', Interpreter.run settings limit names t = .ok false t') ∨
        ∃ e t', Interpreter.run settings limit names t = .error e t') := by
  have hrun := run_eq settings limit names t
  unfold finalState at h
  cases hscripts : runScripts settings limit names t.renewed with
  | ok flow t' =>
    simp only [hscripts] at h hrun
    have hfalse : (!t'.failed && decide (t'.status = .ok)) = false := by simp [h.status]
    rw [hfalse] at hrun
    rw [finalState_of_ok hrun]
    exact ⟨h, .inl ⟨t', hrun⟩⟩
  | error e t' =>
    simp only [hscripts] at h hrun
    by_cases hscript : ∃ error, e = .script error
    · obtain ⟨error, rfl⟩ := hscript
      rw [finalState_of_ok hrun]
      refine ⟨?_, .inl ⟨_, hrun⟩⟩
      exact h.grow (Status.union_ne_ok h.status _) rfl (by simp)
    · have hfault : Interpreter.run settings limit names t = .error e t' := by
        rw [hrun]
        cases e with
        | script error => exact absurd ⟨error, rfl⟩ hscript
        | _ => rfl
      rw [finalState_of_error hfault]
      exact ⟨h, .inr ⟨e, t', hfault⟩⟩

/-- The scripts of a strict run and of one that ignores errors end alike, without a failure, or they
have parted. -/
theorem scripts_alike_or_parted {s : Session} (hs : s.store.ignoreErrors = false)
    (hclean : s.status = .ok)
    (hread : ∀ name s₁ text w, LooksUp settings limit names s name s₁ →
      settings.resources.readText (unquote name) s₁.world = .ok text w → ¬ Mentions text) :
    ((finalState (runScripts settings limit names) s).status = .ok ∧
      runScripts settings limit names s.ignoring =
        mapEnd Session.ignoring (runScripts settings limit names s)) ∨
    ∃ s', runScripts settings limit names s = .ok .exit s' ∧
      Parted s' (finalState (runScripts settings limit names) s.ignoring) := by
  cases limit with
  | zero => exact .inl ⟨hclean, rfl⟩
  | succ limit =>
    have hstart : Strict s s.ignoring := ⟨hs, hclean, rfl⟩
    have h := leniency.coupled_scripts (.inl rfl) hread hstart
    rw [← endState_eq, ← endState_eq, runScripts_eq, runScripts_eq]
    generalize untilExit (runNamed settings (levels settings limit)) names s.deepened = r at h
    generalize untilExit (runNamed settings (levels settings limit)) names
      s.ignoring.deepened = r' at h
    cases h with
    | @ok flow s₁ t₁ step hs₁ ht₁ =>
      obtain rfl := step.eq_of_depth (ht₁.trans hs₁.symm)
      refine .inl ⟨(Session.status_concluded _).trans step.clean, ?_⟩
      exact congrArg (EStateM.Result.ok flow) s₁.raised.concluded_ignoring
    | error alike step hs₁ ht₁ =>
      obtain rfl := step.eq_of_depth (ht₁.trans hs₁.symm)
      cases alike
      exact .inl ⟨step.clean, rfl⟩
    | first yields => exact yields.elim
    | second yields => exact yields.elim
    | @parted flow s₁ _ exits apart hs₁ ht₁ =>
      cases exits
      have hparted : Parted s₁ (endState r') := apart
      have hended : s₁.raised.concluded = s₁.raised := by
        obtain ⟨s₂, flag, message, exitCode, rfl, -⟩ := hparted.failure
        exact if_neg fun h => absurd h.2.1 nofun
      refine .inr ⟨s₁.raised, ?_, ?_⟩
      · dsimp only [surfaced]
        rw [hended]
      · have hdepth := leniency.apart_depth apart (s₁.depth - 1) ((endState r').depth - 1)
        cases r' with
        | error e t => exact hdepth
        | ok flow t =>
          have hstill : t.raised.concluded = t.raised := if_neg fun h => apart.status h.2.2
          dsimp only [surfaced, endState]
          rw [hstill]
          exact hdepth

theorem runScripts_journal {s s₁ : Session} {d : Diagnostics}
    (h : runScripts settings limit names s.renewed = .ok .exit (s₁.endedBy d)) :
    ∃ es, s₁.world.journal = s.world.journal ++ es := by
  obtain ⟨flow, s₂, s', hc, hs', he⟩ | ⟨flow, s', ⟨s₂, flag, message, exitCode, hc, -, rfl⟩, he⟩ |
    ⟨e, s₂, hc, he⟩ := runScripts_ends settings limit names (s := s.renewed) rfl
  · cases he.symm.trans h
    have hfailed : s₂.failed = true := by
      obtain heq | heq := hs'
      · exact congrArg Session.failed heq.symm
      · exact congrArg Session.failed heq.symm
    exact absurd (hc.failed.symm.trans hfailed) nofun
  · obtain ⟨es, hj, -⟩ := hc.entries
    have heq := (EStateM.Result.ok.inj (he.symm.trans h)).2
    have hjournal := congrArg (fun t : Session => t.world.journal) heq
    exact ⟨es, (List.append_inj_left' hjournal rfl).symm.trans hj⟩
  · exact absurd (he.symm.trans h) nofun

theorem Parted.trace {s s' t : Session} (h : Parted s' t)
    (hscripts : runScripts settings limit names s.renewed = .ok .exit s') :
    ∃ p d q, s'.trace = s.trace ++ p ++ [.failure d] ∧ t.trace = s.trace ++ p ++ q ∧
      .success ∉ q := by
  obtain ⟨s₁, flag, message, exitCode, rfl, es, hj, hes⟩ := h.failure
  obtain ⟨es₁, hj₁⟩ := runScripts_journal hscripts
  refine ⟨Journal.trace es₁, s₁.report flag message exitCode, Journal.trace es, ?_, ?_, ?_⟩
  · rw [Session.trace, Session.endedBy, World.told, Journal.trace_append, hj₁, Journal.trace_append]
    rfl
  · rw [Session.trace, hj, Journal.trace_append, hj₁, Journal.trace_append]
    rfl
  · exact fun hmem => hes (List.mem_filter.mp hmem).1

/-- Ignoring errors changes nothing up to the first failure. Either no failure is recorded, and the
two runs are the same but for the variable itself. Or the strict run ends with the failure and the
other, which has done the same before, does not succeed. -/
theorem run_ignoring_errors (settings : Settings) (limit : Nat) (names : List Text) {s : Session}
    (hstrict : s.store.ignoreErrors = false)
    (hread : ∀ name s₁ text w, LooksUp settings limit names s.renewed name s₁ →
      settings.resources.readText (unquote name) s₁.world = .ok text w → ¬ Mentions text) :
    (Unfailing settings limit names s ∧ Unfailing settings limit names s.ignoring ∧
      run settings limit names s.ignoring =
        mapEnd Session.ignoring (run settings limit names s)) ∨
    (¬ Unfailing settings limit names s ∧ ¬ Unfailing settings limit names s.ignoring ∧
      ∃ p d q s', run settings limit names s = .ok false s' ∧
        s'.trace = s.trace ++ p ++ [.failure d] ∧
        (finalState (run settings limit names) s.ignoring).trace = s.trace ++ p ++ q ∧
        .success ∉ q ∧
        ((∃ t, run settings limit names s.ignoring = .ok false t) ∨
          ∃ e t, run settings limit names s.ignoring = .error e t)) := by
  obtain ⟨hclean, heq⟩ | ⟨s', hscripts, hparted⟩ :=
    scripts_alike_or_parted (s := s.renewed) hstrict rfl hread
  · refine .inl ⟨hclean, ?_, run_ignoring_eq heq⟩
    have hstate : finalState (runScripts settings limit names) s.renewed.ignoring =
        (finalState (runScripts settings limit names) s.renewed).ignoring := by
      rw [← endState_eq, ← endState_eq, heq]
      cases runScripts settings limit names s.renewed <;> rfl
    exact (congrArg Session.status hstate).trans hclean
  · obtain ⟨s₁, flag, message, exitCode, hs', -⟩ := hparted.failure
    have hstatus : s'.status ≠ .ok := hs' ▸ s₁.status.add_ne_ok flag
    obtain ⟨hparted', hends⟩ := hparted.run (t := s.ignoring)
    obtain ⟨p, d, q, hleft, hright, hq⟩ := hparted'.trace hscripts
    have hrun := run_eq settings limit names s
    simp only [hscripts, hstatus, decide_false, Bool.and_false] at hrun
    refine .inr ⟨?_, hparted.status, p, d, q, s', hrun, hleft, hright, hq, hends⟩
    rw [Unfailing, finalState_of_ok hscripts]
    exact hstatus

theorem mem_of_readText {items : List (Text × Bytes)} {name text : Text} {w w' : World}
    (h : (Resources.memory items).readText name w = .ok text w') :
    ∃ item ∈ items, Utf8.decode item.2 = .ok text := by
  obtain ⟨content, w₁, hread, hdecode⟩ := bind_eq_ok.mp h
  have hitem : (name, content) ∈ items := by
    cases hfound : items.lookup name with
    | none =>
      simp only [Resources.read, hfound] at hread
      cases hread
    | some found =>
      simp only [Resources.read, hfound] at hread
      cases hread
      obtain ⟨before, after, rfl, -⟩ := List.lookup_eq_some_iff.mp hfound
      simp
  refine ⟨_, hitem, ?_⟩
  cases ht : Utf8.decode content with
  | error e =>
    simp only [Resources.decode, ht] at hdecode
    cases hdecode
  | ok t =>
    simp only [Resources.decode, ht] at hdecode
    cases hdecode
    rfl

theorem relay_silent {name text : Text} {w w' : World}
    (h : relay.resources.readText name w = .ok text w') : ¬ Mentions text := by
  obtain ⟨item, hitem, htext⟩ := mem_of_readText h
  obtain rfl | rfl : item = ("main".toList, Utf8.encode "Run a missing".toList) ∨
      item = ("a".toList, Utf8.encode "Message hi".toList) := by simpa using hitem
  · cases (Utf8.decode_encode _).symm.trans htext
    decide
  · cases (Utf8.decode_encode _).symm.trans htext
    decide

/-- The script that runs another one and then one that is missing. -/
theorem run_ignoring_errors_relay :
    ¬ Unfailing relay 3 ["main".toList] { world := {} } ∧
      ∃ p d q s', run relay 3 ["main".toList] { world := {} } = .ok false s' ∧
        s'.trace = p ++ [.failure d] ∧
        (finalState (run relay 3 ["main".toList])
          (Session.ignoring { world := {} })).trace = p ++ q ∧ .success ∉ q := by
  have hfails : ¬ Unfailing relay 3 ["main".toList] { world := {} } := by
    unfold Unfailing
    decide +kernel
  obtain ⟨h, -⟩ | ⟨-, -, p, d, q, s', hrun, hleft, hright, hq, -⟩ :=
    run_ignoring_errors relay 3 ["main".toList] (s := { world := {} }) rfl
      fun _ _ _ _ _ => relay_silent
  · exact absurd h hfails
  · exact ⟨hfails, p, d, q, s', hrun, hleft, hright, hq⟩

end Rollout
