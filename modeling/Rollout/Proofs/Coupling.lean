import Mathlib.Data.List.Forall2
import Mathlib.Data.List.Infix
import Rollout.Proofs.Blame
import Rollout.Proofs.Oblivious

namespace Rollout

open Text Script Interpreter

variable {α β : Type}

theorem Journal.trace_append (es es' : Journal) :
    Journal.trace (es ++ es') = Journal.trace es ++ Journal.trace es' := List.filter_append ..

/-- What the actions on the world have in common: they do not read the journal, and what they write
to it tells of no failure and of no end. -/
structure Discreet (a : Action World α) : Prop where
  oblivious : Oblivious a
  evolves : Obeys Evolves a

/-- How two runs are compared. -/
structure Coupling where
  /-- The two sessions have come to the same point. -/
  inStep : Session → Session → Prop
  /-- The first run has been ended by a failure that the second one has passed over. -/
  apart : Session → Session → Prop
  /-- The two faults are of one kind. -/
  alike : Fault → Fault → Prop
  /-- The faults by which the first run gives up. They say nothing of the second. -/
  firstYields : Fault → Prop
  /-- The faults by which the second run gives up. -/
  secondYields : Fault → Prop
  stores : Variables → Variables → Prop
  /-- A text of which both stores make the same. -/
  safe : Text → Prop
  alike_refl : ∀ e, alike e e
  alike_located : ∀ {s t : Session}, inStep s t → ∀ cause : Cause,
    alike (.script { cause, line := s.line, script := s.script })
      (.script { cause, line := t.line, script := t.script })
  inStep_world : ∀ {s t : Session}, inStep s t → ∃ j, t.world = { s.world with journal := j } ∧
    ∀ (w : World) (es : Journal),
      inStep { s with world := { w with journal := s.world.journal ++ es } }
      { t with world := { w with journal := j ++ es } }
  inStep_place : ∀ {s t : Session}, inStep s t → ∀ script line : Option Text,
    inStep { s with script, line } { t with script, line }
  inStep_depth : ∀ {s t : Session}, inStep s t → ∀ n m : Nat,
    inStep { s with depth := n } { t with depth := m }
  inStep_store : ∀ {s t : Session}, inStep s t → stores s.store t.store
  inStep_update : ∀ {s t : Session} {vs vs' : Variables}, inStep s t → stores vs vs' →
    inStep { s with store := vs } { t with store := vs' }
  inStep_fail : ∀ {s t : Session}, inStep s t →
    ∀ (flag : Flag) (message : Option Text) (exitCode : Option Int),
    (∃ flow s' t', fail flag message exitCode s = .ok flow s' ∧
      fail flag message exitCode t = .ok flow t' ∧ inStep s' t') ∨
    ∃ s', fail flag message exitCode s = .ok .exit s' ∧
      apart s' (finalState (fail flag message exitCode) t)
  stores_eq : ∀ {vs vs' : Variables}, stores vs vs' →
    vs' = { vs with ignoreErrors := vs'.ignoreErrors }
  stores_get : ∀ {vs vs' : Variables} {v : Variable}, stores vs vs' → safe v.name →
    vs'.get v = vs.get v
  stores_set : ∀ {vs vs' vs₁ : Variables} {v : Variable} {t : Text}, stores vs vs' →
    safe v.name → vs.set v t = .ok vs₁ →
    ∃ vs₁', vs'.set v t = .ok vs₁' ∧ stores vs₁ vs₁'
  safe_part : ∀ {t u : Text}, safe t → u <:+: t → safe u
  apart_depth : ∀ {s t : Session}, apart s t → ∀ n m : Nat,
    apart { s with depth := n } { t with depth := m }
  apart_calm : ∀ {s t t' : Session}, apart s t → Calm t t' → apart s t'
  apart_halts : ∀ {s t t' : Session}, apart s t → Halts t t' → apart s t'

structure Steady (inStep : Session → Session → Prop) (alike : Fault → Fault → Prop) : Prop where
  alike_refl : ∀ e, alike e e
  alike_located : ∀ {s t : Session}, inStep s t → ∀ cause : Cause,
    alike (.script { cause, line := s.line, script := s.script })
      (.script { cause, line := t.line, script := t.script })
  world : ∀ {s t : Session}, inStep s t → ∃ j, t.world = { s.world with journal := j } ∧
    ∀ (w : World) (es : Journal),
      inStep { s with world := { w with journal := s.world.journal ++ es } }
        { t with world := { w with journal := j ++ es } }
  place : ∀ {s t : Session}, inStep s t → ∀ script line : Option Text,
    inStep { s with script, line } { t with script, line }
  depth : ∀ {s t : Session}, inStep s t → ∀ n m : Nat,
    inStep { s with depth := n } { t with depth := m }
  store : ∀ {s t : Session}, inStep s t → t.store = s.store
  update : ∀ {s t : Session}, inStep s t → ∀ vs : Variables,
    inStep { s with store := vs } { t with store := vs }
  fail : ∀ {s t : Session}, inStep s t →
    ∀ (flag : Flag) (message : Option Text) (exitCode : Option Int),
      ∃ flow s' t', fail flag message exitCode s = .ok flow s' ∧
        fail flag message exitCode t = .ok flow t' ∧ inStep s' t'

def Steady.coupling {inStep : Session → Session → Prop} {alike : Fault → Fault → Prop}
    (h : Steady inStep alike) (firstYields secondYields : Fault → Prop) : Coupling where
  inStep := inStep
  apart _ _ := False
  alike := alike
  firstYields := firstYields
  secondYields := secondYields
  stores := Eq
  safe _ := True
  alike_refl := h.alike_refl
  alike_located := h.alike_located
  inStep_world := h.world
  inStep_place := h.place
  inStep_depth := h.depth
  inStep_store hst := (h.store hst).symm
  inStep_update {s t vs vs'} hst hvs := hvs ▸ h.update hst vs
  inStep_fail hst flag message exitCode := .inl (h.fail hst flag message exitCode)
  stores_eq hvs := by rw [hvs]
  stores_get hvs _ := by rw [hvs]
  stores_set hvs _ hset := ⟨_, hvs ▸ hset, rfl⟩
  safe_part _ _ := trivial
  apart_depth happart _ _ := happart
  apart_calm happart _ := happart
  apart_halts happart _ := happart

def endState {σ : Type} : EStateM.Result Fault σ α → σ
  | .ok _ s => s
  | .error _ s => s

theorem endState_eq {σ : Type} (a : Action σ α) (s : σ) : endState (a s) = finalState a s := by
  unfold endState finalState
  cases a s <;> rfl

namespace Coupling

/-- How the ends of two actions compare that have been started at the depths `d` and `d'`. When the
runs part, the first returns one of the values `P` that ask for an exit. -/
inductive Coupled (C : Coupling) (d d' : Nat) (P : α → Prop) :
    EStateM.Result Fault Session α → EStateM.Result Fault Session α → Prop
  | ok {x : α} {s t : Session} (step : C.inStep s t) (hs : s.depth = d) (ht : t.depth = d') :
      Coupled C d d' P (.ok x s) (.ok x t)
  | error {e e' : Fault} {s t : Session} (alike : C.alike e e') (step : C.inStep s t)
      (hs : s.depth = d) (ht : t.depth = d') : Coupled C d d' P (.error e s) (.error e' t)
  | parted {x : α} {s : Session} {r : EStateM.Result Fault Session α} (exits : P x)
      (apart : C.apart s (endState r)) (hs : s.depth = d) (ht : (endState r).depth = d') :
      Coupled C d d' P (.ok x s) r
  | first {e : Fault} {s : Session} {r : EStateM.Result Fault Session α} (yields : C.firstYields e) :
      Coupled C d d' P (.error e s) r
  | second {e : Fault} {t : Session} {r : EStateM.Result Fault Session α}
      (yields : C.secondYields e) : Coupled C d d' P r (.error e t)

def Couples (C : Coupling) (d d' : Nat) (P : α → Prop) (a a' : Action Session α) : Prop :=
  ∀ s t : Session, C.inStep s t → s.depth = d → t.depth = d' → C.Coupled d d' P (a s) (a' t)

def Never (_ : α) : Prop := False

variable {C : Coupling} {d d' : Nat} {P : α → Prop} {Q : β → Prop}

theorem Coupled.mono {r r' : EStateM.Result Fault Session α} (h : C.Coupled d d' Never r r') :
    C.Coupled d d' P r r' := by
  cases h with
  | ok step hs ht => exact .ok step hs ht
  | error alike step hs ht => exact .error alike step hs ht
  | parted exits _ _ _ => exact exits.elim
  | first yields => exact .first yields
  | second yields => exact .second yields

/-- After a parting the first run passes the exit on, and the second goes on as steps do. -/
theorem Coupled.bind {a a' : Action Session α} {f f' : α → Action Session β} {s t : Session}
    (ha : C.Coupled d d' P (a s) (a' t))
    (hf : ∀ x s₁ t₁, a s = .ok x s₁ → a' t = .ok x t₁ → C.inStep s₁ t₁ → s₁.depth = d →
      t₁.depth = d' → C.Coupled d d' Q (f x s₁) (f' x t₁))
    (hP : ∀ x, P x → (∃ y, Q y ∧ f x = pure y) ∧ 0 < d' ∧ ∀ x, Conducts Q (f' x)) :
    C.Coupled d d' Q ((a >>= f) s) ((a' >>= f') t) := by
  generalize hr : a s = r at ha
  generalize hr' : a' t = r' at ha
  cases ha with
  | @ok x s₁ t₁ step hs ht =>
    rw [bind_of_ok hr, bind_of_ok hr']
    exact hf x s₁ t₁ hr hr' step hs ht
  | error alike step hs ht =>
    rw [bind_of_error hr, bind_of_error hr']
    exact .error alike step hs ht
  | first yields =>
    rw [bind_of_error hr]
    exact .first yields
  | second yields =>
    rw [bind_of_error hr']
    exact .second yields
  | @parted x s₁ _ exits apart hs ht =>
    obtain ⟨⟨y, hy, hfx⟩, hd, hc⟩ := hP x exits
    rw [bind_of_ok hr, hfx]
    cases r' with
    | error e t₁ =>
      rw [bind_of_error hr']
      exact .parted hy apart hs ht
    | ok x' t₁ =>
      rw [bind_of_ok hr']
      have hgoes := hc x' t₁ (ht ▸ hd)
      rw [ConductsAt] at hgoes
      cases hend : f' x' t₁ with
      | error e t₂ =>
        rw [hend] at hgoes
        exact .parted hy (C.apart_calm apart hgoes) hs (hgoes.depth.trans ht)
      | ok y' t₂ =>
        rw [hend] at hgoes
        obtain hcalm | ⟨-, hhalts⟩ := hgoes
        · exact .parted hy (C.apart_calm apart hcalm) hs (hcalm.depth.trans ht)
        · exact .parted hy (C.apart_halts apart hhalts) hs (hhalts.depth.trans ht)

theorem Couples.bind {a a' : Action Session α} {f f' : α → Action Session β}
    (ha : C.Couples d d' P a a') (hf : ∀ x, C.Couples d d' Q (f x) (f' x))
    (hP : ∀ x, P x → (∃ y, Q y ∧ f x = pure y) ∧ 0 < d' ∧ ∀ x, Conducts Q (f' x)) :
    C.Couples d d' Q (a >>= f) (a' >>= f') :=
  fun _ _ hst hs ht => (ha _ _ hst hs ht).bind (fun x _ _ _ _ => hf x _ _) hP

theorem Couples.andThen {a a' : Action Session α} {f f' : α → Action Session β}
    (ha : C.Couples d d' Never a a') (hf : ∀ x, C.Couples d d' Q (f x) (f' x)) :
    C.Couples d d' Q (a >>= f) (a' >>= f') := ha.bind hf nofun

theorem couples_pure (x : α) : C.Couples d d' P (pure x) (pure x) :=
  fun _ _ hst hs ht => .ok hst hs ht

theorem couples_throw (e : Fault) : C.Couples d d' P (throw e) (throw e) :=
  fun _ _ hst hs ht => .error (C.alike_refl e) hst hs ht

theorem couples_read {f : Session → Action Session β}
    (hf : ∀ {s t : Session}, C.inStep s t → f t = f s)
    (h : ∀ s, C.Couples d d' Q (f s) (f s)) : C.Couples d d' Q (get >>= f) (get >>= f) := by
  intro s t hst hs ht
  rw [get_bind, get_bind, hf hst]
  exact h s s t hst hs ht

theorem couples_located (cause : Cause) :
    C.Couples d d' Q (located cause >>= throw) (located cause >>= throw) :=
  fun _ _ hst hs ht => .error (C.alike_located hst cause) hst hs ht

/-- On worlds that differ in the journal alone, an action gives the same and adds the same. -/
theorem onWorld_cases {a : Action World α} (ha : Discreet a) {s t : Session} (hst : C.inStep s t) :
    ∃ s' t', C.inStep s' t' ∧ s'.depth = s.depth ∧ t'.depth = t.depth ∧
      ((∃ x, onWorld a s = .ok x s' ∧ onWorld a t = .ok x t') ∨
        ∃ e, onWorld a s = .error e s' ∧ onWorld a t = .error e t') := by
  obtain ⟨j, hworld, hgrow⟩ := C.inStep_world hst
  -- both worlds are the same world, with an empty journal, put after a journal
  let w : World := { s.world with journal := [] }
  have hs : s.world = w.after s.world.journal := by simp [w, World.after]
  have ht : t.world = w.after j := by
    rw [hworld]
    simp [w, World.after]
  obtain ⟨es, hj, -⟩ := (ha.evolves w).journal
  have hes : (finalState a w).journal = es := by simpa [w] using hj
  refine ⟨{ s with world := (finalState a w).after s.world.journal },
    { t with world := (finalState a w).after j }, ?_, rfl, rfl, ?_⟩
  · have h := hgrow (finalState a w) es
    rw [← hes] at h
    exact h
  · have hsa : a s.world = mapEnd (World.after · s.world.journal) (a w) :=
      (congrArg a hs).trans (ha.oblivious w _)
    have hta : a t.world = mapEnd (World.after · j) (a w) :=
      (congrArg a ht).trans (ha.oblivious w _)
    rw [onWorld, onWorld, hsa, hta]
    cases hw : a w with
    | ok x w' =>
      rw [finalState_of_ok hw]
      exact .inl ⟨x, rfl, rfl⟩
    | error e w' =>
      rw [finalState_of_error hw]
      exact .inr ⟨e, rfl, rfl⟩

theorem couples_onWorld {a : Action World α} (ha : Discreet a) :
    C.Couples d d' P (onWorld a) (onWorld a) := by
  intro s t hst hs ht
  obtain ⟨s', t', hst', hs', ht', ⟨x, hx, hx'⟩ | ⟨e, he, he'⟩⟩ := C.onWorld_cases ha hst
  · rw [hx, hx']
    exact .ok hst' (hs'.trans hs) (ht'.trans ht)
  · rw [he, he']
    exact .error (C.alike_refl e) hst' (hs'.trans hs) (ht'.trans ht)

theorem couples_attempt {a : Action World α} (ha : Discreet a)
    {f f' : Except Fault α → Action Session β} (hf : ∀ r, C.Couples d d' Q (f r) (f' r)) :
    C.Couples d d' Q (attempt (onWorld a) >>= f) (attempt (onWorld a) >>= f') := by
  refine Couples.andThen (fun s t hst hs ht => ?_) hf
  obtain ⟨s', t', hst', hs', ht', ⟨x, hx, hx'⟩ | ⟨e, he, he'⟩⟩ := C.onWorld_cases ha hst
  · rw [attempt, attempt, hx, hx']
    exact .ok hst' (hs'.trans hs) (ht'.trans ht)
  · rw [attempt, attempt, he, he']
    exact .ok hst' (hs'.trans hs) (ht'.trans ht)

theorem couples_record {P : Unit → Prop} (e : Entry) (h : e.IsNeutral) :
    C.Couples d d' P (onWorld (record e)) (onWorld (record e)) :=
  couples_onWorld ⟨record_oblivious e, record_evolves h⟩

theorem couples_say {P : Unit → Prop} (level : Level) (h : level ≠ .warning) (t : Text) :
    C.Couples d d' P (say level t) (say level t) := by
  refine couples_record _ ⟨rfl, ?_⟩
  cases level with
  | warning => exact absurd rfl h
  | _ => rfl

theorem couples_said {P : Flow → Prop} (level : Level) (h : level ≠ .warning) (t : Text)
    (flow : Flow) :
    C.Couples d d' P (do say level t; pure flow) (do say level t; pure flow) :=
  (couples_say level h t).andThen fun _ => couples_pure _

theorem couples_require {P : Unit → Prop} (value what : Text) (command : Command) :
    C.Couples d d' P (require value what command) (require value what command) := by
  unfold require
  split
  · exact couples_located _
  · exact couples_pure _

theorem fail_depth (flag : Flag) (message : Option Text) (exitCode : Option Int) (s : Session) :
    (finalState (fail flag message exitCode) s).depth = s.depth := by
  cases h : s.store.ignoreErrors with
  | true => rw [finalState_of_ok (fail_of_ignoring h flag message exitCode)]
  | false =>
    rw [finalState_of_ok (fail_of_strict h flag message exitCode)]
    rfl

theorem couples_fail (flag : Flag) (message : Option Text) (exitCode : Option Int) :
    C.Couples d d' IsExit (fail flag message exitCode) (fail flag message exitCode) := by
  intro s t hst hs ht
  have hds := fail_depth flag message exitCode s
  have hdt := fail_depth flag message exitCode t
  obtain ⟨flow, s', t', hs', ht', hst'⟩ | ⟨s', hs', hapart⟩ :=
    C.inStep_fail hst flag message exitCode
  · rw [finalState_of_ok hs'] at hds
    rw [finalState_of_ok ht'] at hdt
    rw [hs', ht']
    exact .ok hst' (hds.trans hs) (hdt.trans ht)
  · rw [finalState_of_ok hs'] at hds
    rw [hs']
    rw [← endState_eq] at hapart hdt
    exact .parted rfl hapart (hds.trans hs) (hdt.trans ht)

theorem coupled_unlessExit {a a' b b' : Action Session Flow} {s t : Session} (hd : 0 < d')
    (ha : C.Coupled d d' IsExit (a s) (a' t))
    (hb : ∀ s₁ t₁, a s = .ok .next s₁ → C.inStep s₁ t₁ → s₁.depth = d → t₁.depth = d' →
      C.Coupled d d' IsExit (b s₁) (b' t₁)) (hc : Conducts IsExit b') :
    C.Coupled d d' IsExit (unlessExit a b s) (unlessExit a' b' t) := by
  refine ha.bind (fun flow s₁ t₁ has _ hst₁ hs₁ ht₁ => ?_) ?_
  · cases flow with
    | exit => exact .ok hst₁ hs₁ ht₁
    | next => exact hb s₁ t₁ has hst₁ hs₁ ht₁
  · rintro _ rfl
    refine ⟨⟨.exit, rfl, rfl⟩, hd, fun flow => ?_⟩
    cases flow with
    | exit => exact .of_calm (obeys_pure _)
    | next => exact hc

/-- Steps until one exits, over items that are related. What is known of a step may depend on those
before it. -/
theorem coupled_untilExit_of_related {R : α → β → Prop} {step : α → Action Session Flow}
    {step' : β → Action Session Flow} {items : List α} {items' : List β} {s t : Session}
    (hd : 0 < d') (hc : ∀ b, Conducts IsExit (step' b)) (hitems : List.Forall₂ R items items')
    (h : ∀ before a after b s₁ t₁, items = before ++ a :: after → R a b →
      untilExit step before s = .ok .next s₁ → C.inStep s₁ t₁ → s₁.depth = d → t₁.depth = d' →
      C.Coupled d d' IsExit (step a s₁) (step' b t₁))
    (hst : C.inStep s t) (hs : s.depth = d) (ht : t.depth = d') :
    C.Coupled d d' IsExit (untilExit step items s) (untilExit step' items' t) := by
  induction hitems generalizing s t with
  | nil => exact .ok hst hs ht
  | @cons a b items items' hab _ ih =>
    refine coupled_unlessExit hd (h [] a items b s t rfl hab rfl hst hs ht)
      (fun s₁ t₁ ha hst₁ hs₁ ht₁ => ?_) (untilExit_conducts hc items')
    refine ih (fun before a' after b' s₂ t₂ hitems hab' hbefore => ?_) hst₁ hs₁ ht₁
    exact h (a :: before) a' after b' s₂ t₂ (by rw [hitems]; rfl) hab'
      ((untilExit_cons_of_next ha before).trans hbefore)

theorem coupled_untilExit {step step' : α → Action Session Flow} {items : List α} {s t : Session}
    (hd : 0 < d') (hc : ∀ a, Conducts IsExit (step' a))
    (h : ∀ before a after s₁ t₁, items = before ++ a :: after →
      untilExit step before s = .ok .next s₁ → C.inStep s₁ t₁ → s₁.depth = d → t₁.depth = d' →
      C.Coupled d d' IsExit (step a s₁) (step' a t₁))
    (hst : C.inStep s t) (hs : s.depth = d) (ht : t.depth = d') :
    C.Coupled d d' IsExit (untilExit step items s) (untilExit step' items t) := by
  refine coupled_untilExit_of_related hd hc (List.forall₂_same.mpr fun _ _ => rfl) ?_ hst hs ht
  rintro before a after _ s₁ t₁ hitems rfl
  exact h before a after s₁ t₁ hitems

theorem couples_untilExit {step : α → Action Session Flow} (hd : 0 < d')
    (hc : ∀ a, Conducts IsExit (step a)) (h : ∀ a, C.Couples d d' IsExit (step a) (step a))
    (items : List α) : C.Couples d d' IsExit (untilExit step items) (untilExit step items) :=
  fun _ _ hst hs ht => C.coupled_untilExit hd hc
    (fun _ a _ s₁ t₁ _ _ => h a s₁ t₁) hst hs ht

theorem inStep_reads {s t : Session} (h : C.inStep s t) :
    t.store = { s.store with ignoreErrors := t.store.ignoreErrors } ∧
      ∃ j, t.world = { s.world with journal := j } := by
  obtain ⟨j, hworld, -⟩ := C.inStep_world h
  exact ⟨C.stores_eq (C.inStep_store h), j, hworld⟩

theorem couples_told (e : Entry) (h : e.IsNeutral) (t : Text) :
    C.Couples d d' IsExit (do say .info t; emit e; pure Flow.next)
      (do say .info t; emit e; pure Flow.next) :=
  (couples_say .info nofun t).andThen fun _ =>
    (couples_record e h).andThen fun _ => couples_pure _

theorem couples_pack (settings : Settings) (arguments : List Text) :
    C.Couples d d' IsExit (Builtin.pack settings arguments) (Builtin.pack settings arguments) := by
  refine (couples_require _ _ _).andThen fun _ => couples_read (fun {s t} hst => ?_) fun s => ?_
  · rw [(C.inStep_reads hst).1]
  refine (couples_require _ _ _).andThen fun _ => (couples_require _ _ _).andThen fun _ => ?_
  refine couples_attempt ⟨settings.resources.readText_oblivious _,
    settings.resources.readText_evolves _⟩ fun listing => ?_
  split
  · exact couples_fail _ _ _
  · exact couples_throw _
  · refine couples_attempt ⟨?_, ?_⟩ fun packed => ?_
    · exact (makeDirectories_oblivious _).bind fun _ =>
        oblivious_read_bind (fun _ _ => rfl) fun _ => Archiver.create_oblivious _ _ _
    · exact (makeDirectories_sameButTree _).evolves.bind fun _ =>
        obeys_get.bind fun _ => Archiver.create_evolves _ _ _
    · split
      · exact couples_fail _ _ _
      · exact couples_fail _ _ _
      · exact couples_throw _
      · exact couples_said .debug nofun _ _

theorem couples_unpack (settings : Settings) :
    C.Couples d d' IsExit (Builtin.unpack settings) (Builtin.unpack settings) := by
  refine couples_read (fun {s t} hst => ?_) fun s => ?_
  · rw [(C.inStep_reads hst).1]
  refine (couples_require _ _ _).andThen fun _ => (couples_require _ _ _).andThen fun _ => ?_
  refine couples_attempt ⟨settings.resources.read_oblivious _,
    settings.resources.read_evolves _⟩ fun data => ?_
  split
  · exact couples_fail _ _ _
  · exact couples_throw _
  · refine couples_attempt ⟨Archiver.extract_oblivious _ _ _,
      Archiver.extract_evolves _ _ _⟩ fun extracted => ?_
    split
    · exact couples_fail _ _ _
    · exact couples_fail _ _ _
    · exact couples_throw _
    · exact couples_pure _

theorem couples_deleteAs (flag : Flag) (path : Text) :
    C.Couples d d' IsExit (Builtin.deleteAs flag path) (Builtin.deleteAs flag path) := by
  refine couples_attempt ⟨removePath_oblivious path,
    (removePath_sameButTree path).evolves⟩ fun removed => ?_
  split
  · exact couples_fail _ _ _
  · exact couples_throw _
  · exact couples_pure _

theorem couples_deleteOne (settings : Settings) (argument : Text) :
    C.Couples d d' IsExit (Builtin.deleteOne settings argument)
      (Builtin.deleteOne settings argument) := by
  refine couples_read (fun {s t} hst => ?_) fun s => ?_
  · obtain ⟨-, j, hworld⟩ := C.inStep_reads hst
    rw [hworld]
    rfl
  split
  · exact couples_deleteAs _ _
  · split
    · exact couples_deleteAs _ _
    · exact couples_pure _

theorem couples_killOne (argument : Text) :
    C.Couples d d' IsExit (Builtin.killOne argument) (Builtin.killOne argument) := by
  refine couples_attempt ⟨killByPath_oblivious _, killByPath_evolves _⟩ fun killed => ?_
  split
  · exact couples_fail _ _ _
  · exact couples_throw _
  · exact couples_pure _
  · exact couples_said .debug nofun _ _

theorem couples_serviceStep {operation : Text → Action World Unit}
    (h : ∀ name, Discreet (operation name)) (argument : Text) :
    C.Couples d d' IsExit (Builtin.serviceStep operation argument)
      (Builtin.serviceStep operation argument) := by
  refine couples_attempt (h _) fun done => ?_
  split
  · exact couples_said .debug nofun _ _
  · exact couples_throw _
  · exact couples_pure _

theorem couples_passAssemblyVersion (settings : Settings) (arguments : List Text) :
    C.Couples d d' IsExit (Builtin.passAssemblyVersion settings arguments)
      (Builtin.passAssemblyVersion settings arguments) := by
  unfold Builtin.passAssemblyVersion
  split
  · refine couples_attempt ⟨Metadata.pass_oblivious _ _, Metadata.pass_evolves _ _⟩ fun passed => ?_
    split
    · exact couples_fail _ _ _
    · exact couples_fail _ _ _
    · exact couples_throw _
    · exact couples_said .debug nofun _ _
  · exact couples_located _

theorem couples_runProcess (settings : Settings) (path arguments : Text) :
    C.Couples d d' IsExit (Builtin.runProcess settings path arguments)
      (Builtin.runProcess settings path arguments) := by
  refine couples_read (fun {s t} hst => ?_) fun s => ?_
  · rw [(C.inStep_reads hst).1]
  refine couples_attempt ⟨launch_oblivious _ _ _ _ _, launch_evolves _ _ _ _ _⟩ fun outcome => ?_
  split
  · exact couples_fail _ _ _
  · exact couples_fail _ _ _
  · exact couples_throw _
  · split
    · exact couples_pure _
    · exact couples_fail _ _ _

theorem couples_decide (hd : 0 < d') (settings : Settings) (argument : Text)
    (condition : Builtin.Condition) :
    C.Couples d d' (· = some Flow.exit) (condition.decide settings argument)
      (condition.decide settings argument) := by
  cases condition with
  | fileThere =>
    refine couples_read (fun {s t} hst => ?_) fun s => couples_pure _
    obtain ⟨-, j, hworld⟩ := C.inStep_reads hst
    rw [hworld]
    rfl
  | fileMissing =>
    refine couples_read (fun {s t} hst => ?_) fun s => couples_pure _
    obtain ⟨-, j, hworld⟩ := C.inStep_reads hst
    rw [hworld]
    rfl
  | upgrade =>
    refine couples_read (fun {s t} hst => ?_) fun s => ?_
    · obtain ⟨-, j, hworld⟩ := C.inStep_reads hst
      rw [hworld]
      rfl
    split
    · refine Couples.andThen (couples_onWorld ⟨Builtin.installedVersion_oblivious _ _,
        Builtin.installedVersion_evolves _ _⟩) fun installed => ?_
      split
      · exact couples_pure _
      · refine (couples_fail _ _ _).bind (fun _ => couples_pure _) ?_
        rintro _ rfl
        exact ⟨⟨some .exit, rfl, rfl⟩, hd, fun _ => .of_calm (obeys_pure _)⟩
    · exact couples_pure _

theorem couples_plain (hd : 0 < d') {command : Command}
    {act : Settings → List Text → Action Session Flow} (h : handlerOf command = .plain act)
    (settings : Settings) (arguments : List Text) :
    C.Couples d d' IsExit (act settings arguments) (act settings arguments) := by
  cases command with
  | run | ifExists | ifNotExists | ifUpgradeTo => cases h
  | message =>
    cases h
    exact couples_told _ ⟨rfl, rfl⟩ _
  | notify =>
    cases h
    exact couples_told _ ⟨rfl, rfl⟩ _
  | pack =>
    cases h
    exact couples_pack settings arguments
  | unpack =>
    cases h
    exact couples_unpack settings
  | delete =>
    cases h
    exact couples_untilExit hd (Builtin.deleteOne_conducts settings) (couples_deleteOne settings) _
  | kill =>
    cases h
    exact couples_untilExit hd Builtin.killOne_conducts couples_killOne _
  | serviceStart =>
    cases h
    exact couples_untilExit hd (Builtin.serviceStep_conducts fun _ => Service.start_evolves _ _ _)
      (couples_serviceStep fun _ => ⟨Service.start_oblivious _ _ _, Service.start_evolves _ _ _⟩) _
  | serviceStop =>
    cases h
    exact couples_untilExit hd (Builtin.serviceStep_conducts fun _ => Service.stop_evolves _ _ _)
      (couples_serviceStep fun _ => ⟨Service.stop_oblivious _ _ _, Service.stop_evolves _ _ _⟩) _
  | passAssemblyVersion =>
    cases h
    exact couples_passAssemblyVersion settings arguments

end Coupling

end Rollout
