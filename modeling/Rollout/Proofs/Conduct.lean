import Rollout.Proofs.Levels
import Rollout.Proofs.Evolution

namespace Rollout

open Text Script

variable {α β : Type}

def Journal.ignored (es : Journal) : List Flag := es.filterMap Entry.ignored?

theorem Journal.ignored_append (es es' : Journal) :
    Journal.ignored (es ++ es') = Journal.ignored es ++ Journal.ignored es' :=
  List.filterMap_append

theorem Journal.ignored_eq_nil {es : Journal} (h : ∀ e ∈ es, e.IsNeutral) :
    Journal.ignored es = [] := List.filterMap_eq_nil_iff.mpr fun e he => (h e he).2

/-- Between two sessions nothing has ended the run, and the status has grown by the flags of the
ignored failures. -/
structure Calm (s s' : Session) : Prop where
  depth : s'.depth = s.depth
  failed : s'.failed = s.failed
  diagnostics : s'.diagnostics = s.diagnostics
  entries : ∃ es : Journal, s'.world.journal = s.world.journal ++ es ∧
    (∀ e ∈ es, e.isTerminal = false) ∧ s'.status = es.ignored.foldl Status.add s.status

instance : IsPreorder Session Calm where
  refl _ := ⟨rfl, rfl, rfl, [], by simp [Journal.ignored]⟩
  trans := by
    rintro r s t ⟨hd, hf, hg, es, hj, hn, hs⟩ ⟨hd', hf', hg', es', hj', hn', hs'⟩
    refine ⟨hd'.trans hd, hf'.trans hf, hg'.trans hg, es ++ es', ?_, ?_, ?_⟩
    · rw [hj', hj, List.append_assoc]
    · intro e he
      obtain h | h := List.mem_append.mp he
      · exact hn e h
      · exact hn' e h
    · rw [hs', hs, Journal.ignored_append, List.foldl_append]

theorem calm_of_evolves {s s' : Session} (hd : s'.depth = s.depth) (hf : s'.failed = s.failed)
    (hg : s'.diagnostics = s.diagnostics) (hs : s'.status = s.status)
    (hw : Evolves s.world s'.world) : Calm s s' := by
  obtain ⟨es, hj, hn⟩ := hw.journal
  refine ⟨hd, hf, hg, es, hj, fun e he => (hn e he).1, ?_⟩
  rw [Journal.ignored_eq_nil hn, hs]
  rfl

theorem onWorld_calm {a : Action World α} (h : Obeys Evolves a) : Obeys Calm (onWorld a) := by
  intro s
  have hw := h s.world
  unfold ObeysAt finalState at *
  cases ha : a s.world with
  | ok x w =>
    simp only [onWorld, ha] at hw ⊢
    exact calm_of_evolves rfl rfl rfl rfl hw
  | error e w =>
    simp only [onWorld, ha] at hw ⊢
    exact calm_of_evolves rfl rfl rfl rfl hw

theorem say_calm (level : Level) (h : level ≠ .warning) (t : Text) : Obeys Calm (say level t) := by
  refine onWorld_calm (record_evolves ⟨rfl, ?_⟩)
  cases level with
  | warning => exact absurd rfl h
  | _ => rfl

theorem emit_calm {e : Entry} (h : e.IsNeutral) : Obeys Calm (emit e) :=
  onWorld_calm (record_evolves h)

theorem located_calm (cause : Cause) : Obeys Calm (located cause) :=
  obeys_get.bind fun _ => obeys_pure _

theorem require_of_ne_nil {value : Text} (h : value ≠ []) (what : Text) (command : Command)
    (s : Session) : require value what command s = .ok () s := by
  rw [require, if_neg (by simpa using h)]
  rfl

theorem require_calm (value what : Text) (command : Command) :
    Obeys Calm (require value what command) := by
  unfold require
  split
  · exact (located_calm _).bind fun _ => obeys_throw _
  · exact obeys_pure _

theorem resolveMacros_calm (t : Text) : Obeys Calm (resolveMacros t) :=
  obeys_get.bind fun _ => onWorld_calm (resolve_evolves _ _)

def Session.report (s : Session) (flag : Flag) (message : Option Text) (exitCode : Option Int) :
    Diagnostics :=
  { script := s.script, line := s.line, status := s.status.add flag, message, exitCode }

def Session.warning (s : Session) (flag : Flag) : Entry :=
  .log .warning .interpreter
    ("Ignoring ".toList ++ (Status.ofFlag flag).describe ++ " on line '".toList ++
      orNone s.line ++ "' in ".toList ++ orNone s.script)

theorem ignored?_warning (s : Session) (flag : Flag) : (s.warning flag).ignored? = some flag := by
  cases flag <;> rfl

theorem fail_of_ignoring {s : Session} (h : s.store.ignoreErrors = true) (flag : Flag)
    (message : Option Text) (exitCode : Option Int) :
    fail flag message exitCode s =
      .ok .next
        { s with
          status := s.status.add flag
          world := { s.world with journal := s.world.journal ++ [s.warning flag] } } := by
  change (if s.store.ignoreErrors then _ else _ : Action Session Flow) _ = _
  rw [if_pos h]
  rfl

def World.told (w : World) (level : Level) (t : Text) (event : Entry) : World :=
  { w with journal := w.journal ++ [.log level .interpreter t, event] }

def Session.endedBy (s : Session) (d : Diagnostics) : Session :=
  { s with
    status := d.status
    failed := true
    diagnostics := some d
    world := s.world.told .error ("Script failed: ".toList ++ d.describe) (.failure d) }

theorem reportFailure_eq (d : Diagnostics) (s : Session) (h : s.status = d.status) :
    reportFailure d s = .ok () (s.endedBy d) := by
  change EStateM.Result.ok _ _ = _
  simp only [Session.endedBy, World.told, ← h, List.append_assoc]
  rfl

theorem fail_of_strict {s : Session} (h : s.store.ignoreErrors = false) (flag : Flag)
    (message : Option Text) (exitCode : Option Int) :
    fail flag message exitCode s = .ok .exit (s.endedBy (s.report flag message exitCode)) := by
  change (if s.store.ignoreErrors then _ else _ : Action Session Flow) _ = _
  rw [if_neg (by simp [h])]
  exact bind_of_ok (reportFailure_eq (s.report flag message exitCode) _ rfl)

theorem fail_calm_of_ignoring {s : Session} (h : s.store.ignoreErrors = true) (flag : Flag)
    (message : Option Text) (exitCode : Option Int) :
    ∃ s', fail flag message exitCode s = .ok .next s' ∧ Calm s s' := by
  refine ⟨_, fail_of_ignoring h flag message exitCode, rfl, rfl, rfl, [s.warning flag], rfl, ?_, ?_⟩
  · simp [Session.warning, Entry.isTerminal]
  · simp [Journal.ignored, ignored?_warning]

/-- A failure that is not ignored comes after a calm time, and nothing comes after it. -/
def Halts (s s' : Session) : Prop :=
  ∃ s₁ flag message exitCode, Calm s s₁ ∧ s₁.store.ignoreErrors = false ∧
    s' = s₁.endedBy (s₁.report flag message exitCode)

theorem Halts.of_calm {r s t : Session} (h : Calm r s) (ht : Halts s t) : Halts r t := by
  obtain ⟨s₁, flag, message, exitCode, hc, hi, rfl⟩ := ht
  exact ⟨s₁, flag, message, exitCode, IsTrans.trans _ _ _ h hc, hi, rfl⟩

theorem Halts.depth {s s' : Session} (h : Halts s s') : s'.depth = s.depth := by
  obtain ⟨s₁, flag, message, exitCode, hc, -, rfl⟩ := h
  exact hc.depth

/-- Started in `s`, the action is calm, or it halts the run and returns one of the values `P` that
ask for an exit. -/
def ConductsAt (P : α → Prop) (a : Action Session α) (s : Session) : Prop :=
  match a s with
  | .ok x s' => Calm s s' ∨ P x ∧ Halts s s'
  | .error _ s' => Calm s s'

def Conducts (P : α → Prop) (a : Action Session α) : Prop := ∀ s, 0 < s.depth → ConductsAt P a s

variable {P : α → Prop} {Q : β → Prop}

theorem ConductsAt.of_calm {a : Action Session α} {s : Session} (h : ObeysAt Calm a s) :
    ConductsAt P a s := by
  unfold ConductsAt
  cases ha : a s with
  | ok x s' => exact .inl (h.of_ok ha)
  | error e s' => exact h.of_error ha

theorem Conducts.of_calm {a : Action Session α} (h : Obeys Calm a) : Conducts P a :=
  fun s _ => .of_calm (h s)

/-- What follows a halt must pass the exit on and do nothing else. -/
theorem ConductsAt.bind {a : Action Session α} {f : α → Action Session β} {s : Session}
    (ha : ConductsAt P a s)
    (hf : ∀ x s', Calm s s' → ConductsAt Q (f x) s')
    (hP : ∀ x s', P x → s'.depth = s.depth → ∃ y, Q y ∧ f x s' = .ok y s') :
    ConductsAt Q (a >>= f) s := by
  unfold ConductsAt at ha
  unfold ConductsAt
  cases h : a s with
  | error e s' =>
    rw [h] at ha
    rw [bind_of_error h]
    exact ha
  | ok x s' =>
    rw [h] at ha
    rw [bind_of_ok h]
    obtain hc | ⟨hx, hh⟩ := ha
    · have hfx := hf x s' hc
      unfold ConductsAt at hfx
      cases h' : f x s' with
      | error e t =>
        rw [h'] at hfx
        exact IsTrans.trans _ _ _ hc hfx
      | ok y t =>
        rw [h'] at hfx
        exact hfx.imp (IsTrans.trans _ _ _ hc) fun ⟨hy, ht⟩ => ⟨hy, ht.of_calm hc⟩
    · obtain ⟨y, hy, he⟩ := hP x s' hx hh.depth
      rw [he]
      exact .inr ⟨hy, hh⟩

theorem Conducts.bind {a : Action Session α} {f : α → Action Session β} (ha : Conducts P a)
    (hf : ∀ x, Conducts Q (f x)) (hP : ∀ x, P x → ∃ y, Q y ∧ f x = pure y) :
    Conducts Q (a >>= f) := by
  intro s hs
  refine (ha s hs).bind (fun x s' hc => hf x s' (hc.depth ▸ hs)) fun x s' hx _ => ?_
  obtain ⟨y, hy, he⟩ := hP x hx
  exact ⟨y, hy, by rw [he]; rfl⟩

theorem Obeys.conducts {a : Action Session α} {f : α → Action Session β} (ha : Obeys Calm a)
    (hf : ∀ x, Conducts Q (f x)) : Conducts Q (a >>= f) :=
  Conducts.bind (P := fun _ => False) (.of_calm ha) hf nofun

def IsExit (flow : Flow) : Prop := flow = .exit

theorem fail_conducts (flag : Flag) (message : Option Text) (exitCode : Option Int) :
    Conducts IsExit (fail flag message exitCode) := by
  intro s _
  unfold ConductsAt
  cases h : s.store.ignoreErrors with
  | true =>
    obtain ⟨s', he, hc⟩ := fail_calm_of_ignoring h flag message exitCode
    rw [he]
    exact .inl hc
  | false =>
    rw [fail_of_strict h]
    exact .inr ⟨rfl, s, flag, message, exitCode, refl s, h, rfl⟩

theorem untilExit_conducts {step : α → Action Session Flow} (h : ∀ a, Conducts IsExit (step a))
    (items : List α) : Conducts IsExit (untilExit step items) := by
  induction items with
  | nil => exact .of_calm (obeys_pure _)
  | cons a rest ih =>
    refine (h a).bind (fun flow => ?_) ?_
    · cases flow with
      | next => exact ih
      | exit => exact .of_calm (obeys_pure _)
    · rintro _ rfl
      exact ⟨.exit, rfl, rfl⟩

/-- One level deeper the steps are within scripts; where the depth is counted makes no difference to
what they do. -/
theorem deeper_conducts {a : Action Session α} (h : Conducts P a) (s : Session) :
    ConductsAt P (deeper a) s := by
  have ha := h { s with depth := s.depth + 1 } (Nat.succ_pos _)
  unfold ConductsAt at ha
  unfold ConductsAt deeper
  cases hs : a { s with depth := s.depth + 1 } with
  | error e s' =>
    rw [hs] at ha
    exact ⟨by rw [ha.depth]; rfl, ha.failed, ha.diagnostics, ha.entries⟩
  | ok x s' =>
    rw [hs] at ha
    refine ha.imp (fun hc => ?_) fun ⟨hx, hh⟩ => ⟨hx, ?_⟩
    · exact ⟨by rw [hc.depth]; rfl, hc.failed, hc.diagnostics, hc.entries⟩
    · obtain ⟨s₁, flag, message, exitCode, hc, hi, rfl⟩ := hh
      refine ⟨{ s₁ with depth := s₁.depth - 1 }, flag, message, exitCode, ?_, hi, rfl⟩
      exact ⟨by rw [hc.depth]; rfl, hc.failed, hc.diagnostics, hc.entries⟩

end Rollout
