import Mathlib.Order.Defs.Unbundled
import Mathlib.Tactic.Common
import Rollout.Interpreter.Session

namespace Rollout

variable {σ α β : Type}

theorem bind_of_ok {a : Action σ α} {f : α → Action σ β} {s s' : σ} {x : α}
    (h : a s = .ok x s') : (a >>= f) s = f x s' := by
  change EStateM.bind a f s = _
  rw [EStateM.bind, h]

theorem bind_of_error {a : Action σ α} {f : α → Action σ β} {s s' : σ} {e : Fault}
    (h : a s = .error e s') : (a >>= f) s = .error e s' := by
  change EStateM.bind a f s = _
  rw [EStateM.bind, h]

theorem bind_eq_ok {a : Action σ α} {f : α → Action σ β} {s s' : σ} {y : β} :
    (a >>= f) s = .ok y s' ↔ ∃ x s₁, a s = .ok x s₁ ∧ f x s₁ = .ok y s' := by
  cases h : a s with
  | ok x s₁ => simp [bind_of_ok h]
  | error e s₁ => simp [bind_of_error h]

theorem bind_eq_error {a : Action σ α} {f : α → Action σ β} {s s' : σ} {e : Fault} :
    (a >>= f) s = .error e s' ↔
      a s = .error e s' ∨ ∃ x s₁, a s = .ok x s₁ ∧ f x s₁ = .error e s' := by
  cases h : a s with
  | ok x s₁ => simp [bind_of_ok h]
  | error e s₁ => simp [bind_of_error h]

theorem bind_of_eq {a b : Action σ α} {s s' : σ} (h : a s = b s') (f : α → Action σ β) :
    (a >>= f) s = (b >>= f) s' := by
  change EStateM.bind a f s = EStateM.bind b f s'
  rw [EStateM.bind, EStateM.bind, h]

theorem bind_congr_of_ok {a : Action σ α} {f g : α → Action σ β} {s : σ}
    (h : ∀ x s', a s = .ok x s' → f x s' = g x s') : (a >>= f) s = (a >>= g) s := by
  cases ha : a s with
  | ok x s' => rw [bind_of_ok ha, bind_of_ok ha, h x s' ha]
  | error e s' => rw [bind_of_error ha, bind_of_error ha]

theorem tryCatch_of_ok {a : Action σ α} {f : Fault → Action σ α} {s s' : σ} {x : α}
    (h : a s = .ok x s') : tryCatch a f s = .ok x s' := by
  change EStateM.tryCatch a f s = _
  rw [EStateM.tryCatch, h]

theorem tryCatch_of_error {a : Action σ α} {f : Fault → Action σ α} {s s' : σ} {e : Fault}
    (h : a s = .error e s') : tryCatch a f s = f e s' := by
  change EStateM.tryCatch a f s = _
  rw [EStateM.tryCatch, h]
  rfl

theorem get_bind (f : σ → Action σ β) (s : σ) : (get >>= f) s = f s s := rfl

theorem attempt_eq_ok {a : Action σ α} {s s' : σ} {x : α} :
    attempt a s = .ok (.ok x) s' ↔ a s = .ok x s' := by
  unfold attempt
  cases a s <;> simp

theorem attempt_eq_error {a : Action σ α} {s s' : σ} {e : Fault} :
    attempt a s = .ok (.error e) s' ↔ a s = .error e s' := by
  unfold attempt
  cases a s <;> simp

theorem attempt_onWorld_of_ok {a : Action World α} {s : Session} {x : α} {w : World}
    (h : a s.world = .ok x w) :
    attempt (onWorld a) s = .ok (.ok x) { s with world := w } := by
  simp only [attempt, onWorld, h]

theorem attempt_onWorld_of_error {a : Action World α} {s : Session} {e : Fault} {w : World}
    (h : a s.world = .error e w) :
    attempt (onWorld a) s = .ok (.error e) { s with world := w } := by
  simp only [attempt, onWorld, h]

def finalState (a : Action σ α) (s : σ) : σ :=
  match a s with
  | .ok _ s' => s'
  | .error _ s' => s'

theorem finalState_of_ok {a : Action σ α} {s s' : σ} {x : α} (h : a s = .ok x s') :
    finalState a s = s' := by rw [finalState, h]

theorem finalState_of_error {a : Action σ α} {s s' : σ} {e : Fault} (h : a s = .error e s') :
    finalState a s = s' := by rw [finalState, h]

theorem finalState_of_eq {a b : Action σ α} {s t : σ} (h : a s = b t) :
    finalState a s = finalState b t := by rw [finalState, finalState, h]

/-- Started in `s`, the action leaves a state related to `s`. -/
def ObeysAt (R : σ → σ → Prop) (a : Action σ α) (s : σ) : Prop := R s (finalState a s)

def Obeys (R : σ → σ → Prop) (a : Action σ α) : Prop := ∀ s, ObeysAt R a s

section

variable {R : σ → σ → Prop}

theorem ObeysAt.of_ok {a : Action σ α} {s s' : σ} {x : α} (h : ObeysAt R a s)
    (ha : a s = .ok x s') : R s s' := finalState_of_ok ha ▸ h

theorem ObeysAt.of_error {a : Action σ α} {s s' : σ} {e : Fault} (h : ObeysAt R a s)
    (ha : a s = .error e s') : R s s' := finalState_of_error ha ▸ h

theorem Obeys.mono {R' : σ → σ → Prop} {a : Action σ α} (ha : Obeys R a)
    (h : ∀ s s', R s s' → R' s s') : Obeys R' a := fun s => h s _ (ha s)

theorem obeysAt_set {s s' : σ} (h : R s s') : ObeysAt R (set s' : Action σ Unit) s := h

theorem obeys_modify {f : σ → σ} (h : ∀ s, R s (f s)) : Obeys R (modify f : Action σ Unit) := h

theorem obeys_get_bind {f : σ → Action σ β} (hf : ∀ s, ObeysAt R (f s) s) :
    Obeys R (get >>= f) := hf

theorem Obeys.attempt {a : Action σ α} (ha : Obeys R a) : Obeys R (attempt a) := by
  intro s
  have h := ha s
  unfold ObeysAt finalState Rollout.attempt at *
  cases hs : a s <;> simpa only [hs] using h

variable [IsPreorder σ R]

theorem obeys_pure (x : α) : Obeys R (pure x : Action σ α) := fun s => refl s

theorem obeys_throw (e : Fault) : Obeys R (throw e : Action σ α) := fun s => refl s

theorem obeys_get : Obeys R (get : Action σ σ) := fun s => refl s

theorem ObeysAt.bind {a : Action σ α} {f : α → Action σ β} {s : σ} (ha : ObeysAt R a s)
    (hf : ∀ x s', a s = .ok x s' → ObeysAt R (f x) s') : ObeysAt R (a >>= f) s := by
  unfold ObeysAt finalState
  cases h : a s with
  | ok x s' =>
    rw [bind_of_ok h]
    exact IsTrans.trans _ _ _ (ha.of_ok h) (hf x s' h)
  | error e s' =>
    rw [bind_of_error h]
    exact ha.of_error h

theorem Obeys.bind {a : Action σ α} {f : α → Action σ β} (ha : Obeys R a)
    (hf : ∀ x, Obeys R (f x)) : Obeys R (a >>= f) :=
  fun s => (ha s).bind fun x s' _ => hf x s'

theorem Obeys.tryCatch {a : Action σ α} {f : Fault → Action σ α} (ha : Obeys R a)
    (hf : ∀ e, Obeys R (f e)) : Obeys R (tryCatch a f) := by
  intro s
  have hs := ha s
  change R s (finalState (EStateM.tryCatch a f) s)
  unfold finalState EStateM.tryCatch
  cases h : a s with
  | ok x s' => exact hs.of_ok h
  | error e s' => exact IsTrans.trans _ _ _ (hs.of_error h) (hf e s')

end

theorem untilExit_obeys {S : Session → Session → Prop} [IsPreorder Session S]
    {step : α → Action Session Flow} {items : List α} (h : ∀ a ∈ items, Obeys S (step a)) :
    Obeys S (untilExit step items) := by
  induction items with
  | nil => exact obeys_pure _
  | cons a rest ih =>
    refine (h a (by simp)).bind fun flow => ?_
    cases flow with
    | exit => exact obeys_pure _
    | next => exact ih fun b hb => h b (by simp [hb])

def Throws (P : Fault → Prop) (a : Action σ α) : Prop := ∀ s e s', a s = .error e s' → P e

section

variable {P : Fault → Prop}

theorem throws_pure (x : α) : Throws P (pure x : Action σ α) := nofun

theorem throws_throw {e : Fault} (h : P e) : Throws P (throw e : Action σ α) := by
  rintro s _ s' ⟨⟩
  exact h

theorem throws_get : Throws P (get : Action σ σ) := nofun

theorem Throws.bind {a : Action σ α} {f : α → Action σ β} (ha : Throws P a)
    (hf : ∀ x, Throws P (f x)) : Throws P (a >>= f) := by
  intro s e s' h
  cases has : a s with
  | ok x s₁ =>
    rw [bind_of_ok has] at h
    exact hf x s₁ e s' h
  | error e₁ s₁ =>
    rw [bind_of_error has] at h
    cases h
    exact ha s e s' has

end

end Rollout
