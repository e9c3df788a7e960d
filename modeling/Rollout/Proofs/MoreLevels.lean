import Rollout.Proofs.Levels

namespace Rollout

open Text Interpreter

variable {α β : Type} {settings : Settings}

def tooDeep : EStateM.Result Fault Session α → Bool
  | .error .nestedTooDeep _ => true
  | _ => false

theorem tooDeep_error {e : Fault} {s : Session}
    (h : tooDeep (.error e s : EStateM.Result Fault Session α)) (t : Session) :
    tooDeep (.error e t : EStateM.Result Fault Session β) := by
  cases e with
  | nestedTooDeep => rfl
  | _ => cases h

/-- The second action does what the first one does, unless that runs out of levels. -/
def Extends (a b : Action Session α) : Prop := ∀ s, tooDeep (a s) ∨ b s = a s

theorem Extends.refl (a : Action Session α) : Extends a a := fun _ => .inr rfl

theorem Extends.bind {a b : Action Session α} {f g : α → Action Session β} (h : Extends a b)
    (hf : ∀ x, Extends (f x) (g x)) : Extends (a >>= f) (b >>= g) := by
  intro s
  cases ha : a s with
  | ok x s' =>
    have hb : b s = .ok x s' := by
      obtain h | h := h s
      · rw [ha] at h
        cases h
      · rw [h, ha]
    rw [bind_of_ok ha, bind_of_ok hb]
    exact hf x s'
  | error e s' =>
    rw [bind_of_error ha]
    obtain h | h := h s
    · rw [ha] at h
      exact .inl (tooDeep_error h s')
    · exact .inr (bind_of_error (h.trans ha))

theorem extends_throw (b : Action Session α) : Extends (throw .nestedTooDeep) b :=
  fun _ => .inl rfl

theorem extends_deeper {a b : Action Session α} (h : Extends a b) :
    Extends (deeper a) (deeper b) := by
  intro s
  unfold deeper
  obtain h | h := h { s with depth := s.depth + 1 }
  · left
    cases ha : a { s with depth := s.depth + 1 } with
    | ok x t =>
      rw [ha] at h
      cases h
    | error e t =>
      rw [ha] at h
      exact tooDeep_error h _
  · rw [h]
    exact .inr rfl

theorem extends_untilExit {step step' : α → Action Session Flow}
    (h : ∀ a, Extends (step a) (step' a)) (items : List α) :
    Extends (untilExit step items) (untilExit step' items) := by
  induction items with
  | nil => exact .refl _
  | cons a items ih =>
    refine (h a).bind fun flow => ?_
    cases flow with
    | exit => exact .refl _
    | next => exact ih

inductive ExtendsAll : Nested → Nested → Prop
  | nil (nested : Nested) : ExtendsAll [] nested
  | cons {run run' : List Text → Action Session Flow} {below below' : Nested}
      (next : ∀ names, Extends (run names) (run' names)) (rest : ExtendsAll below below') :
      ExtendsAll (run :: below) (run' :: below')

variable {nested nested' : Nested}

theorem extends_descend {enter enter' : (List Text → Action Session Flow) → Nested →
      Action Session Flow} (h : ExtendsAll nested nested')
    (henter : ∀ run run' below below', (∀ names, Extends (run names) (run' names)) →
      ExtendsAll below below' → Extends (enter run below) (enter' run' below')) :
    Extends (descend nested enter) (descend nested' enter') := by
  cases h with
  | nil => exact extends_throw _
  | cons next rest => exact henter _ _ _ _ next rest

theorem execute_extends (settings : Settings) {nested nested' : Nested}
    (h : ExtendsAll nested nested') (tokens : List Text) :
    Extends (execute settings nested tokens) (execute settings nested' tokens) := by
  match tokens with
  | [] => exact .refl _
  | name :: arguments =>
    rw [execute, execute]
    split
    · exact .refl _
    · exact .refl _
    · refine (Extends.refl _).bind fun _ => ?_
      split
      · exact .refl _
      · exact extends_descend h fun _ _ _ _ hnext _ => hnext arguments
      · split
        · exact .refl _
        · next path rest =>
          refine (Extends.refl _).bind fun _ => (Extends.refl _).bind fun decision => ?_
          split
          · exact .refl _
          · split
            · exact .refl _
            · exact extends_descend h fun _ _ _ _ _ hrest => execute_extends settings hrest rest
termination_by tokens.length

theorem runNamed_extends (h : ExtendsAll nested nested') (name : Text) :
    Extends (runNamed settings nested name) (runNamed settings nested' name) := by
  have hline (script line : Text) :
      Extends (runLine settings nested script line) (runLine settings nested' script line) := by
    refine (Extends.refl _).bind fun _ => (Extends.refl _).bind fun _ => ?_
    unfold executeLine
    split
    · exact .refl _
    · exact (Extends.refl _).bind fun resolved => execute_extends settings h _
  unfold runNamed
  split
  · exact .refl _
  · refine (Extends.refl _).bind fun text => ?_
    split
    · exact .refl _
    · exact .refl _
    · exact extends_untilExit (hline _) _

theorem runAll_extends (h : ExtendsAll nested nested') (names : List Text) :
    Extends (runAll settings nested names) (runAll settings nested' names) :=
  (extends_deeper (extends_untilExit (runNamed_extends h) names)).bind fun _ => .refl _

theorem levels_extends (settings : Settings) {limit limit' : Nat} (h : limit ≤ limit') :
    ExtendsAll (levels settings limit) (levels settings limit') := by
  induction limit generalizing limit' with
  | zero => exact .nil _
  | succ limit ih =>
    obtain ⟨limit', rfl⟩ := Nat.exists_eq_succ_of_ne_zero (Nat.ne_zero_of_lt h)
    have hbelow := ih (Nat.le_of_succ_le_succ h)
    exact .cons (runAll_extends hbelow) hbelow

end Rollout
