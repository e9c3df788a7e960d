import Rollout.Interpreter
import Rollout.Proofs.Action

namespace Rollout.Interpreter

open Text Script

variable {settings : Settings}

@[simp]
theorem length_levels (settings : Settings) (limit : Nat) :
    (levels settings limit).length = limit := by
  induction limit with
  | zero => rfl
  | succ limit ih => exact congrArg Nat.succ ih

theorem drop_levels (settings : Settings) (limit k : Nat) :
    (levels settings limit).drop k = levels settings (limit - k) := by
  induction k generalizing limit with
  | zero => rfl
  | succ k ih =>
    cases limit with
    | zero =>
      rw [Nat.zero_sub]
      rfl
    | succ limit =>
      rw [Nat.succ_sub_succ]
      exact ih limit

theorem forall_levels {P : (List Text → Action Session Flow) → Prop}
    (step : ∀ nested : Nested, (∀ run ∈ nested, P run) → P (runAll settings nested))
    (limit : Nat) : ∀ run ∈ levels settings limit, P run := by
  induction limit with
  | zero => exact fun run h => absurd h List.not_mem_nil
  | succ limit ih =>
    intro run h
    obtain rfl | h := List.mem_cons.mp h
    · exact step _ ih
    · exact ih run h

theorem mem_levels {limit : Nat} {run : List Text → Action Session Flow}
    (h : run ∈ levels settings limit) : ∃ l < limit, run = runScripts settings (l + 1) := by
  induction limit with
  | zero => exact absurd h List.not_mem_nil
  | succ limit ih =>
    obtain rfl | h := List.mem_cons.mp h
    · exact ⟨limit, Nat.lt_succ_self limit, rfl⟩
    · obtain ⟨l, hl, heq⟩ := ih h
      exact ⟨l, Nat.lt_succ_of_lt hl, heq⟩

theorem runNext_drop (settings : Settings) (limit k : Nat) (names : List Text) :
    runNext ((levels settings limit).drop k) names = runScripts settings (limit - k) names := by
  rw [drop_levels, runScripts]

/-- With `limit` levels left, the step ends as the scripts end to which it hands over, and `limit'`
levels are left to these. -/
structure Defers (limit : Nat) (step : Nested → Action Session Flow) (s : Session) (limit' : Nat)
    (names : List Text) (s' : Session) : Prop where
  within : limit' ≤ limit
  eq : ∀ nested, nested.length = limit →
    step nested s = runNext (nested.drop (limit - limit')) names s'

section

variable {limit limit' : Nat} {s s' : Session} {names : List Text}

theorem Defers.here (limit : Nat) (names : List Text) (s : Session) :
    Defers limit (fun nested => runNext nested names) s limit names s := by
  refine ⟨Nat.le_refl limit, fun nested _ => ?_⟩
  rw [Nat.sub_self, List.drop_zero]

theorem Defers.down {step : Nested → Action Session Flow}
    (h : Defers limit step s limit' names s') :
    Defers (limit + 1) (fun nested => descend nested fun _ below => step below) s limit' names
      s' := by
  refine ⟨Nat.le_succ_of_le h.within, fun nested hn => ?_⟩
  obtain ⟨run, below, rfl⟩ := List.exists_cons_of_length_eq_add_one hn
  rw [Nat.succ_sub h.within]
  exact h.eq below (Nat.succ.inj hn)

theorem Defers.bind {α : Type} {a : Action Session α} {f : α → Nested → Action Session Flow} {x : α}
    {s₁ : Session} (h : Defers limit (f x) s₁ limit' names s') (ha : a s = .ok x s₁) :
    Defers limit (fun nested => a >>= fun x => f x nested) s limit' names s' :=
  ⟨h.within, fun nested hn => (bind_of_ok ha).trans (h.eq nested hn)⟩

theorem Defers.of_eq {step step' : Nested → Action Session Flow} {s₁ : Session}
    (h : Defers limit step s₁ limit' names s') (heq : ∀ nested, step' nested s = step nested s₁) :
    Defers limit step' s limit' names s' :=
  ⟨h.within, fun nested hn => (heq nested).trans (h.eq nested hn)⟩

theorem Defers.eq_runScripts {step : Nested → Action Session Flow}
    (h : Defers limit step s limit' names s') (settings : Settings) :
    step (levels settings limit) s = runScripts settings limit' names s' := by
  rw [h.eq _ (length_levels settings limit), runNext_drop, Nat.sub_sub_self h.within]

end

end Rollout.Interpreter
