import Rollout.Proofs.Lockstep

namespace Rollout

open Text Script Interpreter

def Final (r : EStateM.Result Fault Session Flow) : Prop := ∀ s, r ≠ .ok .next s

/-- The second ends as the first, in the same world, except that the host may have been told of
success. -/
inductive EndsAs : EStateM.Result Fault Session Flow → EStateM.Result Fault Session Flow → Prop
  | exit {s t : Session}
      (world : t.world = s.world ∨
        t.world = s.world.told .info "Run completed successfully".toList .success) :
      EndsAs (.ok .exit s) (.ok .exit t)
  | error {e : Fault} {s t : Session} (world : t.world = s.world) : EndsAs (.error e s) (.error e t)

section

variable {settings : Settings} {limit limit' : Nat} {names names' : List Text} {s s' s₁ : Session}
  {a : Activation} {active : List Activation}

theorem untilExit_final {α : Type} {step : α → Action Session Flow} {before after : List α} {x : α}
    {s s₁ : Session} (hbefore : untilExit step before s = .ok .next s₁)
    (hfinal : Final (step x s₁)) : untilExit step (before ++ x :: after) s = step x s₁ := by
  rw [untilExit_append_of_next hbefore]
  change unlessExit (step x) (untilExit step after) s₁ = step x s₁
  cases h : step x s₁ with
  | error e s₂ => exact bind_of_error h
  | ok flow s₂ =>
    cases flow with
    | exit => exact bind_of_ok h
    | next => exact absurd h (hfinal s₂)

theorem Begins.final {r : EStateM.Result Fault Session Flow}
    (h : Begins settings limit names s a s₁)
    (hr : executeLine settings (levels settings limit) (stripComment a.line) s₁ = r)
    (hfinal : Final r) :
    untilExit (runNamed settings (levels settings limit)) names s = r := by
  cases h with
  | @intro before after linesBefore linesAfter name t line _ s₂ s₃ w passes notExit read lines
      passed =>
    have hline : runLine settings (levels settings limit) (unquote name) line s₃ = r := hr
    have hscript : runNamed settings (levels settings limit) name s₂ = r := by
      rw [runNamed_of_ne notExit, runScript_of_ok read, lines, untilExit_final passed, hline]
      rw [hline]
      exact hfinal
    rw [untilExit_final passes, hscript]
    rw [hscript]
    exact hfinal

theorem Begins.depth (h : Begins settings limit names s a s₁) (hd : 0 < s.depth) :
    s₁.depth = s.depth := by
  have hc := levels_conducts settings limit
  cases h with
  | @intro before _ _ _ name t line _ s₂ s₃ w passes _ read _ passed =>
    have hnames : Calm s s₂ :=
      (untilExit_conducts (runNamed_conducts hc) before).calm_of_next hd passes
    have hlines : Calm { s₂ with world := w } s₃ :=
      (untilExit_conducts (runLine_conducts hc _) _).calm_of_next (hnames.depth ▸ hd) passed
    exact hlines.depth.trans hnames.depth

theorem Final.mapEnd {r : EStateM.Result Fault Session Flow} (h : Final r)
    (f : Session → Session) : Final (Rollout.mapEnd f r) := by
  intro s hs
  cases r with
  | error e t => cases hs
  | ok flow t =>
    cases flow with
    | exit => cases hs
    | next => exact h t rfl

def Session.lifted (n : Nat) (s : Session) : Session := { s with depth := s.depth - n }

/-- Lines that have begun, and not ended, end as the scripts end that the innermost of them runs. -/
theorem Course.final {top : Nat} {r : EStateM.Result Fault Session Flow}
    (course : Course settings top names s active limit' names' s') (hlimit : limit' = limit + 1)
    (hr : untilExit (runNamed settings (levels settings limit)) names' s'.deepened = r)
    (hfinal : Final r) :
    ∃ k n, top = k + 1 ∧
      untilExit (runNamed settings (levels settings k)) names s.deepened =
        mapEnd (Session.lifted n) r := by
  induction course with
  | here =>
    refine ⟨limit, 0, hlimit, hr.trans ?_⟩
    cases r <;> rfl
  | @call l _ _ names names₁ _ s s₂ s₃ _ b _ outer calls rest ih =>
    obtain ⟨k, n, rfl, hend⟩ := ih hlimit hr
    have hd : 0 < s₃.depth := by
      rw [(Calls.calm (outer.depth (Nat.succ_pos _) ▸ Nat.succ_pos _) calls).depth,
        outer.depth (Nat.succ_pos _)]
      exact Nat.succ_pos _
    have hline : executeLine settings (levels settings l) (stripComment b.line) s₂ =
        mapEnd (Session.lifted (n + 1)) r := by
      rw [calls.eq_runScripts settings, runScripts_within hd, hend]
      cases r <;> rfl
    exact ⟨l, n + 1, rfl, outer.final hline (hfinal.mapEnd _)⟩

/-- A line that does not ask to go on ends all that has begun. -/
theorem Course.endsAs {top : Nat}
    (course : Course settings top names s active (limit + 1) names' s')
    (begins : Begins settings limit names' s'.deepened a s₁)
    (hfinal : Final (executeLine settings (levels settings limit) (stripComment a.line) s₁)) :
    EndsAs (executeLine settings (levels settings limit) (stripComment a.line) s₁)
      (runScripts settings top names s) := by
  obtain ⟨k, n, rfl, hend⟩ := course.final rfl (begins.final rfl hfinal) hfinal
  rw [runScripts_eq, hend]
  cases h : executeLine settings (levels settings limit) (stripComment a.line) s₁ with
  | error e t => exact .error rfl
  | ok flow t =>
    rw [h] at hfinal
    cases flow with
    | next => exact absurd rfl (hfinal t)
    | exit =>
      refine .exit ?_
      unfold Session.concluded
      split
      · exact .inr rfl
      · exact .inl rfl

end

end Rollout
