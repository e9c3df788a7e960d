import Rollout.Proofs.Executions
import Rollout.Proofs.Layout

namespace Rollout

open Text Script Interpreter Layout

/-- A line without its comment and the blanks around it. -/
structure IsClean (line : Text) : Prop where
  ne_nil : line ≠ []
  first : ∀ c ∈ line.head?, isBlank c = false
  last : ∀ c ∈ line.getLast?, isBlank c = false
  inline : '\n' ∉ line
  quoted : ∀ {before after : Text}, line = before ++ '#' :: after → Odd (before.count '"')
  stripped : stripComment line = line

variable {mark : Char} {quoted : Bool} {t line : Text} {settings : Settings}

theorem trimRight_last (t : Text) : ∀ c ∈ (trimRight t).getLast?, isBlank c = false := by
  intro c hc
  have h := List.head?_dropWhile_not isBlank t.reverse
  rw [trimRight, List.getLast?_reverse] at hc
  rw [hc] at h
  simpa using h

theorem cutUnquoted_before_cut {l r : Text} (h : cutUnquoted mark quoted t = some (l, r)) :
    cutUnquoted mark quoted l = none := by
  cases hl : cutUnquoted mark quoted l with
  | none => rfl
  | some parts =>
    obtain ⟨l', r'⟩ := parts
    have heq := cutUnquoted_eq_append hl
    have hwhole := cutUnquoted_of_cut h r
    have hshort := cutUnquoted_of_cut hl (r' ++ mark :: r)
    rw [heq, List.append_assoc, List.cons_append, hshort, ← heq, Option.some.injEq,
      Prod.mk.injEq] at hwhole
    have hlength := congrArg List.length heq
    rw [hwhole.1] at hlength
    simp at hlength

theorem odd_of_cutUnquoted_none {before after : Text}
    (h : cutUnquoted mark false (before ++ mark :: after) = none) (hmark : mark ≠ '"') :
    Odd (before.count '"') := by
  rw [← quotedAfter_iff_odd]
  rw [cutUnquoted_append_of_none (cutUnquoted_of_append h), Option.map_eq_none_iff] at h
  cases hquoted : quotedAfter false before with
  | true => rfl
  | false =>
    rw [hquoted, cutUnquoted, if_neg hmark] at h
    simp at h

theorem exists_of_mem_activeLines (h : line ∈ activeLines t) :
    '\n' ∉ line ∧ ∃ c rest, line = c :: trimRight rest ∧ isBlank c = false ∧ c ≠ '#' := by
  obtain ⟨hline, hactive⟩ := List.mem_filter.mp h
  obtain ⟨row, hrow, rfl⟩ := List.mem_map.mp hline
  refine ⟨fun hc => not_mem_of_mem_splitOn hrow ((trim_part row).subset hc), ?_⟩
  obtain hremark | ⟨indent, c, rest, rfl, hindent, hc, hcomment⟩ := remark_or_code row
  · rw [isSkipped_trim_of_remark hremark] at hactive
    cases hactive
  · exact ⟨c, rest, trim_of_indent hindent hc rest, hc, hcomment⟩

theorem IsClean.of_cons {c : Char} {rest : Text} (hc : isBlank c = false)
    (hinline : '\n' ∉ c :: trimRight rest)
    (hnone : cutUnquoted '#' false (c :: trimRight rest) = none) :
    IsClean (c :: trimRight rest) where
  ne_nil := List.cons_ne_nil _ _
  first := by simpa using hc
  last := by
    have h := trimRight_last (c :: rest)
    rwa [show trimRight (c :: rest) = c :: trimRight rest from trimRight_append_cons hc [] rest] at h
  inline := hinline
  quoted := fun heq => odd_of_cutUnquoted_none (heq ▸ hnone) (by decide)
  stripped := stripComment_of_none hnone

/-- A line that is executed is clean without its comment. -/
theorem isClean_stripComment (h : line ∈ activeLines t) : IsClean (stripComment line) := by
  obtain ⟨hinline, c, rest, rfl, hc, hcomment⟩ := exists_of_mem_activeLines h
  cases hcut : cutUnquoted '#' false (c :: trimRight rest) with
  | none =>
    rw [stripComment_of_none hcut]
    exact .of_cons hc hinline hcut
  | some parts =>
    obtain ⟨code, comment⟩ := parts
    have heq := cutUnquoted_eq_append hcut
    cases code with
    | nil => exact absurd (List.cons.inj heq).1 hcomment
    | cons d code =>
      obtain rfl : c = d := (List.cons.inj heq).1
      have htrim : trimRight (c :: code) = c :: trimRight code := trimRight_append_cons hc [] code
      have hpart := stripComment_part (c :: trimRight rest)
      rw [stripComment_of_cut hcut (List.cons_ne_nil c code), htrim] at hpart ⊢
      refine .of_cons hc (fun hn => hinline (hpart.subset hn)) ?_
      obtain ⟨blanks, hblanks⟩ := exists_trimRight_append (c :: code)
      have hcode := cutUnquoted_before_cut hcut
      rw [hblanks] at hcode
      exact htrim ▸ cutUnquoted_of_append hcode

theorem mem_activeLines_of_execution {limit : Nat} {names : List Text} {s : Session} {x : Execution}
    (h : x ∈ executions settings limit names s) : ∃ t, x.line ∈ activeLines t := by
  induction limit using Nat.strong_induction_on generalizing names s with
  | _ limit ih =>
  cases limit with
  | zero =>
    rw [executions] at h
    cases h
  | succ limit =>
    obtain ⟨a, s₁, hbegins, rfl | ⟨limit', names', s', hcalls, hx⟩⟩ := mem_executions_iff.mp h
    · cases hbegins with
      | @intro _ _ _ _ _ t _ _ _ _ _ _ _ _ lines _ => exact ⟨t, by simp [lines]⟩
    · exact ih limit' (Nat.lt_succ_of_le hcalls.within) hx

end Rollout
