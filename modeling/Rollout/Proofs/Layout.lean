import Mathlib.Data.List.Forall2
import Mathlib.Logic.Relation
import Rollout.Interpreter
import Rollout.Proofs.PlainLine
import Rollout.Proofs.TokenBoundaries

namespace Rollout.Layout

open Text Script Interpreter

inductive IsRemark : Text → Prop
  | blank {row : Text} (blank : ∀ c ∈ row, isBlank c = true) : IsRemark row
  | comment {indent text : Text} (blank : ∀ c ∈ indent, isBlank c = true) :
      IsRemark (indent ++ '#' :: text)

/-- One blank more at an end of a line, or one more line that is not executed. The carriage return
before a line feed is a blank at the end of the line. -/
inductive Spaces : Text → Text → Prop
  | leading {c : Char} {t : Text} (blank : isBlank c = true) (inline : c ≠ '\n') : Spaces t (c :: t)
  | trailing {c : Char} {t : Text} (blank : isBlank c = true) (inline : c ≠ '\n') :
      Spaces t (t ++ [c])
  | above {row t : Text} (remark : IsRemark row) (inline : '\n' ∉ row) : Spaces t (row ++ '\n' :: t)
  | below {row t : Text} (remark : IsRemark row) (inline : '\n' ∉ row) : Spaces t (t ++ '\n' :: row)

/-- A comment after the code of a line in which all double quotes are closed. -/
inductive Comments : Text → Text → Prop
  | comment {row text : Text} (code : ¬ IsRemark row) (closed : Even (row.count '"'))
      (inline : '\n' ∉ row) (inline' : '\n' ∉ text) : Comments row (row ++ " # ".toList ++ text)

inductive InLines (R : Text → Text → Prop) : Text → Text → Prop
  | all {t t' : Text} (change : R t t') : InLines R t t'
  | last {t t' : Text} (before : Text) (change : InLines R t t') :
      InLines R (before ++ '\n' :: t) (before ++ '\n' :: t')
  | first {t t' : Text} (after : Text) (change : InLines R t t') :
      InLines R (t ++ '\n' :: after) (t' ++ '\n' :: after)

def Relaid : Text → Text → Prop := Relation.EqvGen (InLines Spaces)

/-- The texts differ in their layout, comments after code included. -/
def Annotated : Text → Text → Prop :=
  Relation.EqvGen (InLines fun t t' => Spaces t t' ∨ Comments t t')

theorem relaid_carriage (before after : Text) :
    Relaid (before ++ '\n' :: after) (before ++ '\r' :: '\n' :: after) := by
  have h : InLines Spaces (before ++ '\n' :: after) (before ++ ['\r'] ++ '\n' :: after) :=
    .first after (.all (.trailing (by decide) (by decide)))
  rw [List.append_assoc] at h
  exact .rel _ _ h

theorem trimRight_append_blank {c : Char} (h : isBlank c = true) (t : Text) :
    trimRight (t ++ [c]) = trimRight t := by simp [trimRight, h]

theorem trimRight_append_cons {c : Char} (h : isBlank c = false) (t u : Text) :
    trimRight (t ++ c :: u) = t ++ c :: trimRight u := by
  have hreverse : (t ++ c :: u).reverse = u.reverse ++ c :: t.reverse := by simp
  rw [trimRight, trimRight, hreverse, List.dropWhile_append]
  split
  · next hu =>
    rw [List.isEmpty_iff.mp hu]
    simp [h]
  · simp

theorem trim_cons_blank {c : Char} (h : isBlank c = true) (t : Text) : trim (c :: t) = trim t := by
  simp [trim, trimLeft, h]

theorem trim_append_blank {c : Char} (h : isBlank c = true) (t : Text) :
    trim (t ++ [c]) = trim t := by
  rw [trim, trim, trimLeft, List.dropWhile_append]
  split
  · next ht =>
    rw [trimLeft, List.isEmpty_iff.mp ht]
    simp [h]
  · exact trimRight_append_blank h _

theorem trim_append_of_blank {indent : Text} (h : ∀ c ∈ indent, isBlank c = true) (t : Text) :
    trim (indent ++ t) = trim t := by
  induction indent with
  | nil => rfl
  | cons c indent ih =>
    rw [List.forall_mem_cons] at h
    exact (trim_cons_blank h.1 _).trans (ih h.2)

/-- A line that is executed begins, after its indent, with something that is not a comment. -/
theorem remark_or_code (row : Text) :
    IsRemark row ∨ ∃ indent c rest, row = indent ++ c :: rest ∧
      (∀ b ∈ indent, isBlank b = true) ∧ isBlank c = false ∧ c ≠ '#' := by
  induction row with
  | nil => exact .inl (.blank nofun)
  | cons a row ih =>
    by_cases ha : isBlank a = true
    · have cons {indent : Text} (h : ∀ b ∈ indent, isBlank b = true) :
          ∀ b ∈ a :: indent, isBlank b = true := List.forall_mem_cons.mpr ⟨ha, h⟩
      obtain (h | @⟨indent, text, h⟩) | ⟨indent, c, rest, rfl, h, hc⟩ := ih
      · exact .inl (.blank (cons h))
      · exact .inl (.comment (cons h))
      · exact .inr ⟨a :: indent, c, rest, rfl, cons h, hc⟩
    · rw [Bool.not_eq_true] at ha
      by_cases hcomment : a = '#'
      · subst hcomment
        exact .inl (.comment (List.forall_mem_nil _))
      · exact .inr ⟨[], a, row, rfl, List.forall_mem_nil _, ha, hcomment⟩

theorem trim_of_indent {indent : Text} (h : ∀ b ∈ indent, isBlank b = true) {c : Char}
    (hc : isBlank c = false) (rest : Text) : trim (indent ++ c :: rest) = c :: trimRight rest := by
  rw [trim_append_of_blank h, trim, trimLeft, List.dropWhile_cons, hc]
  exact trimRight_append_cons hc [] rest

theorem isSkipped_trim_of_remark {row : Text} (h : IsRemark row) : isSkipped (trim row) = true := by
  cases h with
  | blank h =>
    have hrow : trim (row ++ []) = [] := trim_append_of_blank h []
    rw [List.append_nil] at hrow
    rw [hrow]
    rfl
  | comment h =>
    rw [trim_of_indent h (by decide)]
    rfl

theorem activeLines_append (t u : Text) :
    activeLines (t ++ '\n' :: u) = activeLines t ++ activeLines u := by
  simp only [activeLines, scriptLines, List.splitOn_append_cons_self, List.map_append,
    List.filter_append]

theorem scriptLines_of_row {row : Text} (h : '\n' ∉ row) : scriptLines row = [trim row] := by
  rw [scriptLines, List.splitOn_eq_singleton h]
  rfl

theorem activeLines_of_remark {row : Text} (h : IsRemark row) (hn : '\n' ∉ row) :
    activeLines row = [] := by
  rw [activeLines, scriptLines_of_row hn]
  simp [isSkipped_trim_of_remark h]

theorem exists_last_row (t : Text) :
    '\n' ∉ t ∨ ∃ before row, t = before ++ '\n' :: row ∧ '\n' ∉ row := by
  by_cases h : '\n' ∈ t
  · obtain ⟨row, before, ht, hrow⟩ := List.eq_append_cons_of_mem (List.mem_reverse.mpr h)
    refine .inr ⟨before.reverse, row.reverse, ?_, by simpa using hrow⟩
    rw [← List.reverse_reverse t, ht]
    simp
  · exact .inl h

theorem scriptLines_cons_blank {c : Char} (h : isBlank c = true) (hc : c ≠ '\n') (t : Text) :
    scriptLines (c :: t) = scriptLines t := by
  have hne : ¬ (c == '\n') = true := by simpa using hc
  rw [scriptLines, scriptLines, List.splitOn_cons_eq_if_modifyHead, if_neg hne]
  cases t.splitOn '\n' with
  | nil => rfl
  | cons row rows => exact congrArg (· :: rows.map trim) (trim_cons_blank h row)

theorem scriptLines_append_blank {c : Char} (h : isBlank c = true) (hc : c ≠ '\n') (t : Text) :
    scriptLines (t ++ [c]) = scriptLines t := by
  have row {row : Text} (hrow : '\n' ∉ row) : scriptLines (row ++ [c]) = scriptLines row := by
    have hrow' : '\n' ∉ row ++ [c] := by simp [hrow, Ne.symm hc]
    rw [scriptLines_of_row hrow', scriptLines_of_row hrow, trim_append_blank h]
  obtain hrow | ⟨before, last, rfl, hlast⟩ := exists_last_row t
  · exact row hrow
  · have hlines := row hlast
    rw [List.append_assoc, List.cons_append]
    rw [scriptLines, scriptLines] at hlines ⊢
    rw [List.splitOn_append_cons_self, List.splitOn_append_cons_self, List.map_append,
      List.map_append, hlines]

theorem Spaces.activeLines_eq {t t' : Text} (h : Spaces t t') : activeLines t' = activeLines t := by
  cases h with
  | leading blank inline => rw [activeLines, scriptLines_cons_blank blank inline, activeLines]
  | trailing blank inline => rw [activeLines, scriptLines_append_blank blank inline, activeLines]
  | above remark inline =>
    rw [activeLines_append, activeLines_of_remark remark inline, List.nil_append]
  | below remark inline =>
    rw [activeLines_append, activeLines_of_remark remark inline, List.append_nil]

theorem cutUnquoted_append_of_none {mark : Char} {quoted : Bool} {t : Text}
    (h : cutUnquoted mark quoted t = none) (u : Text) :
    cutUnquoted mark quoted (t ++ u) =
      (cutUnquoted mark (quotedAfter quoted t) u).map fun (l, r) => (t ++ l, r) := by
  fun_induction cutUnquoted mark quoted t with
  | case1 quoted => simp [quotedAfter]
  | case2 quoted rest ih =>
    rw [Option.map_eq_none_iff] at h
    rw [List.cons_append, cutUnquoted, if_pos rfl, ih h, quotedAfter, if_pos rfl, Option.map_map]
    rfl
  | case3 => cases h
  | case4 quoted c rest hquote hmark ih =>
    rw [Option.map_eq_none_iff] at h
    rw [List.cons_append, cutUnquoted, if_neg hquote, if_neg hmark, ih h, quotedAfter,
      if_neg hquote, Option.map_map]
    rfl

/-- A cut does not depend on what follows it. -/
theorem cutUnquoted_of_cut {mark : Char} {quoted : Bool} {t l r : Text}
    (h : cutUnquoted mark quoted t = some (l, r)) (r' : Text) :
    cutUnquoted mark quoted (l ++ mark :: r') = some (l, r') := by
  fun_induction cutUnquoted mark quoted t generalizing l with
  | case1 => cases h
  | case2 quoted rest ih =>
    obtain ⟨⟨l', r''⟩, h', he⟩ := Option.map_eq_some_iff.1 h
    cases he
    rw [List.cons_append, cutUnquoted, if_pos rfl, ih h']
    rfl
  | case3 quoted c rest hquote hmark =>
    cases h
    simp only [Bool.and_eq_true, decide_eq_true_eq] at hmark
    rw [List.nil_append, cutUnquoted, ← hmark.1, if_neg hquote, if_pos (by simpa using hmark.2)]
  | case4 quoted c rest hquote hmark ih =>
    obtain ⟨⟨l', r''⟩, h', he⟩ := Option.map_eq_some_iff.1 h
    cases he
    rw [List.cons_append, cutUnquoted, if_neg hquote, if_neg hmark, ih h']
    rfl

theorem stripComment_of_cut {line code rest : Text}
    (h : cutUnquoted '#' false line = some (code, rest)) (hne : code ≠ []) :
    stripComment line = trimRight code := by
  simp [stripComment, h, hne]

theorem exists_trimRight_append (t : Text) : ∃ blanks, t = trimRight t ++ blanks := by
  refine ⟨(t.reverse.takeWhile isBlank).reverse, ?_⟩
  rw [trimRight, ← List.reverse_append, List.takeWhile_append_dropWhile, List.reverse_reverse]

theorem cutUnquoted_of_append {mark : Char} {quoted : Bool} {t u : Text}
    (h : cutUnquoted mark quoted (t ++ u) = none) : cutUnquoted mark quoted t = none := by
  cases ht : cutUnquoted mark quoted t with
  | none => rfl
  | some parts =>
    obtain ⟨l, r⟩ := parts
    have hcut := cutUnquoted_of_cut ht (r ++ u)
    rw [cutUnquoted_eq_append ht, List.append_assoc, List.cons_append, hcut] at h
    cases h

/-- What stands after code with all its double quotes closed is no part of the code when it begins
with a comment. -/
theorem stripComment_comment {code : Text} (hne : ∀ r, code ≠ '#' :: r)
    (closed : quotedAfter false code = false) (text : Text) :
    stripComment (trimRight (code ++ " # ".toList ++ text)) = stripComment (trimRight code) := by
  have hcomment : trimRight (code ++ " # ".toList ++ text) =
      code ++ ' ' :: '#' :: trimRight (' ' :: text) := by
    have h := trimRight_append_cons (c := '#') rfl (code ++ [' ']) (' ' :: text)
    simpa using h
  rw [hcomment]
  cases hcut : cutUnquoted '#' false code with
  | some parts =>
    -- the code ends at a comment that has been there
    obtain ⟨l, r⟩ := parts
    have hl : l ≠ [] := by
      rintro rfl
      exact hne r (cutUnquoted_eq_append hcut)
    have htrim : trimRight code = l ++ '#' :: trimRight r := by
      rw [cutUnquoted_eq_append hcut, trimRight_append_cons rfl]
    have hlong : code ++ ' ' :: '#' :: trimRight (' ' :: text) =
        l ++ '#' :: (r ++ ' ' :: '#' :: trimRight (' ' :: text)) := by
      rw [cutUnquoted_eq_append hcut, List.append_assoc, List.cons_append]
    rw [htrim, hlong, stripComment_of_cut (cutUnquoted_of_cut hcut _) hl,
      stripComment_of_cut (cutUnquoted_of_cut hcut _) hl]
  | none =>
    have hlong : cutUnquoted '#' false (code ++ ' ' :: '#' :: trimRight (' ' :: text)) =
        some (code ++ [' '], trimRight (' ' :: text)) := by
      rw [cutUnquoted_append_of_none hcut, closed]
      rfl
    have hshort : cutUnquoted '#' false (trimRight code) = none := by
      obtain ⟨blanks, hcode⟩ := exists_trimRight_append code
      rw [hcode] at hcut
      exact cutUnquoted_of_append hcut
    rw [stripComment_of_cut hlong (by simp), trimRight_append_blank (by decide),
      stripComment_of_none hshort]

def SameCode (line line' : Text) : Prop := stripComment line' = stripComment line

theorem activeLines_of_code {indent rest : Text} {c : Char} (h : ∀ b ∈ indent, isBlank b = true)
    (hc : isBlank c = false) (hne : c ≠ '#') (hn : '\n' ∉ indent ++ c :: rest) :
    activeLines (indent ++ c :: rest) = [trimRight (c :: rest)] := by
  have htrim : trim (indent ++ c :: rest) = trimRight (c :: rest) := by
    rw [trim_of_indent h hc]
    exact (trimRight_append_cons hc [] rest).symm
  have hskipped : isSkipped (trim (indent ++ c :: rest)) = false := by
    rw [trim_of_indent h hc]
    simp [Script.isSkipped, hne]
  rw [activeLines, scriptLines_of_row hn, List.filter_cons_of_pos (by rw [hskipped]; rfl), htrim]
  rfl

theorem Comments.map_activeLines {t t' : Text} (h : Comments t t') :
    (activeLines t').map stripComment = (activeLines t).map stripComment := by
  cases h with
  | @comment text code closed inline inline' =>
    obtain hremark | ⟨indent, c, rest, rfl, hindent, hc, hne⟩ := remark_or_code t
    · exact absurd hremark code
    have hquotes : '"' ∉ indent := fun hmem => absurd (hindent _ hmem) (by decide)
    have hclosed : quotedAfter false (c :: rest) = false := by
      rw [List.count_append, List.count_eq_zero_of_not_mem hquotes, Nat.zero_add] at closed
      rw [← Bool.not_eq_true, quotedAfter_iff_odd, Nat.not_odd_iff_even]
      exact closed
    have hlong : indent ++ c :: rest ++ " # ".toList ++ text =
        indent ++ c :: (rest ++ " # ".toList ++ text) := by simp
    have hinline : '\n' ∉ indent ++ c :: rest ++ " # ".toList ++ text := by
      simp only [List.mem_append, not_or]
      exact ⟨⟨by simpa using inline, by decide⟩, inline'⟩
    rw [hlong] at hinline ⊢
    rw [activeLines_of_code hindent hc hne inline, activeLines_of_code hindent hc hne hinline]
    exact congrArg (fun line => [line]) (stripComment_comment (by simp [hne]) hclosed text)

theorem InLines.map_activeLines {R : Text → Text → Prop} {f : Text → Text}
    (h : ∀ t t', R t t' → (activeLines t').map f = (activeLines t).map f) {t t' : Text}
    (hlines : InLines R t t') : (activeLines t').map f = (activeLines t).map f := by
  induction hlines with
  | all change => exact h _ _ change
  | last before _ ih =>
    rw [activeLines_append, activeLines_append, List.map_append, List.map_append, ih]
  | first after _ ih =>
    rw [activeLines_append, activeLines_append, List.map_append, List.map_append, ih]

theorem map_activeLines_of_changes {R : Text → Text → Prop} {f : Text → Text}
    (h : ∀ t t', R t t' → (activeLines t').map f = (activeLines t).map f) {t t' : Text}
    (changes : Relation.EqvGen (InLines R) t t') :
    (activeLines t').map f = (activeLines t).map f := by
  induction changes with
  | rel t t' change => exact change.map_activeLines h
  | refl t => rfl
  | symm t t' _ ih => exact ih.symm
  | trans t t' t'' _ _ ih ih' => exact ih'.trans ih

theorem Relaid.activeLines_eq {t t' : Text} (h : Relaid t t') : activeLines t' = activeLines t := by
  have hlines := map_activeLines_of_changes (f := id)
    (fun t t' (h : Spaces t t') => congrArg (List.map id) h.activeLines_eq) h
  rwa [List.map_id, List.map_id] at hlines

theorem Annotated.sameCode {t t' : Text} (h : Annotated t t') :
    List.Forall₂ SameCode (activeLines t) (activeLines t') := by
  have hlines : (activeLines t').map stripComment = (activeLines t).map stripComment := by
    refine map_activeLines_of_changes (fun t t' change => ?_) h
    obtain hspaces | hcomments := change
    · rw [hspaces.activeLines_eq]
    · exact hcomments.map_activeLines
  rw [← List.forall₂_eq_eq_eq, List.forall₂_map_left_iff, List.forall₂_map_right_iff] at hlines
  exact hlines.flip

end Rollout.Layout
