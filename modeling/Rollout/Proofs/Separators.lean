import Rollout.Proofs.TokenBoundaries

namespace Rollout

open Text Script

def gaps : List Text → List Nat
  | [] => []
  | [_] => []
  | t :: u :: rest => t.length :: (gaps (u :: rest)).map (t.length + 1 + ·)

section

variable {ts : List Text} (h : ts ≠ [])

include h

theorem unwords_nil_cons : unwords ([] :: ts) = ' ' :: unwords ts := by
  obtain ⟨t, rest, rfl⟩ := List.exists_cons_of_ne_nil h
  exact List.intercalate_cons_cons

theorem unwords_prepend (t : Text) : unwords (prepend t ts) = t ++ unwords ts := by
  obtain ⟨first, rest, rfl⟩ := List.exists_cons_of_ne_nil h
  cases rest with
  | nil => simp [prepend, unwords, Text.join]
  | cons next rest => simp [prepend, unwords, Text.join, List.intercalate_cons_cons]

theorem gaps_nil_cons : gaps ([] :: ts) = 0 :: (gaps ts).map Nat.succ := by
  obtain ⟨t, rest, rfl⟩ := List.exists_cons_of_ne_nil h
  rw [gaps, List.length_nil]
  exact congrArg _ (List.map_congr_left fun i _ => by omega)

theorem gaps_prepend (c : Char) : gaps (prepend [c] ts) = (gaps ts).map Nat.succ := by
  obtain ⟨first, rest, rfl⟩ := List.exists_cons_of_ne_nil h
  cases rest with
  | nil => rfl
  | cons next rest =>
    rw [prepend, gaps, gaps, List.map_cons, List.map_map]
    refine congrArg₂ _ (by simp) (List.map_congr_left fun i _ => ?_)
    simp only [List.length_append, List.length_singleton, Function.comp_apply]
    omega

end

/-- The space that ends a token, where a scan of the text begins with quotes open or closed and
after a backslash or not. -/
def EndsToken (quoted escaped : Bool) (t : Text) (i : Nat) : Prop :=
  t[i]? = some ' ' ∧ quotedAfter quoted (t.take i) = false ∧
    escapedAfter escaped (t.take i) = false

instance (quoted escaped : Bool) (t : Text) : DecidablePred (EndsToken quoted escaped t) :=
  fun _ => inferInstanceAs (Decidable (_ ∧ _))

theorem unwords_tokensFrom (quoted escaped : Bool) (t : Text) :
    unwords (tokensFrom quoted escaped t) = t := by
  induction t generalizing quoted escaped with
  | nil => rfl
  | cons c t ih =>
    rw [tokensFrom_cons]
    split
    · next hc => rw [unwords_nil_cons (tokensFrom_ne_nil _ _ _), ih, hc.1]
    · rw [unwords_prepend (tokensFrom_ne_nil _ _ _), ih]
      rfl

theorem unwords_tokenize (x : Text) : unwords (tokenize x) = x := unwords_tokensFrom _ _ _

theorem endsToken_cons_zero (quoted escaped : Bool) (c : Char) (t : Text) :
    EndsToken quoted escaped (c :: t) 0 ↔ c = ' ' ∧ quoted = false ∧ escaped = false := by
  simp [EndsToken, quotedAfter, escapedAfter]

theorem endsToken_cons_succ (quoted escaped : Bool) (c : Char) (t : Text) (i : Nat) :
    EndsToken quoted escaped (c :: t) (i + 1) ↔
      EndsToken (if c = '"' then !quoted else quoted) (c = '\\') t i := by
  rw [EndsToken, EndsToken, List.getElem?_cons_succ, List.take_succ_cons, quotedAfter, escapedAfter]

theorem gaps_tokensFrom (quoted escaped : Bool) (t : Text) :
    gaps (tokensFrom quoted escaped t) =
      (List.range t.length).filter (EndsToken quoted escaped t ·) := by
  induction t generalizing quoted escaped with
  | nil => rfl
  | cons c t ih =>
    have htail : ((List.range t.length).map Nat.succ).filter (EndsToken quoted escaped (c :: t) ·) =
        (gaps (tokensFrom (if c = '"' then !quoted else quoted) (c = '\\') t)).map Nat.succ := by
      rw [List.filter_map, ih]
      refine congrArg _ (List.filter_congr fun i _ => ?_)
      simp only [Function.comp_apply, decide_eq_decide]
      exact endsToken_cons_succ quoted escaped c t i
    rw [List.length_cons, List.range_succ_eq_map, List.filter_cons, htail, tokensFrom_cons]
    simp only [decide_eq_true_eq, endsToken_cons_zero]
    split
    · next hc =>
      obtain ⟨rfl, rfl, rfl⟩ := hc
      exact gaps_nil_cons (tokensFrom_ne_nil _ _ _)
    · exact gaps_prepend (tokensFrom_ne_nil _ _ _) c

/-- A token is the whole text, or the text goes on after a space and is cut there as if it began. -/
theorem tokensFrom_eq_cons {quoted escaped : Bool} {t token : Text} {more : List Text}
    (h : tokensFrom quoted escaped t = token :: more) :
    more = [] ∨ ∃ u, t = token ++ ' ' :: u ∧ more = tokenize u := by
  induction t generalizing quoted escaped token with
  | nil =>
    cases h
    exact .inl rfl
  | cons c t ih =>
    rw [tokensFrom_cons] at h
    split at h
    · next hc =>
      obtain ⟨rfl, rfl⟩ := List.cons.inj h
      obtain ⟨rfl, rfl, -⟩ := hc
      exact .inr ⟨t, rfl, rfl⟩
    · obtain ⟨first, rest, hfirst⟩ := List.exists_cons_of_ne_nil
        (tokensFrom_ne_nil (if c = '"' then !quoted else quoted) (c = '\\') t)
      rw [hfirst] at h
      obtain ⟨rfl, rfl⟩ := List.cons.inj h
      refine (ih hfirst).imp_right fun ⟨u, hu, hmore⟩ => ⟨u, ?_, hmore⟩
      rw [hu]
      rfl

theorem tokenize_unwords {x : Text} {before tokens : List Text} (h : tokenize x = before ++ tokens)
    (hne : tokens ≠ []) : tokenize (unwords tokens) = tokens := by
  induction before generalizing x with
  | nil => rw [← h.trans (List.nil_append _), unwords_tokenize]
  | cons token before ih =>
    obtain hnil | ⟨u, -, hu⟩ := tokensFrom_eq_cons h
    · exact absurd (List.append_eq_nil_iff.mp hnil).2 hne
    · exact ih hu.symm

/-- A space with an even number of double quotes before it, and not right after a backslash. -/
def IsSeparator (x : Text) (i : Nat) : Prop :=
  x[i]? = some ' ' ∧ Even ((x.take i).count '"') ∧ (i = 0 ∨ x[i - 1]? ≠ some '\\')

instance (x : Text) : DecidablePred (IsSeparator x) := fun _ => inferInstanceAs (Decidable (_ ∧ _))

theorem escapedAfter_take {x : Text} {i : Nat} (h : i < x.length) :
    escapedAfter false (x.take i) = false ↔ i = 0 ∨ x[i - 1]? ≠ some '\\' := by
  rw [← Bool.not_eq_true, escapedAfter_iff]
  cases i with
  | zero => simp
  | succ i => simp [List.getLast?_take, List.getElem?_eq_getElem (Nat.lt_of_succ_lt h)]

theorem endsToken_iff (x : Text) (i : Nat) : EndsToken false false x i ↔ IsSeparator x i := by
  refine and_congr_right fun hspace => and_congr ?_ ?_
  · rw [← Nat.not_odd_iff_even, ← quotedAfter_iff_odd, Bool.not_eq_true]
  · exact escapedAfter_take (List.getElem?_eq_some_iff.mp hspace).1

/-- Tokens lose nothing of a line, and the line is cut at its separators and nowhere else. -/
theorem tokenize_cuts_at_separators (x : Text) :
    tokenize x ≠ [] ∧ unwords (tokenize x) = x ∧
      gaps (tokenize x) = (List.range x.length).filter (IsSeparator x ·) := by
  refine ⟨tokenize_ne_nil x, unwords_tokenize x, (gaps_tokensFrom false false x).trans ?_⟩
  exact List.filter_congr fun i _ => by rw [decide_eq_decide, endsToken_iff]

/-- Quotes and backslashes within a line, an escaped space, and spaces at both ends. -/
example : gaps (tokenize " a\\ b \"c d\"  e ".toList) = [0, 5, 11, 12, 14] := by decide

end Rollout
