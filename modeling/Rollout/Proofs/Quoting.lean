import Rollout.Proofs.SavedValues
import Rollout.Proofs.Separators
import Rollout.Proofs.WorkingDirectory

namespace Rollout

open Text Script

/-- The tokenizer has read a text, and is where it was when it began. -/
structure Closed (x : Text) : Prop where
  solid : Solid false false x
  unquoted : quotedAfter false x = false
  unescaped : escapedAfter false x = false

namespace Closed

variable {x : Text} (h : Closed x)

include h

theorem tokenize_eq : tokenize x = [x] := by
  have htokens := h.solid.tokensFrom_append []
  rw [List.append_nil, h.unquoted, h.unescaped, tokensFrom, prepend, List.append_nil] at htokens
  exact htokens

theorem tokenize_append (u : Text) : tokenize (x ++ ' ' :: u) = x :: tokenize u := by
  rw [tokenize, h.solid.tokensFrom_append, h.unquoted, h.unescaped, tokensFrom_cons,
    if_pos ⟨rfl, rfl, rfl⟩, prepend, List.append_nil]
  rfl

end Closed

theorem tokenize_unwords_of_closed {xs : List Text} (h : ∀ x ∈ xs, Closed x) (hne : xs ≠ []) :
    tokenize (unwords xs) = xs := by
  induction xs with
  | nil => exact absurd rfl hne
  | cons x xs ih =>
    have hx : Closed x := h x (List.mem_cons_self ..)
    cases xs with
    | nil =>
      rw [unwords, Text.join, List.intercalate_singleton, hx.tokenize_eq]
    | cons y ys =>
      have hrest := ih (fun z hz => h z (List.mem_cons_of_mem x hz)) (List.cons_ne_nil _ _)
      have hline : unwords (x :: y :: ys) = x ++ ' ' :: unwords (y :: ys) := by
        simp [unwords, Text.join, List.intercalate_cons_cons]
      rw [hline, hx.tokenize_append, hrest]

/-- What can be given to a program through a line. -/
structure IsArgument (t : Text) : Prop where
  ne_nil : t ≠ []
  noQuote : '"' ∉ t
  /-- A backslash at the end takes away the space after it, unless a double quote comes between. -/
  ending : ' ' ∉ t → t.getLast? ≠ some '\\'

namespace IsArgument

variable {t : Text} (h : IsArgument t)

include h

theorem quote_ne_nil : quote t ≠ [] := by
  unfold quote
  split_ifs
  · exact List.cons_ne_nil _ _
  · exact h.ne_nil

theorem unquote_quote_eq : unquote (quote t) = t := by
  rw [unquote_quote, unquote_of_not_mem h.noQuote]

theorem getLast?_quote : (quote t).getLast? ≠ some '\\' := by
  unfold quote
  split_ifs with hspace
  · rw [← List.cons_append, List.getLast?_concat]
    decide
  · exact h.ending (by simpa using hspace)

theorem closed_quote : Closed (quote t) := by
  have hinsertable := insertable_quote h.noQuote
  refine ⟨hinsertable.solid_unquoted false, hinsertable.quotedAfter_eq false, ?_⟩
  rw [← Bool.not_eq_true, escapedAfter_iff]
  rintro (hlast | ⟨-, hfalse⟩)
  · exact h.getLast?_quote hlast
  · cases hfalse

end IsArgument

/-- Arguments are found again in the line that they are put in. -/
theorem splitArguments_unwords_quote {ts : List Text} (h : ∀ t ∈ ts, IsArgument t) :
    splitArguments (unwords (ts.map quote)) = ts := by
  obtain rfl | hne := eq_or_ne ts []
  · rfl
  have htokens : tokenize (unwords (ts.map quote)) = ts.map quote :=
    tokenize_unwords_of_closed (List.forall_mem_map.mpr fun t ht => (h t ht).closed_quote)
      (by simpa using hne)
  have hall : (ts.map quote).filter (fun t => !t.isEmpty) = ts.map quote := by
    refine List.filter_eq_self.mpr (List.forall_mem_map.mpr fun t ht => ?_)
    simpa using (h t ht).quote_ne_nil
  rw [splitArguments, htokens, hall, List.map_map]
  exact (List.map_congr_left fun t ht => (h t ht).unquote_quote_eq).trans (List.map_id ts)

/-- A directory with a space and a backslash at its end, between two arguments without a space. -/
theorem splitArguments_unwords_quote_directory :
    let ts := ["/s".toList, "C:\\Program Files\\".toList, "a\\b".toList]
    (∀ t ∈ ts, IsArgument t) ∧ unwords (ts.map quote) = "/s \"C:\\Program Files\\\" a\\b".toList ∧
      splitArguments (unwords (ts.map quote)) = ts := by
  intro ts
  have h : ∀ t ∈ ts, IsArgument t := by
    have hall : ∀ t ∈ ts, t ≠ [] ∧ '"' ∉ t ∧ (' ' ∉ t → t.getLast? ≠ some '\\') := by decide
    exact fun t ht => ⟨(hall t ht).1, (hall t ht).2.1, (hall t ht).2.2⟩
  exact ⟨h, by decide, splitArguments_unwords_quote h⟩

end Rollout
