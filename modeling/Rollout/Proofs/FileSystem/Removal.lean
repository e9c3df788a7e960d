import Mathlib.Tactic.Tauto
import Rollout.Proofs.FileSystem.Access
import Rollout.Proofs.FileSystem.Place

namespace Rollout

open Text Location

namespace Tree

variable {t t' : Tree} {l : Location} {current path : Text}

/-- Clearing takes away exactly what lies below the location. -/
theorem get?_clear (t : Tree) (l l' : Location) :
    (t.clear l).get? l' = if l <+: l' ∧ l' ≠ l then none else t.get? l' := by
  by_cases hroot : l' = []
  · subst hroot
    rw [if_neg fun ⟨hl, hne⟩ => hne (List.prefix_nil.mp hl).symm]
    rfl
  have hlookup (es : List (Location × Node)) :
      (es.filter fun e => e.1 = l || !l.isPrefixOf e.1).lookup l' =
        if l <+: l' ∧ l' ≠ l then none else es.lookup l' := by
    induction es with
    | nil => simp
    | cons e es ih =>
      obtain ⟨k, n⟩ := e
      by_cases hk : l' = k
      · subst hk
        by_cases hkept : l <+: l' ∧ l' ≠ l
        · rw [List.filter_cons_of_neg (by simpa [and_comm] using hkept), ih, if_pos hkept,
            if_pos hkept]
        · have hstays : (decide (l' = l) || !l.isPrefixOf l') = true := by
            simp only [Bool.or_eq_true, decide_eq_true_eq, Bool.not_eq_true', ← Bool.not_eq_true,
              List.isPrefixOf_iff_prefix]
            tauto
          rw [List.filter_cons, if_pos hstays, List.lookup_cons_self, if_neg hkept,
            List.lookup_cons_self]
      · have hne : (l' == k) = false := by simpa using hk
        rw [List.filter_cons]
        split
        · simp only [List.lookup_cons, hne, ih]
        · simp only [List.lookup_cons, hne, ih]
  rw [get?, get?, if_neg hroot, if_neg hroot]
  exact hlookup t.entries

theorem remove_clear (t : Tree) (l : Location) : (t.clear l).remove l = t.remove l := by
  simp only [remove, clear, List.filter_filter]
  congr 1
  refine List.filter_congr fun e _ => ?_
  cases l.isPrefixOf e.1 <;> simp

theorem walk_within_eq_ok {names : List Text} {m : Location} :
    t.walk l (names ++ [[]]) = .ok m ↔ t.walk l names = .ok m ∧ t.get? m = some .directory := by
  rw [walk_append_eq_ok]
  constructor
  · rintro ⟨k, hk, hm⟩
    obtain ⟨hd, -, hend⟩ := walk_cons_eq_ok.mp hm
    obtain rfl : k = m := by simpa [walk, enter, isStay] using hend
    exact ⟨hk, hd⟩
  · rintro ⟨hm, hd⟩
    exact ⟨m, hm, walk_cons_eq_ok.mpr ⟨hd, by simp [isStay], by simp [walk, enter, isStay]⟩⟩

theorem removeDirectory_eq_ok (h : t.removeDirectory current path = .ok t') :
    t' = t.remove (spot current path) := by
  unfold removeDirectory at h
  dsimp only at h
  split at h
  · cases h
  · next name hlast =>
    split at h
    · cases h
    · next l hwalk =>
      split_ifs at h with hdot hup
      cases h
      obtain ⟨above, hnames⟩ := List.getLast?_eq_some_iff.mp hlast
      have hl := eq_follow_of_walk (walk_within_eq_ok.mp hwalk).1
      have hstay : isStay name = false := by
        simpa [isStay, ne_nil_of_dropEmptyEnd hlast] using hdot
      rw [spot, ← follow_dropEmptyEnd, hnames, follow_append, follow_cons, follow_nil, hl, hnames,
        List.dropLast_concat, enter, if_neg (by simp [hstay]), if_neg hup]

/-- A path leads down by names of its own: it never goes up, and it does not end where it is. -/
structure Descends (current path : Text) : Prop where
  down : Path.dotDot ∉ namesOf current path
  named : (dropEmptyEnd (namesOf current path)).getLast? ≠ some Path.dot
  below : spot current path ≠ []

/-- What is cleared is found once more, unless the path goes up or ends where it is. -/
theorem Descends.removeDirectory (h : Descends current path)
    (hwalk : t.walk [] (namesOf current path) = .ok (spot current path)) :
    (t.clear (spot current path)).removeDirectory current path =
      .ok (t.remove (spot current path)) := by
  have hmem : ∀ n ∈ dropEmptyEnd (namesOf current path), n ≠ Path.dotDot := by
    rintro n hn rfl
    refine h.down (List.mem_reverse.mp ?_)
    exact (List.dropWhile_suffix _).subset (List.mem_reverse.mp hn)
  replace hwalk := walk_filter_of_ok hwalk
  rw [← walk_dropEmptyEnd] at hwalk
  have hspot := h.below
  rw [spot, ← follow_dropEmptyEnd] at hspot
  have hnamed := h.named
  unfold Tree.removeDirectory
  dsimp only
  obtain hnil | ⟨above, name, hnames⟩ := List.eq_nil_or_concat (dropEmptyEnd (namesOf current path))
  · rw [hnil] at hspot
    exact absurd rfl hspot
  rw [List.concat_eq_append] at hnames
  have hne : name.isEmpty = false :=
    ne_nil_of_dropEmptyEnd (by rw [hnames, List.getLast?_concat])
  rw [hnames] at hmem hwalk hnamed ⊢
  have hdot : name ≠ Path.dot := by simpa using hnamed
  have hup : name ≠ Path.dotDot := hmem name (by simp)
  obtain ⟨k, hk, hlast⟩ := walk_append_eq_ok.mp hwalk
  obtain ⟨hd, -, hend⟩ := walk_cons_eq_ok.mp hlast
  have hkept : k ++ [name] = spot current path := by
    simpa [walk, enter, isStay, hne, hdot, hup] using hend
  have hclear (m : Location) (hm : m <+: k) :
      (t.clear (spot current path)).get? m = t.get? m := by
    rw [get?_clear, if_neg]
    rintro ⟨hp, -⟩
    have hlength := (hp.trans hm).length_le
    rw [← hkept, List.length_append] at hlength
    exact absurd hlength (Nat.not_succ_le_self _)
  have habove : Path.dotDot ∉ above := fun hm => hmem _ (by simp [hm]) rfl
  rw [List.getLast?_concat, List.dropLast_concat]
  dsimp only
  rw [walk_within_eq_ok.mpr ⟨walk_congr habove hk hclear, (hclear k (List.prefix_refl k)).trans hd⟩]
  dsimp only
  rw [if_neg hdot, if_neg hup, hkept, remove_clear]

/-- What is left: all as it was, or the tree without what is below the path, or without the path as
well. -/
theorem erase_cases (t : Tree) (current path : Text) :
    (t.erase current path).1 = t ∨ (t.erase current path).1 = t.clear (spot current path) ∨
      (t.erase current path).1 = t.remove (spot current path) := by
  unfold erase
  cases hl : t.locate current path with
  | error r => exact .inl rfl
  | ok l =>
    obtain rfl := eq_spot_of_locate hl
    dsimp only
    cases t.get? (spot current path) with
    | none => exact .inl rfl
    | some n =>
      cases n with
      | file content => exact .inr (.inr rfl)
      | directory =>
        dsimp only
        cases hr : (t.clear (spot current path)).removeDirectory current path with
        | error r => exact .inr (.inl rfl)
        | ok tree =>
          rw [removeDirectory_eq_ok hr, remove_clear]
          exact .inr (.inr rfl)

theorem Descends.erase {n : Node} (h : Descends current path) (hfind : t.find current path = .ok n) :
    t.erase current path = (t.remove (spot current path), none) := by
  obtain ⟨hne, hwalk, hget⟩ := find_eq_ok.mp hfind
  have hlocate : t.locate current path = .ok (spot current path) := by
    rw [locate, if_neg (by simpa using hne), hwalk]
  rw [Tree.erase, hlocate]
  dsimp only
  rw [hget]
  cases n with
  | file content => rfl
  | directory =>
    dsimp only
    rw [h.removeDirectory hwalk]

end Tree

theorem removePath_tree (path : Text) (w : World) :
    finalState (removePath path) w = w ∨
      finalState (removePath path) w = { w with tree := (w.tree.erase w.current path).1 } := by
  unfold finalState
  rw [removePath_eq]
  split_ifs
  · exact .inl rfl
  · exact .inl rfl
  · obtain ⟨tree, _ | r⟩ := w.tree.erase w.current path <;> exact .inr rfl

theorem removePath_of_find {w : World} {path : Text} {n : Node}
    (hdown : Tree.Descends w.current path) (hdenied : w.isDenied path = false)
    (hnull : '\x00' ∉ path) (hfind : w.tree.find w.current path = .ok n) :
    removePath path w = .ok () { w with tree := w.tree.remove (spot w.current path) } := by
  rw [removePath_eq, if_neg (by simp [hdenied]), if_neg (by simpa using hnull), hdown.erase hfind]

end Rollout
