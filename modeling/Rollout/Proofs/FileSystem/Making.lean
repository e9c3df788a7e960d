import Rollout.Proofs.FileSystem.Growth

namespace Rollout

open Text Location

namespace Tree

/-- The way of a path starts in a directory, and nothing but directories stands on it. -/
structure Open (t : Tree) (current path : Text) : Prop where
  start : t.walk [] (if Path.isAbsolute path then [] else Path.names current) =
    .ok (origin current path)
  isDirectory : t.get? (origin current path) = some .directory
  free : ∀ s ∈ stops (origin current path) (Path.names path),
    t.get? s = none ∨ t.get? s = some .directory

variable {t : Tree} {current path : Text}

theorem Open.walk_names (h : t.Open current path) :
    t.walk [] ((namesOf current path).filter fun name => !name.isEmpty) =
      t.walk (origin current path) (Path.names path) := by
  rw [filter_namesOf, walk_append, h.start]

theorem walk_namesOf_of_isTrim (t : Tree) (hp : path ≠ []) (ht : Path.IsTrim path) :
    t.walk [] (namesOf current path) =
      t.walk [] ((namesOf current path).filter fun name => !name.isEmpty) := by
  by_cases he : endsWith path ['/'] = true
  · have hn : Path.names path = [] := ht he
    have ha : Path.isAbsolute path = true := by
      by_contra ha
      exact Path.names_ne_nil hp (by simpa using ha) hn
    have hw : ∀ names : List Text, (names.filter fun name => !name.isEmpty) = [] →
        t.walk [] names = .ok [] := by
      intro names hnames
      induction names with
      | nil => rfl
      | cons name rest ih =>
        simp only [List.filter_eq_nil_iff, List.mem_cons, forall_eq_or_imp] at hnames ih
        have hname : name.isEmpty = true := by simpa using hnames.1
        refine walk_cons_eq_ok.mpr ⟨rfl, fun hs => ?_, ?_⟩
        · rw [isStay_of_isEmpty hname] at hs
          cases hs
        · rw [enter, if_pos (isStay_of_isEmpty hname)]
          exact ih hnames.2
    have hf : ((namesOf current path).filter fun name => !name.isEmpty) = [] := by
      rw [filter_namesOf, if_pos ha, hn]
      rfl
    rw [hw _ hf, hf]
    rfl
  · exact walk_namesOf t hp (by simpa using he)

theorem Open.find (h : t.Open current path) (hp : path ≠ []) (ht : Path.IsTrim path) {n : Node} :
    t.find current path = .ok n ↔
      t.walk (origin current path) (Path.names path) = .ok (spot current path) ∧
        t.get? (spot current path) = some n := by
  rw [find_eq_ok, walk_namesOf_of_isTrim t hp ht, h.walk_names]
  simp [hp]

/-- The last name of a path leads to nothing or to a directory. -/
theorem Open.get?_spot (h : t.Open current path) (hg : t.Grounded)
    (hh : ∀ n ∈ Path.names path, isHoldable n)
    (hs : ∀ s ∈ stops (origin current path) (Path.names path).dropLast, t.get? s = some .directory) :
    t.walk (origin current path) (Path.names path) = .ok (spot current path) ∧
      (t.get? (spot current path) = none ∨ t.get? (spot current path) = some .directory) := by
  rw [spot_eq]
  have hfree := h.free
  generalize Path.names path = names at hh hs hfree ⊢
  cases names using List.reverseRecOn with
  | nil => exact ⟨rfl, .inr h.isDirectory⟩
  | append_singleton before last =>
    rw [List.dropLast_concat] at hs
    have hb : ∀ n ∈ before, isHoldable n := fun n hn => hh n (by simp [hn])
    obtain ⟨hw, hd⟩ := hg.walk_of_stops h.isDirectory hb hs
    have hlast : isHoldable last = true := hh last (by simp)
    have hlen : (Utf8.encode last).length ≤ nameLimit := by
      simp only [isHoldable, Bool.and_eq_true, decide_eq_true_eq] at hlast
      exact hlast.1
    rw [follow_append, stops_append hb] at *
    refine ⟨walk_append_eq_ok.mpr ⟨_, hw, walk_cons_eq_ok.mpr ⟨hd, fun _ _ => hlen, rfl⟩⟩, ?_⟩
    rw [follow_cons, follow_nil, enter]
    split_ifs with h1 h2
    · exact .inr hd
    · exact .inr (hg.dropLast hd)
    · exact hfree _ (by simp [stops, h1, h2, hlast])

end Tree

theorem not_mem_of_isHoldable {path : Text} (hh : ∀ n ∈ Path.names path, isHoldable n) :
    '\x00' ∉ path := by
  intro hz
  obtain h | ⟨name, hn, h⟩ := Path.eq_slash_or_mem_names hz
  · cases h
  · have := hh name hn
    simp_all [isHoldable]

theorem Touches.directory {current : Text} {made : Location → Prop} {w w' : World} {l : Location}
    (h : Touches current (fun _ => False) made w w') (hc : w.current = current)
    (hg : w.tree.Grounded) (hl : w.tree.get? l = some .directory) :
    w'.tree.get? l = some .directory := by
  obtain h | h | ⟨-, h, -⟩ := (h hc hg).2.2 l
  · exact h.elim
  · exact h.trans hl
  · rw [hl] at h
    cases h

/-- The last directory of a path can be made, or is there. -/
theorem settleDirectory_ok {w : World} {path : Text} (hp : path ≠ []) (ht : Path.IsTrim path)
    (hg : w.tree.Grounded) (ho : w.tree.Open w.current path)
    (hh : ∀ n ∈ Path.names path, isHoldable n)
    (hs : ∀ s ∈ stops (origin w.current path) (Path.names path).dropLast,
      w.tree.get? s = some .directory) :
    ∃ w', settleDirectory path w = .ok () w' ∧
      ∀ s ∈ stops (origin w.current path) (Path.names path), w'.tree.get? s = some .directory := by
  obtain ⟨hw, hl⟩ := ho.get?_spot hg hh hs
  have hstops : ∀ s ∈ stops (origin w.current path) (Path.names path),
      w.tree.get? s = some .directory ∨ s = spot w.current path := Tree.stops_of_walk hw
  have hz : path.contains '\x00' = false := by simpa using not_mem_of_isHoldable hh
  rw [settleDirectory_eq, makeDirectory_eq, if_neg (by rw [hz]; simp), Tree.makeDirectory,
    if_neg (by simpa using hp), Tree.walk_dropEmptyEnd, ho.walk_names, hw]
  obtain hl | hl := hl
  · have hne : spot w.current path ≠ [] := by
      intro he
      simp [he, Tree.get?_root] at hl
    refine ⟨{ w with tree := w.tree.insert (spot w.current path) .directory }, by simp [hl], ?_⟩
    intro s hm
    by_cases he : s = spot w.current path
    · rw [he]
      exact Tree.get?_insert_self _ hne _
    · exact (Tree.get?_insert_of_ne _ he _).trans ((hstops s hm).resolve_right he)
  · have hd : w.isDirectory path = true := by
      have hf := (ho.find hp ht).mpr ⟨hw, hl⟩
      rw [World.isDirectory, World.node?, hf]
      rfl
    refine ⟨w, by simp [hl, hd], fun s hm => ?_⟩
    obtain h | rfl := hstops s hm
    · exact h
    · exact hl

theorem Tree.Open.mono {t t' : Tree} {current path : Text} (h : t.Open current path)
    (ht : ∀ l, t'.get? l = t.get? l ∨ t.get? l = none ∧ t'.get? l = some .directory) :
    t'.Open current path := by
  have hd : ∀ l, t.get? l = some .directory → t'.get? l = some .directory := by
    intro l hl
    obtain h | ⟨h, -⟩ := ht l
    · exact h.trans hl
    · rw [hl] at h
      cases h
  refine ⟨walk_mono h.start hd, hd _ h.isDirectory, fun s hs => ?_⟩
  obtain he | ⟨-, he⟩ := ht s
  · rw [he]
    exact h.free s hs
  · exact .inr he

theorem settleDirectory_spec {w : World} {path : Text} (hp : path ≠ []) (ht : Path.IsTrim path)
    (hg : w.tree.Grounded) (ho : w.tree.Open w.current path)
    (hs : ∀ s ∈ stops (origin w.current path) (Path.names path).dropLast,
      w.tree.get? s = some .directory) :
    (∀ s ∈ stops (origin w.current path) (Path.names path),
      (finalState (settleDirectory path) w).tree.get? s = some .directory) ∧
    ((∀ n ∈ Path.names path, isHoldable n) → ∃ w', settleDirectory path w = .ok () w') := by
  by_cases hh : ∀ n ∈ Path.names path, isHoldable n
  · obtain ⟨w', hw, hs⟩ := settleDirectory_ok hp ht hg ho hh hs
    rw [finalState_of_ok hw]
    exact ⟨hs, fun _ => ⟨w', hw⟩⟩
  · refine ⟨fun s hm => ?_, fun h => absurd h hh⟩
    have hkeep : ObeysAt (Touches w.current (fun _ => False) fun _ => True)
        (settleDirectory path) w := settleDirectory_touches (fun _ _ => .inr trivial) w
    refine Touches.directory hkeep rfl hg (hs s ?_)
    generalize Path.names path = names at hm hh
    cases names using List.reverseRecOn with
    | nil => simp at hh
    | append_singleton before last =>
      rw [List.dropLast_concat]
      exact stops_concat_subset hh _ hm

theorem Tree.Open.above {t : Tree} {current path : Text} (h : t.Open current path)
    (hh : (splitDirectory path).1 ≠ []) :
    t.Open current (splitDirectory path).1 ∧
      origin current (splitDirectory path).1 = origin current path := by
  have horigin : origin current (splitDirectory path).1 = origin current path := by
    rw [origin, origin, Path.isAbsolute_splitDirectory hh]
  refine ⟨⟨?_, by rw [horigin]; exact h.isDirectory, fun s hs => ?_⟩, horigin⟩
  · rw [Path.isAbsolute_splitDirectory hh, horigin]
    exact h.start
  · exact h.free s (stops_splitDirectory hh hs)

/-- Where the path above leads to something, all of its stops are directories. -/
theorem Tree.Open.stops_above {w : World} {path : Text} (ho : w.tree.Open w.current path)
    (hx : (splitDirectory path).1 ≠ [] → (splitDirectory path).2 ≠ [] →
      w.pathExists (splitDirectory path).1 = true) :
    ∀ s ∈ stops (origin w.current path) (Path.names path).dropLast,
      w.tree.get? s = some .directory := by
  intro s hs
  by_cases hn : Path.names path = []
  · simp [hn, stops] at hs
  · rw [Path.names_splitDirectory_of_ne_nil hn, List.dropLast_concat] at hs
    by_cases hh : (splitDirectory path).1 = []
    · simp [hh, stops] at hs
    · obtain ⟨hoh, horigin⟩ := ho.above hh
      rw [← horigin] at hs
      obtain ⟨n, hf⟩ : ∃ n, w.tree.find w.current (splitDirectory path).1 = .ok n := by
        have hx := hx hh (Path.splitDirectory_snd_ne_nil hn)
        rw [World.pathExists, World.node?] at hx
        cases hf : w.tree.find w.current (splitDirectory path).1 with
        | error r => simp [hf, Except.toOption] at hx
        | ok n => exact ⟨n, rfl⟩
      obtain ⟨hw, hl⟩ := (hoh.find hh (Path.splitDirectory_fst_isTrim path)).mp hf
      obtain h | rfl := Tree.stops_of_walk hw s hs
      · exact h
      · refine (hoh.free _ hs).resolve_left ?_
        simp [hl]

section

variable {depth : Nat} {path : Text} {w : World}
  (hc : (!(splitDirectory path).1.isEmpty && !(splitDirectory path).2.isEmpty &&
    !w.pathExists (splitDirectory path).1) = true)

include hc

theorem names_of_missing_above :
    Path.names path = Path.names (splitDirectory path).1 ++ [(splitDirectory path).2] := by
  simp only [Bool.and_eq_true, Bool.not_eq_true', List.isEmpty_eq_false_iff] at hc
  apply Path.names_splitDirectory_of_ne_nil
  intro hn
  rw [Path.names_splitDirectory path, List.append_eq_nil_iff,
    Path.names_of_not_mem (Path.not_mem_splitDirectory_snd path), if_neg hc.1.2] at hn
  simp at hn

/-- What is a directory once the path above has been tried stays one. -/
theorem makeDirectoriesWithin_keeps (hg : w.tree.Grounded) {l : Location}
    (hl : (finalState (makeDirectoriesWithin depth (splitDirectory path).1) w).tree.get? l =
      some .directory) :
    (finalState (makeDirectoriesWithin (depth + 1) path) w).tree.get? l = some .directory := by
  have htouch : ObeysAt (Touches w.current (fun _ => False) fun _ => True)
      (makeDirectoriesWithin depth (splitDirectory path).1) w :=
    makeDirectoriesWithin_touches depth (fun _ _ => .inr trivial) w
  have hrest : Obeys (Touches w.current (fun _ => False) fun _ => True)
      (if (splitDirectory path).2 = Path.dot then pure () else settleDirectory path) := by
    split
    · exact obeys_pure _
    · exact settleDirectory_touches fun _ _ => .inr trivial
  rw [makeDirectoriesWithin_succ, finalState, get_bind, if_pos hc]
  cases hr : makeDirectoriesWithin depth (splitDirectory path).1 w with
  | ok u w₁ =>
    obtain ⟨hc₁, hg₁, -⟩ := htouch.of_ok hr rfl hg
    rw [finalState_of_ok hr] at hl
    rw [bind_of_ok (tryCatch_of_ok hr), ← finalState]
    exact Touches.directory (hrest w₁) hc₁ hg₁ hl
  | error e w₁ =>
    obtain ⟨hc₁, hg₁, -⟩ := htouch.of_error hr rfl hg
    rw [finalState_of_error hr] at hl
    rw [bind_of_eq (tryCatch_of_error hr), ← finalState]
    refine Touches.directory (Obeys.bind ?_ (fun _ => hrest) w₁) hc₁ hg₁ hl
    split
    · exact obeys_pure _
    · exact obeys_throw _

end

/-- All stops of a path are directories in the end, up to the first name that cannot be held. -/
theorem makeDirectoriesWithin_spec (depth : Nat) {path : Text} {w : World}
    (hlen : path.length ≤ depth) (hp : path ≠ []) (ht : Path.IsTrim path) (hg : w.tree.Grounded)
    (ho : w.tree.Open w.current path) :
    (∀ s ∈ stops (origin w.current path) (Path.names path),
      (finalState (makeDirectoriesWithin depth path) w).tree.get? s = some .directory) ∧
    ((∀ n ∈ Path.names path, isHoldable n) →
      ∃ w', makeDirectoriesWithin depth path w = .ok () w') := by
  induction depth generalizing path w with
  | zero =>
    cases path with
    | nil => exact absurd rfl hp
    | cons c p => simp at hlen
  | succ depth ih =>
    by_cases hc : (!(splitDirectory path).1.isEmpty && !(splitDirectory path).2.isEmpty &&
        !w.pathExists (splitDirectory path).1) = true
    · obtain ⟨⟨hhead, htail⟩, -⟩ : ((splitDirectory path).1 ≠ [] ∧ (splitDirectory path).2 ≠ []) ∧
          w.pathExists (splitDirectory path).1 = false := by simpa using hc
      have hnames := names_of_missing_above hc
      obtain ⟨hoh, horigin⟩ := ho.above hhead
      have hlt := Path.length_splitDirectory_fst htail
      obtain ⟨hstops, hok⟩ :=
        ih (by omega) hhead (Path.splitDirectory_fst_isTrim path) hg hoh
      rw [horigin] at hstops
      by_cases hh : ∀ n ∈ Path.names path, isHoldable n
      · obtain ⟨w₁, hw₁⟩ := hok fun n hn => hh n (by simp [hnames, hn])
        have htouch : ObeysAt (Touches w.current (fun _ => False) fun _ => True)
            (makeDirectoriesWithin depth (splitDirectory path).1) w :=
          makeDirectoriesWithin_touches depth (fun _ _ => .inr trivial) w
        obtain ⟨hc₁, hg₁, hl₁⟩ := htouch.of_ok hw₁ rfl hg
        rw [finalState_of_ok hw₁] at hstops
        rw [makeDirectoriesWithin_succ, finalState, get_bind, if_pos hc,
          bind_of_ok (tryCatch_of_ok hw₁), ← finalState]
        split
        · next hdot =>
          refine ⟨fun s hs => ?_, fun _ => ⟨w₁, rfl⟩⟩
          rw [hnames, hdot] at hs
          refine hstops s ((mem_stops_append hs).resolve_right ?_)
          simp [stops, isStay]
        · rw [← hc₁] at hstops ⊢
          apply settleDirectory_spec hp ht hg₁
          · rw [hc₁]
            exact ho.mono fun l => by simpa using hl₁ l
          · rwa [hnames, List.dropLast_concat]
      · refine ⟨fun s hs => makeDirectoriesWithin_keeps hc hg (hstops s ?_), fun h => absurd h hh⟩
        rw [hnames] at hs hh
        exact stops_concat_subset hh _ hs
    · rw [makeDirectoriesWithin_succ, finalState, get_bind, if_neg hc, ← finalState]
      refine settleDirectory_spec hp ht hg ho (ho.stops_above fun hhead htail => ?_)
      simpa [hhead, htail] using hc

theorem makeDirectories_spec {path : Text} {w : World} (hp : path ≠ []) (ht : Path.IsTrim path)
    (hg : w.tree.Grounded) (ho : w.tree.Open w.current path) (hd : w.denied = []) :
    (∀ s ∈ stops (origin w.current path) (Path.names path),
      (finalState (makeDirectories path) w).tree.get? s = some .directory) ∧
    ((∀ n ∈ Path.names path, isHoldable n) → ∃ w', makeDirectories path w = .ok () w') := by
  have h := makeDirectoriesWithin_spec path.length (Nat.le_refl _) hp ht hg ho
  rw [finalState] at h ⊢
  rwa [makeDirectories_eq, if_neg (by simp [World.isDenied, hd])]

/-- Where nothing stands in the way, exactly the stops of a path become directories. -/
theorem makeDirectories_ok {path : Text} {w : World} (hp : path ≠ []) (ht : Path.IsTrim path)
    (hg : w.tree.Grounded) (ho : w.tree.Open w.current path) (hd : w.denied = [])
    (hh : ∀ n ∈ Path.names path, isHoldable n) :
    ∃ t, makeDirectories path w = .ok () { w with tree := t } ∧ t.Grounded ∧
      (∀ s ∈ stops (origin w.current path) (Path.names path), t.get? s = some .directory) ∧
      ∀ l, l ∉ stops (origin w.current path) (Path.names path) → t.get? l = w.tree.get? l := by
  obtain ⟨hstops, hok⟩ := makeDirectories_spec hp ht hg ho hd
  obtain ⟨w', hw⟩ := hok hh
  have htouch : ObeysAt (Touches w.current (fun _ => False)
      (· ∈ stops (origin w.current path) (Path.names path))) (makeDirectories path) w :=
    makeDirectories_touches (fun _ => .inr) w
  obtain ⟨-, hg', hl⟩ := htouch.of_ok hw rfl hg
  rw [finalState_of_ok hw] at hstops
  have hsame : w' = { w with tree := w'.tree } := (makeDirectories_sameButTree path w).of_ok hw
  refine ⟨w'.tree, by rw [hw, ← hsame], hg', hstops, fun l hn => ?_⟩
  obtain h | h | ⟨h, -⟩ := hl l
  · exact h.elim
  · exact h
  · exact absurd h hn

end Rollout
