import Rollout.Proofs.FileSystem.Making

namespace Rollout

open Text Location

/-- A name that a file or a directory can have. -/
structure IsName (name : Text) : Prop where
  notStay : isStay name = false
  ne_dotDot : name ≠ Path.dotDot
  noSlash : '/' ∉ name
  holdable : isHoldable name

instance (name : Text) : Decidable (IsName name) :=
  decidable_of_iff (isStay name = false ∧ name ≠ Path.dotDot ∧ '/' ∉ name ∧ isHoldable name)
    ⟨fun ⟨h1, h2, h3, h4⟩ => ⟨h1, h2, h3, h4⟩, fun ⟨h1, h2, h3, h4⟩ => ⟨h1, h2, h3, h4⟩⟩

namespace IsName

variable {name : Text}

theorem ne_nil (h : IsName name) : name ≠ [] := by
  rintro rfl
  exact absurd h.notStay (by decide)

theorem plain (h : IsName name) : name ≠ [] ∧ '/' ∉ name := ⟨h.ne_nil, h.noSlash⟩

theorem isEmpty_eq_false (h : IsName name) : name.isEmpty = false := by simpa using h.ne_nil

theorem enter (h : IsName name) (l : Location) : l.enter name = l ++ [name] := by
  rw [Location.enter, h.notStay, if_neg (by simp), if_neg h.ne_dotDot]

theorem length_le (h : IsName name) : (Utf8.encode name).length ≤ Tree.nameLimit := by
  have hh := h.holdable
  simp only [isHoldable, Bool.and_eq_true, decide_eq_true_eq] at hh
  exact hh.1

end IsName

section

variable {names : List Text} (h : ∀ n ∈ names, IsName n)

include h

theorem filter_of_isName : (names.filter fun n => !n.isEmpty) = names :=
  List.filter_eq_self.mpr fun n hn => by simp [(h n hn).isEmpty_eq_false]

theorem follow_of_isName (l : Location) : l.follow names = l ++ names :=
  follow_of_proper (fun n hn => ⟨(h n hn).notStay, (h n hn).ne_dotDot⟩) l

theorem mem_stops_iff {l s : Location} :
    s ∈ stops l names ↔ ∃ k, k ≠ [] ∧ k <+: names ∧ s = l ++ k := by
  induction names generalizing l with
  | nil => simp [stops]
  | cons name rest ih =>
    have hn := h name (by simp)
    have hr : ∀ n ∈ rest, IsName n := fun n hm => h n (by simp [hm])
    rw [stops, hn.notStay, if_neg (by simp), if_neg hn.ne_dotDot, if_pos hn.holdable, List.mem_cons,
      ih hr]
    constructor
    · rintro (rfl | ⟨k, hk, hp, rfl⟩)
      · exact ⟨[name], by simp, by simp, rfl⟩
      · exact ⟨name :: k, by simp, by simpa using hp, by simp⟩
    · rintro ⟨k, hk, hp, rfl⟩
      cases k with
      | nil => exact absurd rfl hk
      | cons x k =>
        obtain ⟨rfl, hr⟩ := List.cons_prefix_cons.mp hp
        by_cases hk : k = []
        · exact .inl (by simp [hk])
        · exact .inr ⟨k, hk, hr, by simp⟩

theorem spot_joinAll (current p : Text) :
    spot current (Path.joinAll p names) = spot current p ++ names := by
  have hs : ∀ q ∈ names, '/' ∉ q := fun q hq => (h q hq).noSlash
  rw [spot_eq, spot_eq, Path.names_joinAll hs, filter_of_isName h, follow_append,
    follow_of_isName h, origin, origin, Path.isAbsolute_joinAll hs]

end

namespace Tree

/-- A tree of files as there can be: what is in it is in a directory and has a name. -/
structure Sound (t : Tree) : Prop where
  grounded : t.Grounded
  isName : ∀ l, (t.get? l).isSome → ∀ name ∈ l, IsName name

theorem sound_empty : Tree.empty.Sound := by
  have hnone : ∀ l, l ≠ [] → Tree.empty.get? l = none := by
    intro l hl
    rw [get?, if_neg hl]
    rfl
  refine ⟨fun l name h => ?_, fun l h name hn => ?_⟩
  · rw [hnone _ (by simp)] at h
    cases h
  · rw [hnone _ (List.ne_nil_of_mem hn)] at h
    cases h

theorem Sound.insert {t : Tree} (ht : t.Sound) (above : Location) (name : Text)
    (ha : t.get? above = some .directory) (hd : t.get? (above ++ [name]) ≠ some .directory)
    (hn : IsName name) (n : Node) : (t.insert (above ++ [name]) n).Sound := by
  refine ⟨ht.grounded.insert ha hd n, fun l hl => ?_⟩
  by_cases he : l = above ++ [name]
  · subst he
    intro x hx
    obtain hx | hx := List.mem_append.mp hx
    · exact ht.isName above (by rw [ha]; rfl) x hx
    · obtain rfl : x = name := by simpa using hx
      exact hn
  · rw [get?_insert_of_ne _ he] at hl
    exact ht.isName l hl

theorem Grounded.get?_above {t : Tree} (ht : t.Grounded) {l k : Location}
    (h : (t.get? (l ++ k)).isSome) (hk : k ≠ []) : t.get? l = some .directory := by
  induction k using List.reverseRecOn with
  | nil => exact absurd rfl hk
  | append_singleton k x ih =>
    rw [← List.append_assoc] at h
    have hd := ht _ _ h
    by_cases hk : k = []
    · simpa [hk] using hd
    · exact ih (by simp [hd]) hk

theorem Grounded.walk_of_get? {t : Tree} (ht : t.Grounded) {l : Location} {names : List Text}
    (hn : ∀ n ∈ names, IsName n) (h : (t.get? (l ++ names)).isSome) :
    t.walk l names = .ok (l ++ names) := by
  induction names generalizing l with
  | nil => simp [walk]
  | cons name rest ih =>
    have hname := hn name (by simp)
    refine walk_cons_eq_ok.mpr ⟨ht.get?_above h (by simp), fun _ _ => hname.length_le, ?_⟩
    rw [hname.enter, ih (fun n hm => hn n (by simp [hm])) (by simpa using h)]
    simp

theorem Open.change {t t' : Tree} {current path : Text} (h : t.Open current path)
    (hk : ∀ l, t.get? l = some .directory → t'.get? l = some .directory)
    (hs : ∀ s ∈ stops (origin current path) (Path.names path),
      t'.get? s = none ∨ t'.get? s = some .directory) : t'.Open current path :=
  ⟨walk_mono h.start hk, hk _ h.isDirectory, hs⟩

theorem Open.walk_spot {t : Tree} {current path : Text} (h : t.Open current path)
    (hg : t.Grounded) (hh : ∀ n ∈ Path.names path, isHoldable n)
    (hs : ∀ s ∈ stops (origin current path) (Path.names path), t.get? s = some .directory) :
    t.walk [] ((namesOf current path).filter fun n => !n.isEmpty) = .ok (spot current path) ∧
      t.get? (spot current path) = some .directory := by
  obtain ⟨hway, hd⟩ := hg.walk_of_stops h.isDirectory hh hs
  rw [← spot_eq] at hway hd
  exact ⟨by rw [h.walk_names, hway], hd⟩

/-- A path that leads to something in a directory. -/
structure Leads (t : Tree) (current path : Text) : Prop where
  ne_nil : path ≠ []
  noSlash : endsWith path ['/'] = false
  noNull : '\x00' ∉ path
  walk : t.walk [] ((namesOf current path).filter fun name => !name.isEmpty) =
    .ok (spot current path)

theorem Leads.mono {t t' : Tree} {current path : Text} (h : t.Leads current path)
    (ht : ∀ l, t.get? l = some .directory → t'.get? l = some .directory) : t'.Leads current path :=
  ⟨h.ne_nil, h.noSlash, h.noNull, walk_mono h.walk ht⟩

theorem Leads.find {t : Tree} {current path : Text} (h : t.Leads current path) {n : Node}
    (hn : t.get? (spot current path) = some n) : t.find current path = .ok n :=
  find_eq_ok.mpr ⟨h.ne_nil, by rw [walk_namesOf _ h.ne_nil h.noSlash, h.walk], hn⟩

theorem insert_insert (t : Tree) (l : Location) (n n' : Node) :
    (t.insert l n).insert l n' = t.insert l n' := by
  simp [insert, List.filter_filter]

section

variable {t t' : Tree} {current path : Text} {l : Location} {content : Bytes}

theorem read_eq_ok :
    t.read current path = .ok content ↔ t.find current path = .ok (.file content) := by
  unfold read
  cases t.find current path with
  | error r => exact iff_of_false nofun nofun
  | ok n => cases n <;> simp

theorem write_eq_ok :
    t.write current path content = .ok t' ↔
      path ≠ [] ∧ endsWith path ['/'] = false ∧
        t.walk [] (namesOf current path) = .ok (spot current path) ∧
        t.get? (spot current path) ≠ some .directory ∧
        t' = t.insert (spot current path) (.file content) := by
  rw [write]
  split_ifs with hempty hslash
  · exact iff_of_false (by simp) fun h => h.1 (by simpa using hempty)
  · refine iff_of_false (fun h => ?_) fun h => by simp [h.2.1] at hslash
    split at h <;> cases h
  · cases hwalk : t.walk [] (namesOf current path) with
    | error r => exact iff_of_false (by simp) fun h => absurd h.2.2.1 (by simp)
    | ok l =>
      obtain rfl : l = spot current path := eq_follow_of_walk hwalk
      have hempty : path ≠ [] := by simpa using hempty
      have hslash : endsWith path ['/'] = false := by simpa using hslash
      dsimp only
      split_ifs with hdirectory
      · exact iff_of_false (by simp) fun h => h.2.2.2.1 (by simpa [isDirectory] using hdirectory)
      · have hfree : t.get? (spot current path) ≠ some .directory := by
          simpa [isDirectory] using hdirectory
        simp [hempty, hslash, hfree, eq_comm]

theorem get?_insert_file_eq_directory (hl : t.get? l ≠ some .directory) (content : Bytes)
    (k : Location) :
    (t.insert l (.file content)).get? k = some .directory ↔ t.get? k = some .directory := by
  by_cases hk : k = l
  · subst hk
    have hne : k ≠ [] := by
      rintro rfl
      exact hl rfl
    rw [get?_insert_self t hne]
    exact iff_of_false nofun hl
  · rw [get?_insert_of_ne t hk]

theorem read_of_insert_file (hl : t.get? l ≠ some .directory) (hne : spot current path ≠ l)
    {old : Bytes} (h : (t.insert l (.file content)).read current path = .ok old) :
    t.read current path = .ok old := by
  obtain ⟨hpath, hwalk, hget⟩ := find_eq_ok.mp (read_eq_ok.mp h)
  refine read_eq_ok.mpr (find_eq_ok.mpr ⟨hpath, ?_, ?_⟩)
  · exact walk_mono hwalk fun k hk => (get?_insert_file_eq_directory hl content k).mp hk
  · rwa [get?_insert_of_ne t hne] at hget

theorem write_insert (h : t.write current path content = .ok t') (old : Bytes) :
    (t.insert (spot current path) (.file old)).write current path content = .ok t' := by
  obtain ⟨hpath, hslash, hwalk, hfree, rfl⟩ := write_eq_ok.mp h
  have hkeep := get?_insert_file_eq_directory hfree old
  refine write_eq_ok.mpr ⟨hpath, hslash, ?_, ?_, ?_⟩
  · exact walk_mono hwalk fun k hk => (hkeep k).mpr hk
  · exact fun hd => hfree ((hkeep _).mp hd)
  · rw [insert_insert]

end

end Tree

theorem readFile_ok {path : Text} {w : World} (h : w.tree.Leads w.current path)
    (hd : w.denied = []) {content : Bytes}
    (hf : w.tree.get? (spot w.current path) = some (.file content)) :
    readFile path w = .ok content w := by
  rw [readFile_eq, if_neg (by simp [World.isDenied, hd]), if_neg (by simpa using h.noNull),
    Tree.read, h.find hf]

theorem writeFile_eq_ok {path : Text} {content : Bytes} {w w' : World} :
    writeFile path content w = .ok () w' ↔
      w.isDenied path = false ∧ '\x00' ∉ path ∧
        ∃ tree, w.tree.write w.current path content = .ok tree ∧ w' = { w with tree } := by
  rw [writeFile_eq]
  split_ifs with hdenied hnull
  · simp [hdenied]
  · simp at hnull
    simp [hnull]
  · simp at hnull
    cases w.tree.write w.current path content <;> simp [hdenied, hnull, eq_comm]

theorem writeFile_ok {path : Text} {w : World} (h : w.tree.Leads w.current path)
    (hd : w.denied = []) (hl : w.tree.get? (spot w.current path) ≠ some .directory)
    (content : Bytes) :
    writeFile path content w =
      .ok () { w with tree := w.tree.insert (spot w.current path) (.file content) } := by
  have ht : w.tree.write w.current path content =
      .ok (w.tree.insert (spot w.current path) (.file content)) := by
    rw [Tree.write, if_neg (by simpa using h.ne_nil), if_neg (by simp [h.noSlash]),
      Tree.walk_namesOf _ h.ne_nil h.noSlash, h.walk]
    simp [Tree.isDirectory, hl]
  rw [writeFile_eq, if_neg (by simp [World.isDenied, hd]), if_neg (by simpa using h.noNull), ht]

end Rollout
