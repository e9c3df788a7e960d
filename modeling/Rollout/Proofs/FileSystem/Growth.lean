import Rollout.Proofs.FileSystem.Access
import Rollout.Proofs.FileSystem.Place

namespace Rollout

open Text Location

namespace Tree

structure Reaches (t : Tree) (current path : Text) : Prop where
  below : ∃ above name, spot current path = above ++ [name] ∧ t.get? above = some .directory
  stop : ∀ a b, Path.names path = a ++ b → b ≠ [] →
    spot current path ∈ stops ((origin current path).follow a) b

theorem Grounded.reaches {t : Tree} (ht : t.Grounded) {current path : Text} {l : Location}
    (hz : '\x00' ∉ path)
    (h : t.walk [] ((namesOf current path).filter fun name => !name.isEmpty) = .ok l)
    (hl : t.get? l ≠ some .directory) : l = spot current path ∧ t.Reaches current path := by
  have hspot : l = spot current path := by
    rw [eq_follow_of_walk h, follow_filter]
    rfl
  subst hspot
  obtain hd | ⟨above, name, he, hd, hs, hn, before, hb⟩ := ht.walk_cases h
  · exact absurd hd hl
  refine ⟨rfl, ⟨above, name, he, hd⟩, fun a b hab hne => ?_⟩
  obtain ⟨b, x, rfl⟩ : ∃ b' x, b = b' ++ [x] :=
    ⟨b.dropLast, b.getLast hne, (List.dropLast_concat_getLast hne).symm⟩
  have hx : x = name := by
    rw [filter_namesOf, hab, ← List.append_assoc, ← List.append_assoc] at hb
    simpa using (List.append_inj' hb rfl).2
  subst hx
  have hw := walk_origin h
  rw [hab] at hw
  obtain ⟨k, hk, hm⟩ := walk_append_eq_ok.mp hw
  rw [← eq_follow_of_walk hk]
  refine mem_stops_of_walk hm hs hn fun n hn hc => hz ?_
  refine Path.mem_of_mem_components (Path.mem_names.mp ?_).1 hc
  rw [hab]
  simp_all

theorem Grounded.insert {t : Tree} (ht : t.Grounded) {above : Location} {name : Text}
    (ha : t.get? above = some .directory) (hd : t.get? (above ++ [name]) ≠ some .directory)
    (n : Node) : (t.insert (above ++ [name]) n).Grounded := by
  intro l x hx
  have hkeep : ∀ k, t.get? k = some .directory → k ≠ above ++ [name] := fun k hk he => hd (he ▸ hk)
  by_cases he : l ++ [x] = above ++ [name]
  · obtain rfl : l = above := (List.append_inj' he rfl).1
    rw [get?_insert_of_ne _ (hkeep l ha)]
    exact ha
  · rw [get?_insert_of_ne _ he] at hx
    rw [get?_insert_of_ne _ (hkeep l (ht l x hx))]
    exact ht l x hx

theorem walk_namesOf (t : Tree) {current path : Text} (hp : path ≠ [])
    (he : endsWith path ['/'] = false) :
    t.walk [] (namesOf current path) =
      t.walk [] ((namesOf current path).filter fun name => !name.isEmpty) := by
  refine (walk_filter (fun n hn => ?_) t []).symm
  obtain ⟨cs, hc⟩ := Path.components_eq_append path
  have hf : n = Path.fileName path := by
    rw [namesOf, hc] at hn
    split at hn <;> simp_all
  simpa [hf] using Path.fileName_ne_nil hp he

/-- A file is written at a stop of its path, where there is no directory. -/
theorem Grounded.write_cases {t t' : Tree} (ht : t.Grounded) {current path : Text} {content : Bytes}
    (hz : '\x00' ∉ path) (h : t.write current path content = .ok t') :
    t' = t.insert (spot current path) (.file content) ∧
      t.get? (spot current path) ≠ some .directory ∧ path ≠ [] ∧ endsWith path ['/'] = false ∧
      t.Reaches current path := by
  rw [write] at h
  split at h
  · cases h
  · next hp =>
    have hp : path ≠ [] := by simpa using hp
    split at h
    · split at h <;> cases h
    · next he =>
      have he : endsWith path ['/'] = false := by simpa using he
      rw [walk_namesOf t hp he] at h
      split at h
      · cases h
      · next l hw =>
        split at h
        · cases h
        · next hd =>
          have hd : t.get? l ≠ some .directory := by simpa [isDirectory] using hd
          obtain ⟨rfl, hr⟩ := ht.reaches hz hw hd
          exact ⟨(Except.ok.inj h).symm, hd, hp, he, hr⟩

/-- A directory is made at a stop of its path, where there is nothing. -/
theorem Grounded.makeDirectory_cases {t t' : Tree} (ht : t.Grounded) {current path : Text}
    (hz : '\x00' ∉ path) (h : t.makeDirectory current path = .ok t') :
    t' = t.insert (spot current path) .directory ∧ t.get? (spot current path) = none ∧
      path ≠ [] ∧ t.Reaches current path := by
  rw [makeDirectory] at h
  split at h
  · cases h
  · next hp =>
    rw [walk_dropEmptyEnd] at h
    split at h
    · cases h
    · next l hw =>
      split at h
      · cases h
      · next hn =>
        have hn : t.get? l = none := by simpa using hn
        obtain ⟨rfl, hr⟩ := ht.reaches hz hw (by simp [hn])
        exact ⟨(Except.ok.inj h).symm, hn, by simpa using hp, hr⟩

end Tree

/-- From a tree in which all lies in directories: anything may have happened inside, and elsewhere
nothing but the making of some directories that were missing. -/
def Touches (current : Text) (inside made : Location → Prop) (w w' : World) : Prop :=
  w.current = current → w.tree.Grounded →
    w'.current = current ∧ w'.tree.Grounded ∧
    ∀ l, inside l ∨ w'.tree.get? l = w.tree.get? l ∨
      made l ∧ w.tree.get? l = none ∧ w'.tree.get? l = some .directory

instance (current : Text) (inside made : Location → Prop) :
    IsPreorder World (Touches current inside made) where
  refl _ hc hg := ⟨hc, hg, fun _ => .inr (.inl rfl)⟩
  trans := by
    intro u v w huv hvw hc hg
    obtain ⟨hc, hg, hv⟩ := huv hc hg
    obtain ⟨hc, hg, hw⟩ := hvw hc hg
    refine ⟨hc, hg, fun l => ?_⟩
    obtain hi | he | ⟨hm, hn, hd⟩ := hv l
    · exact .inl hi
    · rw [← he]
      exact hw l
    · obtain hi | he | ⟨-, hn', -⟩ := hw l
      · exact .inl hi
      · exact .inr (.inr ⟨hm, hn, he.trans hd⟩)
      · rw [hd] at hn'
        cases hn'

theorem touches_insert {w : World} {current : Text} {inside made : Location → Prop} {l : Location}
    {n : Node} (hl : w.tree.Grounded → (∃ above name, l = above ++ [name] ∧
      w.tree.get? above = some .directory) ∧ w.tree.get? l ≠ some .directory ∧
      (inside l ∨ made l ∧ w.tree.get? l = none ∧ n = .directory)) :
    Touches current inside made w { w with tree := w.tree.insert l n } := by
  intro hc hg
  obtain ⟨⟨above, name, rfl, ha⟩, hd, hl⟩ := hl hg
  refine ⟨hc, hg.insert ha hd n, fun m => ?_⟩
  by_cases he : m = above ++ [name]
  · subst he
    refine hl.imp_right fun ⟨hm, hn, hnode⟩ => .inr ⟨hm, hn, ?_⟩
    rw [Tree.get?_insert_self _ (by simp), hnode]
  · exact .inr (.inl (Tree.get?_insert_of_ne _ he n))

theorem writeFile_touches {current path : Text} {inside made : Location → Prop}
    (h : ∀ t : Tree, path ≠ [] → endsWith path ['/'] = false → t.Reaches current path →
      inside (spot current path)) (content : Bytes) :
    Obeys (Touches current inside made) (writeFile path content) := by
  intro w
  rw [ObeysAt, finalState, writeFile_eq]
  split_ifs with hd hz
  · exact refl w
  · exact refl w
  · cases hw : w.tree.write w.current path content with
    | error r => exact refl w
    | ok t =>
      intro hc hg
      obtain ⟨rfl, hdir, hp, he, hr⟩ := hg.write_cases (by simpa using hz) hw
      refine touches_insert (fun _ => ?_) hc hg
      rw [hc] at hdir hr ⊢
      exact ⟨hr.below, hdir, .inl (h _ hp he hr)⟩

def KeepsDirectories (w w' : World) : Prop :=
  ∀ l, w.tree.get? l = some .directory → w'.tree.get? l = some .directory

instance : IsPreorder World KeepsDirectories where
  refl _ _ := id
  trans _ _ _ h h' l := h' l ∘ h l

theorem writeFile_keepsDirectories (path : Text) (content : Bytes) :
    Obeys KeepsDirectories (writeFile path content) := by
  intro w
  rw [ObeysAt, finalState, writeFile_eq]
  split_ifs
  · exact refl w
  · exact refl w
  · cases hw : w.tree.write w.current path content with
    | error r => exact refl w
    | ok t =>
      intro l hl
      rw [Tree.write] at hw
      split_ifs at hw
      · split at hw <;> cases hw
      · split at hw
        · cases hw
        · next m _ =>
          split_ifs at hw with hm
          obtain rfl := Except.ok.inj hw
          have hne : l ≠ m := by
            rintro rfl
            simp [Tree.isDirectory, hl] at hm
          exact (Tree.get?_insert_of_ne _ hne _).trans hl

theorem makeDirectory_touches {current path : Text} {inside made : Location → Prop}
    (h : ∀ l ∈ stops (origin current path) (Path.names path), inside l ∨ made l) :
    Obeys (Touches current inside made) (makeDirectory path) := by
  intro w
  rw [ObeysAt, finalState, makeDirectory_eq]
  split_ifs with hz
  · exact refl w
  · cases hw : w.tree.makeDirectory w.current path with
    | error r => exact refl w
    | ok t =>
      intro hc hg
      obtain ⟨rfl, hnone, hp, hr⟩ := hg.makeDirectory_cases (by simpa using hz) hw
      refine touches_insert (fun _ => ?_) hc hg
      rw [hc] at hnone hr ⊢
      have hn : Path.names path ≠ [] := by
        intro hn
        obtain ⟨above, name, he, -⟩ := hr.below
        rw [spot_eq, hn, origin] at he
        split at he
        · simp at he
        · next ha => exact Path.names_ne_nil hp (by simpa using ha) hn
      have hs := hr.stop [] _ rfl hn
      exact ⟨hr.below, by simp [hnone], (h _ hs).imp_right fun hm => ⟨hm, hnone, rfl⟩⟩

section

variable {current : Text} {inside made : Location → Prop}

theorem settleDirectory_touches {path : Text}
    (h : ∀ l ∈ stops (origin current path) (Path.names path), inside l ∨ made l) :
    Obeys (Touches current inside made) (settleDirectory path) := by
  refine (makeDirectory_touches h).tryCatch fun e => ?_
  split
  · refine obeys_get.bind fun w => ?_
    split
    · exact obeys_pure _
    · exact obeys_throw _
  · exact obeys_throw _

theorem stops_splitDirectory {path : Text} (h : (splitDirectory path).1 ≠ []) :
    stops (origin current (splitDirectory path).1) (Path.names (splitDirectory path).1) ⊆
      stops (origin current path) (Path.names path) := by
  rw [Path.names_splitDirectory path, origin, origin, Path.isAbsolute_splitDirectory h]
  exact stops_subset_append _ _ _

theorem makeDirectoriesWithin_succ (depth : Nat) (path : Text) :
    makeDirectoriesWithin (depth + 1) path = get >>= fun w =>
      if !(splitDirectory path).1.isEmpty && !(splitDirectory path).2.isEmpty &&
          !w.pathExists (splitDirectory path).1 then do
        tryCatch (makeDirectoriesWithin depth (splitDirectory path).1) fun e =>
          match e with
          | .refused .alreadyExists _ => pure ()
          | _ => throw e
        if (splitDirectory path).2 = Path.dot then pure () else settleDirectory path
      else settleDirectory path := rfl

theorem makeDirectoriesWithin_touches (depth : Nat) {path : Text}
    (h : ∀ l ∈ stops (origin current path) (Path.names path), inside l ∨ made l) :
    Obeys (Touches current inside made) (makeDirectoriesWithin depth path) := by
  induction depth generalizing path with
  | zero => exact settleDirectory_touches h
  | succ depth ih =>
    rw [makeDirectoriesWithin_succ]
    refine obeys_get.bind fun w => ?_
    split
    · next hs =>
      have hh : (splitDirectory path).1 ≠ [] := by
        intro he
        simp [he] at hs
      refine Obeys.bind ?_ fun _ => ?_
      · refine (ih fun l hl => h l (stops_splitDirectory hh hl)).tryCatch fun e => ?_
        split
        · exact obeys_pure _
        · exact obeys_throw _
      · split
        · exact obeys_pure _
        · exact settleDirectory_touches h
    · exact settleDirectory_touches h

theorem makeDirectories_touches {path : Text}
    (h : ∀ l ∈ stops (origin current path) (Path.names path), inside l ∨ made l) :
    Obeys (Touches current inside made) (makeDirectories path) := by
  refine obeys_get.bind fun w => ?_
  dsimp only
  split
  · exact (obeys_throw _).bind fun _ => makeDirectoriesWithin_touches _ h
  · exact makeDirectoriesWithin_touches _ h

end

end Rollout
