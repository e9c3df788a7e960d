import Mathlib.Data.List.Nodup
import Rollout.CommandLine
import Rollout.Proofs.Archive.RoundTrip

namespace Rollout

open Text

namespace Text

/-- The texts are equal, or where they differ first the one ends or has the lesser code point. -/
def InOrder (s t : Text) : Prop := s = t ∨ List.Lex (fun a b => a.toNat < b.toNat) s t

variable {a b : Char} {s t u : Text}

theorem ble_cons :
    ble (a :: s) (b :: t) = true ↔ a.toNat < b.toNat ∨ a = b ∧ ble s t = true := by
  rw [ble]
  by_cases h : a = b
  · simp [h]
  · have hne : a.toNat ≠ b.toNat := fun he => h (Char.toNat_inj.mp he)
    rw [if_neg h, decide_eq_true_eq, UInt32.le_iff_toNat_le]
    change a.toNat ≤ b.toNat ↔ _
    simp only [h, false_and, or_false]
    omega

theorem ble_total (s t : Text) : (ble s t || ble t s) = true := by
  induction s generalizing t with
  | nil => rfl
  | cons a s ih =>
    cases t with
    | nil => rfl
    | cons b t =>
      have hs := ih t
      rw [Bool.or_eq_true] at hs ⊢
      rw [ble_cons, ble_cons]
      have hab := Char.toNat_inj (c := a) (d := b)
      grind

theorem ble_trans (hst : ble s t = true) (htu : ble t u = true) : ble s u = true := by
  induction s generalizing t u with
  | nil => rfl
  | cons a s ih =>
    cases t with
    | nil => cases hst
    | cons b t =>
      cases u with
      | nil => cases htu
      | cons c u =>
        rw [ble_cons] at hst htu ⊢
        obtain h | ⟨rfl, hst⟩ := hst
        · obtain h' | ⟨rfl, -⟩ := htu
          · exact .inl (h.trans h')
          · exact .inl h
        · obtain h' | ⟨rfl, htu⟩ := htu
          · exact .inl h'
          · exact .inr ⟨rfl, ih hst htu⟩

theorem ble_antisymm (hst : ble s t = true) (hts : ble t s = true) : s = t := by
  induction s generalizing t with
  | nil =>
    cases t with
    | nil => rfl
    | cons b t => cases hts
  | cons a s ih =>
    cases t with
    | nil => cases hst
    | cons b t =>
      rw [ble_cons] at hst hts
      obtain h | ⟨rfl, hst⟩ := hst
      · obtain h' | ⟨rfl, -⟩ := hts
        · omega
        · omega
      · obtain h' | ⟨-, hts⟩ := hts
        · omega
        · rw [ih hst hts]

theorem ble_iff : ble s t = true ↔ InOrder s t := by
  induction s generalizing t with
  | nil =>
    cases t with
    | nil => exact iff_of_true rfl (.inl rfl)
    | cons b t => exact iff_of_true rfl (.inr .nil)
  | cons a s ih =>
    cases t with
    | nil => exact iff_of_false nofun (by rintro (h | h) <;> cases h)
    | cons b t =>
      rw [ble_cons, ih]
      constructor
      · rintro (h | ⟨rfl, rfl | h⟩)
        · exact .inr (.rel h)
        · exact .inl rfl
        · exact .inr (.cons h)
      · rintro (h | h)
        · obtain ⟨rfl, rfl⟩ := List.cons.inj h
          exact .inr ⟨rfl, .inl rfl⟩
        · cases h with
          | rel h => exact .inl h
          | cons h => exact .inr ⟨rfl, .inr h⟩

theorem pairwise_mergeSort (ts : List Text) : (ts.mergeSort ble).Pairwise InOrder := by
  have htrans : ∀ s t u : Text, ble s t = true → ble t u = true → ble s u = true :=
    fun _ _ _ => ble_trans
  exact (List.pairwise_mergeSort htrans ble_total ts).imp ble_iff.mp

theorem eq_mergeSort {ts us : List Text} (hp : ts.Perm us) (hs : ts.Pairwise InOrder) :
    ts = us.mergeSort ble := by
  have hsorted : ts.Perm (us.mergeSort ble) := hp.trans (List.mergeSort_perm us ble).symm
  exact hsorted.eq_of_pairwise (fun _ _ _ _ h h' => ble_antisymm (ble_iff.mpr h) (ble_iff.mpr h'))
    hs (pairwise_mergeSort us)

end Text

namespace Tree

def Distinct (t : Tree) : Prop := (t.entries.map Prod.fst).Nodup

variable {t : Tree} {l k : Location} {n : Node}

theorem distinct_empty : Tree.empty.Distinct := List.nodup_nil

theorem Distinct.insert (h : t.Distinct) (l : Location) (n : Node) : (t.insert l n).Distinct := by
  rw [Distinct, Tree.insert, List.map_cons, List.nodup_cons]
  refine ⟨fun hmem => ?_, ?_⟩
  · obtain ⟨e, he, hl⟩ := List.mem_map.mp hmem
    simpa [hl] using (List.mem_filter.mp he).2
  · exact h.sublist (List.filter_sublist.map _)

theorem Distinct.lookup_iff (h : t.Distinct) :
    t.entries.lookup l = some n ↔ (l, n) ∈ t.entries := by
  rw [List.lookup_eq_some_iff]
  constructor
  · rintro ⟨before, after, he, -⟩
    simp [he]
  · intro hmem
    obtain ⟨before, after, he⟩ := List.append_of_mem hmem
    refine ⟨before, after, he, fun e hbefore => ?_⟩
    rw [Distinct, he, List.map_append, List.map_cons, List.nodup_append] at h
    simpa using fun hl => h.2.2 e.1 (List.mem_map_of_mem hbefore) l (by simp) hl.symm

theorem eq_append_of_below {place : Location}
    (h : (l.isPrefixOf place && decide (l.length < place.length)) = true) :
    place = l ++ place.drop l.length ∧ place.drop l.length ≠ [] := by
  rw [Bool.and_eq_true, List.isPrefixOf_iff_prefix, decide_eq_true_eq] at h
  obtain ⟨⟨k, rfl⟩, hlen⟩ := h
  rw [List.drop_left]
  refine ⟨rfl, ?_⟩
  rintro rfl
  simp at hlen

theorem mem_below : (k, n) ∈ t.below l ↔ k ≠ [] ∧ (l ++ k, n) ∈ t.entries := by
  rw [below, List.mem_filterMap]
  constructor
  · rintro ⟨⟨place, n'⟩, he, hk⟩
    dsimp only at hk
    split_ifs at hk with hbelow
    obtain ⟨hplace, hne⟩ := eq_append_of_below hbelow
    cases hk
    exact ⟨hne, hplace ▸ he⟩
  · rintro ⟨hk, he⟩
    refine ⟨_, he, ?_⟩
    have hlen : 0 < k.length := List.length_pos_iff.mpr hk
    simp [hlen]

theorem map_below_sublist (t : Tree) (l : Location) :
    ((t.below l).map fun e => l ++ e.1).Sublist (t.entries.map Prod.fst) := by
  rw [below, List.map_filterMap]
  induction t.entries with
  | nil => exact .slnil
  | cons e es ih =>
    obtain ⟨place, n⟩ := e
    rw [List.filterMap_cons]
    dsimp only
    split_ifs with hbelow
    · rw [Option.map_some, ← (eq_append_of_below hbelow).1]
      exact ih.cons_cons _
    · exact ih.cons _

theorem Distinct.mem_below_iff (h : t.Distinct) :
    (k, n) ∈ t.below l ↔ k ≠ [] ∧ t.get? (l ++ k) = some n := by
  rw [mem_below]
  refine and_congr_right fun hk => ?_
  rw [get?, if_neg (by simp [hk]), h.lookup_iff]

theorem Distinct.mem_filesBelow_iff (h : t.Distinct) :
    k ∈ t.filesBelow l ↔ k ≠ [] ∧ ∃ content, t.get? (l ++ k) = some (.file content) := by
  simp only [filesBelow, List.mem_map, List.mem_filter, Prod.exists, h.mem_below_iff]
  constructor
  · rintro ⟨k, n, ⟨⟨hne, hn⟩, hfile⟩, rfl⟩
    cases n with
    | directory => cases hfile
    | file content => exact ⟨hne, content, hn⟩
  · rintro ⟨hne, content, hn⟩
    exact ⟨k, .file content, ⟨⟨hne, hn⟩, rfl⟩, rfl⟩

theorem Distinct.mem_directoriesBelow_iff (h : t.Distinct) :
    k ∈ t.directoriesBelow l ↔ k ≠ [] ∧ t.get? (l ++ k) = some .directory := by
  simp only [directoriesBelow, List.mem_map, List.mem_filter, Prod.exists, h.mem_below_iff]
  constructor
  · rintro ⟨k, n, ⟨hn, hdirectory⟩, rfl⟩
    rwa [eq_of_beq hdirectory] at hn
  · exact fun hn => ⟨k, .directory, ⟨hn, rfl⟩, rfl⟩

theorem Distinct.nodup_filesBelow (h : t.Distinct) (l : Location) : (t.filesBelow l).Nodup := by
  have hbelow : (((t.below l).map Prod.fst).map (l ++ ·)).Nodup := by
    rw [List.map_map]
    exact h.sublist (map_below_sublist t l)
  exact (List.Nodup.of_map _ hbelow).sublist (List.filter_sublist.map _)

end Tree

namespace World

variable {w : World} {path : Text}

theorem isDirectory_iff :
    w.isDirectory path = true ↔
      path ≠ [] ∧ w.tree.walk [] (Tree.namesOf w.current path) = .ok (spot w.current path) ∧
        w.tree.get? (spot w.current path) = some .directory := by
  rw [← Tree.find_eq_ok, isDirectory, node?]
  cases w.tree.find w.current path <;> simp [Except.toOption]

end World

namespace CommandLine

open Walk

/-- Each directory on the way down from a place is listed, up to the one that holds the last of
the names. -/
def Walk.Reaches (walk : Walk) (l k : Location) : Prop :=
  ∀ j, j <+: k → j ≠ k → l ++ j ∉ walk.unlisted

theorem Walk.reaches_iff {walk : Walk} {l k : Location} :
    walk.reaches l k = true ↔ walk.Reaches l k := by
  simp only [reaches, List.all_eq_true, List.mem_range, Bool.not_eq_true', List.contains_eq_mem,
    decide_eq_false_iff_not]
  constructor
  · intro h j hj hne
    have hlen : j.length < k.length := by
      by_contra hle
      exact hne (hj.eq_of_length_le (by omega))
    rw [List.prefix_iff_eq_take.mp hj]
    exact h j.length hlen
  · intro h n hn
    refine h (k.take n) (List.take_prefix n k) fun he => ?_
    have hlen := congrArg List.length he
    simp at hlen
    omega

structure FilesBelow (walk : Walk) (w : World) (path : Text) (files : List Text) : Prop where
  nodup : files.Nodup
  mem_iff : ∀ file, file ∈ files ↔ ∃ k content, k ≠ [] ∧ file = Path.joinAll path k ∧
    w.tree.get? (spot w.current path ++ k) = some (.file content) ∧
    walk.Reaches (spot w.current path) k

/-- A directory stands for the files below it, and anything else for itself. -/
inductive PackedAs (walk : Walk) (w : World) (path : Text) : List Text → Prop
  | itself : w.isDirectory path = false → PackedAs walk w path [path]
  | below {files} : w.isDirectory path = true → FilesBelow walk w path files →
      PackedAs walk w path files

/-- A walk gets to a directory for which no level is left. -/
def TooDeep (walk : Walk) (w : World) (path : Text) : Prop :=
  w.isDirectory path = true ∧ ∃ k, walk.levels < k.length ∧
    w.tree.get? (spot w.current path ++ k) = some .directory ∧
    walk.Reaches (spot w.current path) k

/-- There is a file below a directory that a walk does not get to. -/
def Misses (walk : Walk) (w : World) (path : Text) : Prop :=
  w.isDirectory path = true ∧ ∃ k content, k ≠ [] ∧
    w.tree.get? (spot w.current path ++ k) = some (.file content) ∧
    ¬ walk.Reaches (spot w.current path) k

variable {walk : Walk} {w : World} {path file : Text} {paths paths' files files' : List Text}

theorem PackedAs.perm (h : PackedAs walk w path files) (h' : PackedAs walk w path files') :
    files.Perm files' := by
  cases h with
  | itself hnot =>
    cases h' with
    | itself => exact .refl _
    | below hdirectory => simp [hnot] at hdirectory
  | below hdirectory hfiles =>
    cases h' with
    | itself hnot => simp [hnot] at hdirectory
    | below _ hfiles' =>
      refine (List.perm_ext_iff_of_nodup hfiles.nodup hfiles'.nodup).mpr fun file => ?_
      rw [hfiles.mem_iff, hfiles'.mem_iff]

def listed (walk : Walk) (w : World) (path : Text) : List Text :=
  if w.isDirectory path then
    ((w.tree.filesBelow (spot w.current path)).filter
      (walk.reaches (spot w.current path))).map (Path.joinAll path)
  else [path]

def isTooDeep (walk : Walk) (w : World) (path : Text) : Bool :=
  w.isDirectory path && walk.exceeds w.tree (spot w.current path)

theorem isTooDeep_iff (hd : w.tree.Distinct) :
    isTooDeep walk w path = true ↔ TooDeep walk w path := by
  rw [isTooDeep, Bool.and_eq_true, TooDeep, exceeds, List.any_eq_true]
  refine and_congr_right fun _ => exists_congr fun k => ?_
  rw [hd.mem_directoriesBelow_iff, Bool.and_eq_true, reaches_iff, decide_eq_true_eq]
  constructor
  · rintro ⟨⟨-, hk⟩, hreaches, hlen⟩
    exact ⟨hlen, hk, hreaches⟩
  · rintro ⟨hlen, hk, hreaches⟩
    exact ⟨⟨List.length_pos_iff.mp (by omega), hk⟩, hreaches, hlen⟩

theorem filesAt_eq (walk : Walk) (w : World) (path : Text) :
    filesAt walk w path =
      if isTooDeep walk w path then .error .nestedTooDeep else .ok (listed walk w path) := by
  cases h : w.isDirectory path with
  | true =>
    obtain ⟨hne, hwalk, hdirectory⟩ := World.isDirectory_iff.mp h
    have hlocate : w.tree.locate w.current path = .ok (spot w.current path) := by
      rw [Tree.locate, if_neg (by simpa using hne), hwalk]
    have hplace : w.tree.isDirectory (spot w.current path) = true := by
      rw [Tree.isDirectory, hdirectory]
      rfl
    rw [filesAt, hlocate]
    simp only [isTooDeep, listed, h, hplace, Bool.true_and, if_true]
  | false =>
    simp only [isTooDeep, listed, h, Bool.false_and, Bool.false_eq_true, if_false]
    rw [filesAt]
    split
    · next l hlocate =>
      refine if_neg fun hdirectory => ?_
      rw [World.isDirectory, World.node?, Tree.find, hlocate] at h
      simp_all [Tree.isDirectory, Except.toOption]
    · rfl

theorem mapM_ite {α β ε : Type} (p : α → Bool) (e : ε) (g : α → β) (xs : List α) :
    (xs.mapM fun x => if p x then Except.error e else Except.ok (g x)) =
      if xs.any p then .error e else .ok (xs.map g) := by
  induction xs with
  | nil => rfl
  | cons x xs ih =>
    rw [List.mapM_cons, ih]
    cases hx : p x with
    | true => simp [hx, bind, Except.bind]
    | false =>
      cases hxs : xs.any p <;> simp [hx, hxs, bind, Except.bind, pure, Except.pure]

theorem expand_eq (walk : Walk) (w : World) (paths : List Text) :
    expand walk w paths =
      if paths.any (isTooDeep walk w) then .error .nestedTooDeep
      else .ok ((paths.flatMap (listed walk w)).mergeSort Text.ble) := by
  rw [expand, funext (filesAt_eq walk w), mapM_ite, List.flatMap_def]
  split_ifs <;> rfl

theorem joinAll_injective {k k' : Location} (hk : ∀ n ∈ k, IsName n) (hk' : ∀ n ∈ k', IsName n)
    (h : Path.joinAll path k = Path.joinAll path k') : k = k' := by
  have hnames := congrArg Path.names h
  rw [Path.names_joinAll fun n hn => (hk n hn).noSlash, filter_of_isName hk,
    Path.names_joinAll fun n hn => (hk' n hn).noSlash, filter_of_isName hk'] at hnames
  exact List.append_cancel_left hnames

theorem isName_below (ht : w.tree.Sound) {l k : Location} {content : Bytes}
    (h : w.tree.get? (l ++ k) = some (.file content)) : ∀ n ∈ k, IsName n := fun n hn =>
  ht.isName (l ++ k) (by rw [h]; rfl) n (List.mem_append_right l hn)

theorem packedAs_listed (ht : w.tree.Sound) (hd : w.tree.Distinct) (walk : Walk) (path : Text) :
    PackedAs walk w path (listed walk w path) := by
  cases h : w.isDirectory path with
  | false =>
    rw [listed, h]
    exact .itself h
  | true =>
    rw [listed, h, if_pos rfl]
    refine .below h ⟨?_, fun file => ?_⟩
    · refine ((hd.nodup_filesBelow _).filter _).map_on fun k hk k' hk' he => ?_
      obtain ⟨-, content, hfile⟩ := hd.mem_filesBelow_iff.mp (List.mem_filter.mp hk).1
      obtain ⟨-, content', hfile'⟩ := hd.mem_filesBelow_iff.mp (List.mem_filter.mp hk').1
      exact joinAll_injective (isName_below ht hfile) (isName_below ht hfile') he
    · simp only [List.mem_map, List.mem_filter, hd.mem_filesBelow_iff, reaches_iff]
      constructor
      · rintro ⟨k, ⟨⟨hne, content, hfile⟩, hreaches⟩, rfl⟩
        exact ⟨k, content, hne, rfl, hfile, hreaches⟩
      · rintro ⟨k, content, hne, rfl, hfile, hreaches⟩
        exact ⟨k, ⟨⟨hne, content, hfile⟩, hreaches⟩, rfl⟩

theorem flatten_perm (ht : w.tree.Sound) (hd : w.tree.Distinct) {listings : List (List Text)}
    (h : List.Forall₂ (PackedAs walk w) paths listings) :
    listings.flatten.Perm (paths.flatMap (listed walk w)) := by
  induction h with
  | nil => exact .refl _
  | cons hpath _ ih => exact (hpath.perm (packedAs_listed ht hd walk _)).append ih

theorem forall₂_listed (ht : w.tree.Sound) (hd : w.tree.Distinct) (walk : Walk)
    (paths : List Text) : List.Forall₂ (PackedAs walk w) paths (paths.map (listed walk w)) :=
  List.forall₂_map_right_iff.mpr (List.forall₂_same.mpr fun path _ => packedAs_listed ht hd walk path)

/-- Each text that is listed below a directory leads to the file. -/
theorem isFile_joinAll (ht : w.tree.Sound) (h : w.isDirectory path = true) {k : Location}
    (hne : k ≠ []) {content : Bytes}
    (hfile : w.tree.get? (spot w.current path ++ k) = some (.file content)) :
    w.isFile (Path.joinAll path k) = true := by
  obtain ⟨-, hwalk, -⟩ := World.isDirectory_iff.mp h
  have hk := isName_below ht hfile
  have hslash : ∀ n ∈ k, '/' ∉ n := fun n hn => (hk n hn).noSlash
  have hpath := Path.joinAll_ne_nil hk hne path
  have hend := Path.endsWith_joinAll hk hne path
  have hspot := spot_joinAll hk w.current path
  have hway : w.tree.walk [] (Tree.namesOf w.current (Path.joinAll path k)) =
      .ok (spot w.current (Path.joinAll path k)) := by
    rw [Tree.walk_namesOf _ hpath hend, filter_namesOf, Path.isAbsolute_joinAll hslash,
      Path.names_joinAll hslash, filter_of_isName hk, ← List.append_assoc, ← filter_namesOf, hspot]
    exact Tree.walk_append_eq_ok.mpr
      ⟨_, Tree.walk_filter_of_ok hwalk, ht.grounded.walk_of_get? hk (by rw [hfile]; rfl)⟩
  have hfind := Tree.find_eq_ok.mpr ⟨hpath, hway, hspot ▸ hfile⟩
  rw [World.isFile, World.node?, hfind]
  rfl

theorem PackedAs.mem (ht : w.tree.Sound) (h : PackedAs walk w path files) (hfile : file ∈ files) :
    file = path ∧ w.isDirectory path = false ∨ w.isFile file = true := by
  cases h with
  | itself hnot => exact .inl ⟨by simpa using hfile, hnot⟩
  | below hdirectory hfiles =>
    obtain ⟨k, content, hne, rfl, hget, -⟩ := (hfiles.mem_iff file).mp hfile
    exact .inr (isFile_joinAll ht hdirectory hne hget)

abbrev Walk.everywhere (walk : Walk) : Walk := { walk with unlisted := [] }

theorem Walk.reaches_everywhere (walk : Walk) (l k : Location) :
    walk.everywhere.reaches l k = true :=
  reaches_iff.mpr fun _ _ _ => List.not_mem_nil

theorem listed_sublist (walk : Walk) (w : World) (path : Text) :
    (listed walk w path).Sublist (listed walk.everywhere w path) := by
  rw [listed, listed]
  split_ifs
  · refine List.Sublist.map _ ?_
    rw [List.filter_eq_self.mpr fun k _ => reaches_everywhere walk _ k]
    exact List.filter_sublist
  · exact .refl _

theorem listed_everywhere_iff (hd : w.tree.Distinct) :
    (listed walk w path).length = (listed walk.everywhere w path).length ↔
      ¬ Misses walk w path := by
  rw [Misses, listed, listed]
  cases w.isDirectory path with
  | false => simp
  | true =>
    simp only [if_true, true_and, List.length_map]
    rw [List.filter_eq_self (p := walk.everywhere.reaches _) |>.mpr
      fun k _ => reaches_everywhere walk _ k, List.length_filter_eq_length_iff]
    simp only [hd.mem_filesBelow_iff, reaches_iff]
    constructor
    · rintro h ⟨k, content, hne, hfile, hnot⟩
      exact hnot (h k ⟨hne, content, hfile⟩)
    · rintro h k ⟨hne, content, hfile⟩
      by_contra hnot
      exact h ⟨k, content, hne, hfile, hnot⟩

section

variable {α β : Type} {f g : α → List β}

theorem length_flatMap_le (h : ∀ x, (f x).length ≤ (g x).length) (xs : List α) :
    (xs.flatMap f).length ≤ (xs.flatMap g).length := by
  induction xs with
  | nil => exact le_rfl
  | cons x xs ih =>
    rw [List.flatMap_cons, List.flatMap_cons, List.length_append, List.length_append]
    exact Nat.add_le_add (h x) ih

theorem length_flatMap_eq_iff (h : ∀ x, (f x).length ≤ (g x).length) (xs : List α) :
    (xs.flatMap f).length = (xs.flatMap g).length ↔ ∀ x ∈ xs, (f x).length = (g x).length := by
  induction xs with
  | nil => simp
  | cons x xs ih =>
    have hx := h x
    have hxs := length_flatMap_le h xs
    rw [List.flatMap_cons, List.flatMap_cons, List.length_append, List.length_append,
      List.forall_mem_cons, ← ih]
    omega

end

theorem flatMap_listed_perm_iff (hd : w.tree.Distinct) :
    (paths.flatMap (listed walk w)).Perm (paths.flatMap (listed walk.everywhere w)) ↔
      ∀ path ∈ paths, ¬ Misses walk w path := by
  have hle := fun path => (listed_sublist walk w path).length_le
  rw [← forall₂_congr fun path _ => listed_everywhere_iff hd, ← length_flatMap_eq_iff hle]
  refine ⟨fun hperm => hperm.length_eq, fun hlen => ?_⟩
  have heq := (length_flatMap_eq_iff hle paths).mp hlen
  rw [List.flatMap_def, List.flatMap_def, List.map_congr_left fun path hpath =>
    (listed_sublist walk w path).eq_of_length (heq path hpath)]

theorem expand_perm (h : paths.Perm paths') : expand walk w paths = expand walk w paths' := by
  have hsort : (paths.flatMap (listed walk w)).mergeSort Text.ble =
      (paths'.flatMap (listed walk w)).mergeSort Text.ble :=
    Text.eq_mergeSort ((List.mergeSort_perm _ _).trans (h.flatMap_right _))
      (Text.pairwise_mergeSort _)
  rw [expand_eq, expand_eq, h.any_eq, hsort]

theorem pack_perm (h : paths.Perm paths') (archive : Text) (base : Option Text) (codec : Codec)
    (w : World) : pack walk archive paths base codec w = pack walk archive paths' base codec w := by
  rw [pack, pack, get_bind, get_bind, expand_perm h]

theorem call_perm {verbose : Bool} {archive : Text} {base : Option Text} {codec : Codec}
    {arguments arguments' : List Text} (h : paths.Perm paths')
    (ha : Order.ofArguments arguments = .ok ⟨verbose, .pack archive paths base codec⟩)
    (ha' : Order.ofArguments arguments' = .ok ⟨verbose, .pack archive paths' base codec⟩)
    (w : World) : call arguments w walk = call arguments' w walk := by
  rw [call, call, ha, ha']
  dsimp only [fulfil]
  rw [pack_perm h]

/-- The files that are packed are the sorted ones of all arguments, those of a directory in
whichever order it is walked. Nothing is lost just when no file is in a directory that the system
does not list, or below one, and there are levels enough. In any case the order of the arguments
does not matter: the archive, the output and the exit are the same, or the fault. -/
theorem pack_order_independent (ht : w.tree.Sound) (hd : w.tree.Distinct) (walk : Walk)
    (paths : List Text) :
    ((∃ path ∈ paths, TooDeep walk w path) ∧ expand walk w paths = .error .nestedTooDeep ∨
      (∀ path ∈ paths, ¬ TooDeep walk w path) ∧
      ∃ files, expand walk w paths = .ok files ∧ files.Pairwise InOrder ∧
        (∀ file ∈ files, file ∈ paths ∧ w.isDirectory file = false ∨ w.isFile file = true) ∧
        (∀ listings, List.Forall₂ (PackedAs walk w) paths listings →
          files.Perm listings.flatten) ∧
        ((∀ listings, List.Forall₂ (PackedAs { walk with unlisted := [] } w) paths listings →
          files.Perm listings.flatten) ↔ ∀ path ∈ paths, ¬ Misses walk w path)) ∧
    (∀ unlisted, ∃ listings,
      List.Forall₂ (PackedAs { walk with unlisted } w) paths listings) ∧
    ∀ paths', paths'.Perm paths →
      expand walk w paths' = expand walk w paths ∧
      (∀ archive base codec,
        pack walk archive paths' base codec w = pack walk archive paths base codec w) ∧
      ∀ arguments arguments' verbose archive base codec,
        Order.ofArguments arguments = .ok ⟨verbose, .pack archive paths base codec⟩ →
        Order.ofArguments arguments' = .ok ⟨verbose, .pack archive paths' base codec⟩ →
        call arguments' w walk = call arguments w walk := by
  refine ⟨?_, fun unlisted => ⟨_, forall₂_listed ht hd _ paths⟩, fun paths' hperm =>
    ⟨expand_perm hperm, fun archive base codec => pack_perm hperm archive base codec w,
      fun arguments arguments' verbose archive base codec ha ha' => call_perm hperm ha' ha w⟩⟩
  have hany : paths.any (isTooDeep walk w) = true ↔ ∃ path ∈ paths, TooDeep walk w path := by
    simp only [List.any_eq_true, isTooDeep_iff hd]
  by_cases hdeep : ∃ path ∈ paths, TooDeep walk w path
  · exact .inl ⟨hdeep, by rw [expand_eq, if_pos (hany.mpr hdeep)]⟩
  · refine .inr ⟨fun path hpath htoo => hdeep ⟨path, hpath, htoo⟩, _,
      by rw [expand_eq, if_neg (mt hany.mp hdeep)], Text.pairwise_mergeSort _, ?_, ?_, ?_⟩
    · intro file hfile
      obtain ⟨path, hpath, hfile⟩ := List.mem_flatMap.mp ((List.mergeSort_perm _ _).mem_iff.mp hfile)
      exact ((packedAs_listed ht hd walk path).mem ht hfile).imp_left
        fun ⟨he, hnot⟩ => ⟨he ▸ hpath, he ▸ hnot⟩
    · exact fun listings hlistings =>
        (List.mergeSort_perm _ _).trans (flatten_perm ht hd hlistings).symm
    · rw [← flatMap_listed_perm_iff hd]
      constructor
      · intro h
        have hall := h _ (forall₂_listed ht hd walk.everywhere paths)
        rw [← List.flatMap_def] at hall
        exact (List.mergeSort_perm _ _).symm.trans hall
      · exact fun h listings hlistings =>
          ((List.mergeSort_perm _ _).trans h).trans (flatten_perm ht hd hlistings).symm

def nested : World :=
  { tree := ((((Tree.empty.insert ["d".toList] .directory).insert
      ["d".toList, "x".toList] .directory).insert
      ["d".toList, "x".toList, "a".toList] (.file [1])).insert
      ["d".toList, "b".toList] (.file [2])).insert ["e".toList] (.file [3]) }

theorem sound_nested : nested.tree.Sound := by
  have hroot : Tree.empty.get? [] = some .directory := rfl
  exact ((((Tree.sound_empty.insert [] "d".toList hroot (by decide) (by decide) _).insert
    ["d".toList] "x".toList (by decide) (by decide) (by decide) _).insert
    ["d".toList, "x".toList] "a".toList (by decide) (by decide) (by decide) _).insert
    ["d".toList] "b".toList (by decide) (by decide) (by decide) _).insert
    [] "e".toList (by decide) (by decide) (by decide) _

theorem distinct_nested : nested.tree.Distinct :=
  ((((Tree.distinct_empty.insert _ _).insert _ _).insert _ _).insert _ _).insert _ _

/-- Directories that overlap, a file, and something that is missing. -/
theorem pack_order_independent_nested :
    nested.tree.Sound ∧ nested.tree.Distinct ∧
    expand {} nested ["e".toList, "d".toList, "missing".toList, "d/x".toList] =
      .ok ["d/b".toList, "d/x/a".toList, "d/x/a".toList, "e".toList, "missing".toList] ∧
    call ["pack".toList, "--plain".toList, "o".toList, "d/x".toList, "missing".toList, "d".toList,
        "e".toList] nested =
      call ["pack".toList, "--plain".toList, "o".toList, "e".toList, "d".toList,
        "missing".toList, "d/x".toList] nested := by
  obtain ⟨-, -, hperm⟩ := pack_order_independent sound_nested distinct_nested {}
    ["e".toList, "d".toList, "missing".toList, "d/x".toList]
  have hsorted : ["d/b".toList, "d/x/a".toList, "d/x/a".toList, "e".toList,
      "missing".toList].Pairwise fun s t => ble s t = true := by decide
  refine ⟨sound_nested, distinct_nested, ?_, ?_⟩
  · rw [expand_eq, if_neg (by decide +kernel)]
    exact congrArg _ (Text.eq_mergeSort (by decide +kernel) (hsorted.imp ble_iff.mp)).symm
  · exact (hperm ["d/x".toList, "missing".toList, "d".toList, "e".toList] (by decide)).2.2 _ _ false
      "o".toList none .plain (by decide +kernel) (by decide +kernel)

/-- What is in a directory that is not listed is lost without a word, and so is what the archive
has held before when it stands below a directory that is packed into it. -/
theorem pack_passes_over :
    (nested.isDirectory "d".toList = true ∧ nested.isFile "d/x/a".toList = true ∧
      expand { unlisted := [["d".toList, "x".toList]] } nested ["d".toList] =
        .ok ["d/b".toList] ∧
      (call ["pack".toList, "--plain".toList, "o".toList, "d".toList] nested
        { unlisted := [["d".toList, "x".toList]] }).outcome = .ok 0) ∧
    nested.tree.get? ["d".toList, "b".toList] = some (.file [2]) ∧
    let report := call ["pack".toList, "--plain".toList, "d/b".toList, "d".toList] nested
    report.outcome = .ok 0 ∧
      report.world.tree.get? ["d".toList, "b".toList] =
        some (.file (Archiver.pack .plain [⟨"d/b".toList, []⟩, ⟨"d/x/a".toList, [1]⟩])) := by
  have hnested : { nested with memo := [], journal := [] } = nested := rfl
  refine ⟨?_, rfl, ?_⟩
  · have hexpand : expand { unlisted := [["d".toList, "x".toList]] } nested ["d".toList] =
        .ok ["d/b".toList] := by
      rw [expand_eq, if_neg (by decide +kernel)]
      exact congrArg _ (Text.eq_mergeSort (by decide +kernel) (List.pairwise_singleton _ _)).symm
    refine ⟨by decide +kernel, by decide +kernel, hexpand, ?_⟩
    have horder : Order.ofArguments ["pack".toList, "--plain".toList, "o".toList, "d".toList] =
        .ok ⟨false, .pack "o".toList ["d".toList] none .plain⟩ := by decide +kernel
    rw [call, hnested, horder]
    dsimp only [fulfil]
    rw [pack, get_bind, hexpand]
    decide +kernel
  · have hexpand : expand {} nested ["d".toList] = .ok ["d/b".toList, "d/x/a".toList] := by
      have hsorted : ["d/b".toList, "d/x/a".toList].Pairwise fun s t => ble s t = true := by decide
      rw [expand_eq, if_neg (by decide +kernel)]
      exact congrArg _ (Text.eq_mergeSort (by decide +kernel) (hsorted.imp ble_iff.mp)).symm
    have horder : Order.ofArguments ["pack".toList, "--plain".toList, "d/b".toList, "d".toList] =
        .ok ⟨false, .pack "d/b".toList ["d".toList] none .plain⟩ := by decide +kernel
    rw [call, hnested, horder]
    dsimp only [fulfil]
    rw [pack, get_bind, hexpand]
    decide +kernel

end CommandLine

end Rollout
