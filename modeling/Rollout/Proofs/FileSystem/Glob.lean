import Rollout.FileSystem.Glob
import Rollout.Proofs.FileSystem.Place

namespace Rollout

open Text

namespace Glob

theorem escape_nil : escape [] = [] := rfl

theorem escape_cons (c : Char) (t : Text) :
    escape (c :: t) = (if isMagic c then ['[', c, ']'] else [c]) ++ escape t := rfl

theorem escape_append (s t : Text) : escape (s ++ t) = escape s ++ escape t := List.flatMap_append

theorem escape_ne_nil {t : Text} (h : t ≠ []) : escape t ≠ [] := by
  cases t with
  | nil => exact absurd rfl h
  | cons c t =>
    rw [escape_cons]
    split <;> simp

theorem escape_of_not_isPattern {t : Text} (h : isPattern t = false) : escape t = t := by
  induction t with
  | nil => rfl
  | cons c t ih =>
    obtain ⟨hc, ht⟩ := Bool.or_eq_false_iff.mp ((List.any_cons).symm.trans h)
    rw [escape_cons, if_neg (by simp [hc]), ih ht]
    rfl

theorem isPattern_append (s t : Text) : isPattern (s ++ t) = (isPattern s || isPattern t) :=
  List.any_append

theorem isPattern_escape (t : Text) : isPattern (escape t) = isPattern t := by
  induction t with
  | nil => rfl
  | cons c t ih =>
    rw [escape_cons, isPattern_append, ih]
    by_cases hc : isMagic c
    · rw [if_pos hc]
      simp [isPattern, hc]
    · rw [if_neg hc]
      simp [isPattern]

theorem isHidden_escape (t : Text) : isHidden (escape t) = isHidden t := by
  cases t with
  | nil => rfl
  | cons c t =>
    rw [escape_cons]
    by_cases hc : isMagic c
    · rw [if_pos hc]
      have hdot : c ≠ '.' := by
        rintro rfl
        cases hc
      simp [isHidden, hdot]
    · rw [if_neg hc]
      rfl

theorem wildcardAt_of_not_isMagic {c : Char} (h : isMagic c = false) (t : Text) :
    wildcardAt (c :: t) = none := by
  simp only [isMagic, Bool.or_eq_false_iff, decide_eq_false_iff_not] at h
  rw [wildcardAt] <;> simp [h]

theorem wildcardAt_escaped {c : Char} (h : isMagic c) (t : Text) :
    wildcardAt ('[' :: c :: ']' :: t) = some (.oneOf false [(c, c)], 3) := by
  have hbang : c ≠ '!' := by
    rintro rfl
    cases h
  rw [wildcardAt]
  · simp [bracketed, ranges]
  · simpa using hbang

theorem admits_singleton {c d : Char} : (Wildcard.oneOf false [(c, c)]).admits d ↔ d = c := by
  have heq : d = c ↔ c.val ≤ d.val ∧ d.val ≤ c.val := by
    rw [Char.ext_iff, and_comm]
    exact UInt32.le_antisymm_iff
  rw [heq]
  simp [Wildcard.admits]

/-- An escaped character admits that character, and then what follows is to fit. -/
theorem fitsPieces_escape_cons (c : Char) (rest name : Text) :
    fitsPieces (occurrences wildcardAt 0 ((if isMagic c then ['[', c, ']'] else [c]) ++ rest)) name ↔
      ∃ more, name = c :: more ∧ fitsPieces (occurrences wildcardAt 0 rest) more := by
  by_cases hc : isMagic c
  · simp only [hc, if_true, List.cons_append, List.nil_append]
    rw [occurrences, wildcardAt_escaped hc]
    dsimp only
    rw [occurrences_skip]
    cases name with
    | nil => simp [fitsPieces]
    | cons d name => simp [fitsPieces, admits_singleton]
  · have hplain : isMagic c = false := by simpa using hc
    simp only [hplain, Bool.false_eq_true, if_false, List.cons_append, List.nil_append]
    rw [occurrences, wildcardAt_of_not_isMagic hplain]
    cases name with
    | nil => simp [fitsPieces]
    | cons d name => simp [fitsPieces]

theorem fits_escape {t name : Text} : fits (escape t) name ↔ name = t := by
  rw [fits]
  induction t generalizing name with
  | nil => simp [escape, occurrences, fitsPieces]
  | cons c t ih =>
    rw [escape_cons, fitsPieces_escape_cons]
    constructor
    · rintro ⟨more, rfl, h⟩
      rw [ih.mp h]
    · rintro rfl
      exact ⟨t, rfl, ih.mpr rfl⟩

theorem someEnd_iff {test : Text → Bool} {t : Text} :
    someEnd test t ↔ ∃ tail, tail <:+ t ∧ test tail := by
  induction t with
  | nil => simp [someEnd]
  | cons c t ih =>
    rw [someEnd, Bool.or_eq_true, ih]
    constructor
    · rintro (h | ⟨tail, htail, h⟩)
      · exact ⟨_, List.suffix_refl _, h⟩
      · exact ⟨tail, htail.trans (List.suffix_cons c t), h⟩
    · rintro ⟨tail, htail, h⟩
      obtain rfl | htail := List.suffix_cons_iff.mp htail
      · exact .inl h
      · exact .inr ⟨tail, htail, h⟩

theorem fits_star {ending name : Text} (h : isPattern ending = false) :
    fits ('*' :: ending) name ↔ ending <:+ name := by
  have hends : ∀ tail, fitsPieces (occurrences wildcardAt 0 ending) tail ↔ tail = ending := by
    intro tail
    rw [← fits_escape, fits, escape_of_not_isPattern h]
  rw [fits, occurrences, wildcardAt]
  dsimp only
  rw [occurrences_skip, List.drop_zero, fitsPieces, someEnd_iff]
  simp only [hends, exists_eq_right]

end Glob

namespace Path

variable {p q front name slashes : Text} {c : Char}

theorem ne_nil_of_isAbsolute (h : isAbsolute p) : p ≠ [] := by
  rintro rfl
  cases h

theorem splitLast_append_name (hfront : front = [] ∨ endsWith front ['/']) (hname : '/' ∉ name) :
    splitLast (front ++ name) = (front, name) := by
  have hkeep : ∀ d ∈ name.reverse, (decide (d ≠ '/')) = true := by
    intro d hd
    exact decide_eq_true (ne_of_mem_of_not_mem (List.mem_reverse.mp hd) hname)
  have hstop : front.reverse.takeWhile (· ≠ '/') = [] ∧
      front.reverse.dropWhile (· ≠ '/') = front.reverse := by
    obtain rfl | hend := hfront
    · exact ⟨rfl, rfl⟩
    · obtain ⟨start, rfl⟩ := endsWith_iff.mp hend
      simp
  rw [splitLast_eq, List.reverse_append, List.dropWhile_append_of_pos hkeep,
    List.takeWhile_append_of_pos hkeep, hstop.1, hstop.2]
  simp

theorem slashes_or_append (p : Text) :
    (∀ c ∈ p, c = '/') ∨
      ∃ front c slashes, c ≠ '/' ∧ (∀ s ∈ slashes, s = '/') ∧ p = front ++ c :: slashes := by
  obtain ⟨slashes, hp, hslashes⟩ := trimSlashes_append p
  cases h : trimSlashes p using List.reverseRecOn with
  | nil =>
    rw [h] at hp
    exact .inl (hp ▸ hslashes)
  | append_singleton front c =>
    by_cases hc : c = '/'
    · exact .inl (endsWith_trimSlashes (endsWith_iff.mpr ⟨front, by rw [h, hc]⟩))
    · refine .inr ⟨front, c, slashes, hc, hslashes, ?_⟩
      rwa [h, List.append_assoc] at hp

theorem trimSlashes_of_slashes (h : ∀ c ∈ p, c = '/') : trimSlashes p = p :=
  if_pos (by simpa using h)

theorem trimSlashes_concat (front : Text) (hc : c ≠ '/') (h : ∀ s ∈ slashes, s = '/') :
    trimSlashes (front ++ c :: slashes) = front ++ [c] := by
  have hall : ∀ s ∈ slashes.reverse, (decide (s = '/')) = true := by simpa using h
  rw [trimSlashes, if_neg (by simp [hc]), List.reverse_append, List.reverse_cons,
    List.append_assoc, List.dropWhile_append_of_pos hall]
  simp [hc]

theorem trimSlashes_ne_nil (h : p ≠ []) : trimSlashes p ≠ [] := by
  obtain hslashes | ⟨front, c, slashes, hc, hslashes, rfl⟩ := slashes_or_append p
  · rwa [trimSlashes_of_slashes hslashes]
  · simp [trimSlashes_concat front hc hslashes]

theorem isAbsolute_trimSlashes (h : isAbsolute p) : isAbsolute (trimSlashes p) := by
  obtain ⟨slashes, heq, -⟩ := trimSlashes_append p
  have hne := trimSlashes_ne_nil (ne_nil_of_isAbsolute h)
  rwa [heq, isAbsolute_append hne] at h

theorem directory_eq_self_iff : directory p = p ↔ ∀ c ∈ p, c = '/' := by
  constructor
  · intro h
    have hhead : (splitLast p).1 = p := by
      have hle := length_directory_le p
      have hprefix : (splitLast p).1 <+: p := ⟨_, splitLast_append p⟩
      rw [h] at hle
      exact hprefix.eq_of_length (Nat.le_antisymm hprefix.length_le hle)
    have htrim : trimSlashes p = p := by rwa [directory, hhead] at h
    obtain hnil | hend := splitLast_fst p
    · rw [hhead] at hnil
      simp [hnil]
    · exact endsWith_trimSlashes (by rwa [htrim, ← hhead])
  · intro h
    have hend : p = [] ∨ endsWith p ['/'] := by
      cases p using List.reverseRecOn with
      | nil => exact .inl rfl
      | append_singleton front c => exact .inr (endsWith_iff.mpr ⟨front, by rw [h c (by simp)]⟩)
    have hsplit := splitLast_append_name hend (List.not_mem_nil (a := '/'))
    rw [List.append_nil] at hsplit
    rw [directory, hsplit]
    exact trimSlashes_of_slashes h

theorem splitLast_join (hp : p ≠ []) (hq : '/' ∉ q) :
    splitLast (join p q) = (if endsWith p ['/'] then p else p ++ ['/'], q) := by
  rw [join, if_neg (by simp [isAbsolute_of_not_mem hq])]
  by_cases hend : endsWith p ['/']
  · rw [if_pos (by simp [hend]), if_pos hend, splitLast_append_name (.inr hend) hq]
  · rw [if_neg (by simp [hp, hend]), if_neg hend]
    have hslash := splitLast_append_name (.inr (endsWith_iff.mpr ⟨p, rfl⟩)) hq
    rwa [List.append_assoc] at hslash

theorem fileName_join (hp : p ≠ []) (hq : '/' ∉ q) : fileName (join p q) = q := by
  rw [fileName, splitLast_join hp hq]

theorem directory_join (hp : p ≠ []) (hq : '/' ∉ q) : directory (join p q) = trimSlashes p := by
  rw [directory, splitLast_join hp hq]
  dsimp only
  split
  · rfl
  · next hend =>
    cases p using List.reverseRecOn with
    | nil => exact absurd rfl hp
    | append_singleton front c =>
      have hc : c ≠ '/' := by
        rintro rfl
        exact hend (endsWith_iff.mpr ⟨front, rfl⟩)
      have hnone := trimSlashes_concat front hc (List.forall_mem_nil (· = '/'))
      have hone := trimSlashes_concat front hc (List.forall_mem_singleton.mpr (rfl : '/' = '/'))
      rw [hnone, List.append_assoc]
      exact hone

end Path

namespace Glob

variable {p : Text}

theorem mem_escape {t : Text} {c : Char} (h : c ∈ escape t) : c ∈ t ∨ c = '[' ∨ c = ']' := by
  obtain ⟨d, hd, hc⟩ := List.mem_flatMap.mp h
  by_cases hm : isMagic d
  · simp only [hm, if_true, List.mem_cons, List.not_mem_nil, or_false] at hc
    grind
  · simp only [hm] at hc
    grind

theorem not_mem_escape {t : Text} (h : '/' ∉ t) : '/' ∉ escape t := by
  intro hm
  obtain hm | hm | hm := mem_escape hm
  · exact h hm
  · cases hm
  · cases hm

theorem endsWith_escape {t : Text} (h : endsWith t ['/']) : endsWith (escape t) ['/'] := by
  obtain ⟨front, rfl⟩ := Path.endsWith_iff.mp h
  exact Path.endsWith_iff.mpr ⟨escape front, (escape_append front ['/']).symm⟩

theorem splitLast_escape (p : Text) :
    Path.splitLast (escape p) = (escape (Path.splitLast p).1, escape (Path.splitLast p).2) := by
  conv_lhs => rw [← Path.splitLast_append p, escape_append]
  refine Path.splitLast_append_name ?_ (not_mem_escape (Path.not_mem_splitLast_snd p))
  obtain hnil | hend := Path.splitLast_fst p
  · rw [hnil]
    exact .inl rfl
  · exact .inr (endsWith_escape hend)

theorem isPattern_of_slashes (h : ∀ c ∈ p, c = '/') : isPattern p = false := by
  refine List.any_eq_false.mpr fun c hc => ?_
  rw [h c hc]
  decide

theorem trimSlashes_escape (p : Text) :
    Path.trimSlashes (escape p) = escape (Path.trimSlashes p) := by
  obtain h | ⟨front, c, slashes, hc, hslashes, rfl⟩ := Path.slashes_or_append p
  · rw [escape_of_not_isPattern (isPattern_of_slashes h), Path.trimSlashes_of_slashes h,
      escape_of_not_isPattern (isPattern_of_slashes h)]
  · have hplain := escape_of_not_isPattern (isPattern_of_slashes hslashes)
    rw [Path.trimSlashes_concat front hc hslashes, escape_append, escape_append, escape_cons,
      escape_cons,
      hplain]
    by_cases hm : isMagic c
    · rw [if_pos hm]
      have htrim := Path.trimSlashes_concat (escape front ++ ['[', c]) (c := ']') (by decide)
        hslashes
      simpa [List.append_assoc, escape_nil] using htrim
    · rw [if_neg hm]
      exact Path.trimSlashes_concat _ hc hslashes

theorem directory_escape (p : Text) :
    Path.directory (escape p) = escape (Path.directory p) := by
  rw [Path.directory, splitLast_escape, trimSlashes_escape]
  rfl

theorem fileName_escape (p : Text) : Path.fileName (escape p) = escape (Path.fileName p) := by
  rw [Path.fileName, splitLast_escape]
  rfl

end Glob

namespace Tree

open Location Glob

variable {t : Tree} {current p d name part : Text} {l m : Location} {only : Bool}

theorem directory_of_walk {names : List Text} (h : t.walk l names = .ok m)
    (hm : t.get? m = some .directory) : t.get? l = some .directory := by
  cases names with
  | nil =>
    obtain rfl : l = m := Except.ok.inj h
    exact hm
  | cons name rest => exact (walk_cons_eq_ok.mp h).1

theorem walk_filter_iff {names : List Text} (hm : t.get? m = some .directory) :
    t.walk l (names.filter fun name => !name.isEmpty) = .ok m ↔ t.walk l names = .ok m := by
  refine ⟨fun h => ?_, walk_filter_of_ok⟩
  induction names generalizing l with
  | nil => exact h
  | cons name rest ih =>
    by_cases hname : name.isEmpty = true
    · rw [List.filter_cons_of_neg (by simp [hname])] at h
      have hstay : l.enter name = l := if_pos (isStay_of_isEmpty hname)
      refine walk_cons_eq_ok.mpr ⟨directory_of_walk h hm, ?_, hstay.symm ▸ ih h⟩
      rw [isStay_of_isEmpty hname]
      exact fun hfalse => absurd hfalse (by decide)
    · rw [List.filter_cons_of_pos (by simp [hname])] at h
      obtain ⟨hd, hlen, hrest⟩ := walk_cons_eq_ok.mp h
      exact walk_cons_eq_ok.mpr ⟨hd, hlen, ih hrest⟩

def Enters (t : Tree) (names : List Text) (l : Location) : Prop :=
  t.walk [] names = .ok l ∧ t.get? l = some .directory

theorem locate_iff_enters (t : Tree) (current : Text) (hp : Path.isAbsolute p) :
    t.locate current p = .ok l ∧ t.get? l = some .directory ↔ t.Enters (Path.names p) l := by
  rw [locate, if_neg (by simpa using Path.ne_nil_of_isAbsolute hp), namesOf, if_pos hp, Enters,
    Path.names]
  exact and_congr_left fun hl => (walk_filter_iff hl).symm

theorem find_iff_enters (t : Tree) (current : Text) (hp : Path.isAbsolute p) :
    t.find current p = .ok .directory ↔ ∃ l, t.Enters (Path.names p) l := by
  simp only [← locate_iff_enters t current hp]
  rw [find]
  cases t.locate current p with
  | error r => simp
  | ok l =>
    dsimp only
    cases h : t.get? l <;> simp [h]

theorem mem_names_iff : name ∈ t.names l ↔ (t.get? (l ++ [name])).isSome := by
  rw [names, List.mem_filterMap, get?, if_neg (by simp), List.lookup_isSome_iff]
  constructor
  · rintro ⟨e, he, hname⟩
    split at hname
    · next hl =>
      obtain ⟨front, hfront⟩ := List.getLast?_eq_some_iff.mp hname
      rw [hfront, List.dropLast_concat] at hl
      exact ⟨e, he, by simp [hfront, hl]⟩
    · cases hname
  · rintro ⟨e, he, hkey⟩
    refine ⟨e, he, ?_⟩
    rw [← beq_iff_eq.mp hkey, List.dropLast_concat, if_pos rfl, List.getLast?_concat]

theorem mem_namesFitting_iff (hd : Path.isAbsolute d) :
    name ∈ t.namesFitting current only d part ↔
      ∃ l, t.Enters (Path.names d) l ∧ (t.get? (l ++ [name])).isSome ∧
        (only → t.isDirectory (l ++ [name])) ∧ (isHidden name → isHidden part) ∧ fits part name := by
  simp only [← locate_iff_enters t current hd]
  rw [namesFitting, if_neg (by simpa using Path.ne_nil_of_isAbsolute hd)]
  cases t.locate current d with
  | error r => simp
  | ok l =>
    dsimp only
    by_cases hl : t.get? l = some .directory
    · have hdir : t.isDirectory l = true := by simp [isDirectory, hl]
      rw [if_pos hdir]
      simp only [List.mem_filter, mem_names_iff, Bool.and_eq_true, Bool.or_eq_true,
        Bool.not_eq_true', Except.ok.injEq]
      constructor
      · rintro ⟨hname, ⟨hdirectory, hhidden⟩, hfits⟩
        refine ⟨l, ⟨rfl, hl⟩, hname, fun honly => ?_, fun hh => ?_, hfits⟩
        · simpa [honly] using hdirectory
        · simpa [hh] using hhidden
      · rintro ⟨_, ⟨rfl, -⟩, hname, hdirectory, hhidden, hfits⟩
        refine ⟨hname, ⟨?_, ?_⟩, hfits⟩
        · cases only with
          | false => exact .inl rfl
          | true => exact .inr (hdirectory rfl)
        · cases hh : isHidden name with
          | false => exact .inr rfl
          | true => exact .inl (hhidden hh)
    · have hdir : t.isDirectory l = false := by simpa [isDirectory] using hl
      rw [if_neg (by simp [hdir])]
      refine iff_of_false List.not_mem_nil ?_
      rintro ⟨_, ⟨hloc, hl'⟩, -⟩
      exact hl (Except.ok.inj hloc ▸ hl')

/-- Absolute paths that lead where a path leads. There are some if it leads to a directory. -/
structure Stand (t : Tree) (p : Text) (ds : List Text) : Prop where
  same : ∀ d ∈ ds, Path.isAbsolute d ∧ Path.names d = Path.names p
  some : ∀ l, t.Enters (Path.names p) l → ds ≠ []

theorem stand_singleton (hp : Path.isAbsolute p) : t.Stand p [p] where
  same d hd := by
    obtain rfl := List.mem_singleton.mp hd
    exact ⟨hp, rfl⟩
  some _ _ := List.cons_ne_nil _ _

theorem enter_of_isPattern (h : isPattern name) (l : Location) : l.enter name = l ++ [name] := by
  obtain ⟨c, hc, hmagic⟩ := List.any_eq_true.mp h
  have hne : ∀ word : Text, isPattern word = false → name ≠ word := by
    rintro word hword rfl
    rw [h] at hword
    cases hword
  have hstay : isStay name = false := by
    simp [isStay, List.ne_nil_of_mem hc, hne Path.dot rfl]
  rw [enter, hstay, if_neg (by decide), if_neg (hne Path.dotDot rfl)]

/-- Only the name that is escaped is found, and it is found if it leads to a directory. -/
theorem mem_namesIn_escape {n : Text} (h : name ∈ t.namesIn current only d (escape n)) :
    name = n := by
  rw [namesIn, isPattern_escape] at h
  by_cases hpat : isPattern n
  · rw [if_pos hpat, namesFitting] at h
    split at h
    · cases h
    · split at h
      · have hfits := (List.mem_filter.mp h).2
        rw [Bool.and_eq_true] at hfits
        exact fits_escape.mp hfits.2
      · cases h
  · rw [if_neg hpat, escape_of_not_isPattern (by simpa using hpat)] at h
    split_ifs at h
    · exact List.mem_singleton.mp h
    · cases h
    · exact List.mem_singleton.mp h
    · cases h

theorem namesIn_escape {n : Text} (current : Text) (only : Bool) (hd : Path.isAbsolute d)
    (hn : '/' ∉ n) (h : t.Enters (Path.names d ++ Path.names n) l) :
    n ∈ t.namesIn current only d (escape n) := by
  rw [namesIn, isPattern_escape]
  by_cases hpat : isPattern n
  · have hne : n ≠ [] := by
      rintro rfl
      cases hpat
    obtain ⟨hwalk, hl⟩ := h
    rw [Path.names_of_not_mem hn, if_neg hne] at hwalk
    obtain ⟨k, hk, hlast⟩ := walk_append_eq_ok.mp hwalk
    obtain ⟨hkd, -, hend⟩ := walk_cons_eq_ok.mp hlast
    obtain rfl : k ++ [n] = l := by
      rw [enter_of_isPattern hpat] at hend
      exact Except.ok.inj hend
    rw [if_pos hpat, mem_namesFitting_iff hd]
    refine ⟨k, ⟨hk, hkd⟩, by rw [hl]; rfl, fun _ => by simp [isDirectory, hl], fun hh => ?_,
      fits_escape.mpr rfl⟩
    rwa [isHidden_escape]
  · rw [if_neg hpat, escape_of_not_isPattern (by simpa using hpat)]
    by_cases hempty : n = []
    · subst hempty
      have hfind := (find_iff_enters t current hd).mpr ⟨l, by simpa using h⟩
      simp [hfind]
    · have habs : Path.isAbsolute (Path.join d n) := by
        rwa [Path.isAbsolute_join (Path.isAbsolute_of_not_mem hn)]
      have hfind := (find_iff_enters t current habs).mpr
        ⟨l, by rwa [Path.names_join (Path.isAbsolute_of_not_mem hn)]⟩
      simp [hfind, hempty]

theorem glob_of_isPattern {pattern : Text} (t : Tree) (current : Text) (only : Bool)
    (h : isPattern pattern) (hd : Path.directory pattern ≠ [])
    (hne : Path.directory pattern ≠ pattern) :
    t.glob current only pattern =
      (if isPattern (Path.directory pattern) then t.glob current true (Path.directory pattern)
        else [Path.directory pattern]).flatMap fun d =>
          (t.namesIn current only d (Path.fileName pattern)).map (Path.join d) := by
  rw [glob]
  simp only [h, hne, hd, Bool.not_true, Bool.false_eq_true, if_false, List.isEmpty_iff, ne_eq,
    not_false_eq_true, true_and, dite_eq_ite]

theorem directory_ne_self_of_isPattern (h : isPattern p) : Path.directory p ≠ p := by
  intro hp
  rw [isPattern_of_slashes (Path.directory_eq_self_iff.mp hp)] at h
  cases h

/-- The directories that an escaped path gives stand for the path. -/
theorem stand_escape (t : Tree) (current : Text) (hp : Path.isAbsolute p) :
    t.Stand p
      (if isPattern (escape p) then t.glob current true (escape p) else [escape p]) := by
  induction hlength : p.length using Nat.strongRecOn generalizing p with
  | ind n ih =>
    rw [isPattern_escape]
    by_cases hpat : isPattern p
    · have hescape : isPattern (escape p) := by rwa [isPattern_escape]
      have hne := directory_ne_self_of_isPattern hpat
      have hnil : Path.directory p ≠ [] := Path.directory_ne_nil hp
      have habs : Path.isAbsolute (Path.directory p) := by rwa [Path.isAbsolute_directory hnil]
      have hpart : Path.isAbsolute (Path.fileName p) = false :=
        Path.isAbsolute_of_not_mem (Path.not_mem_splitLast_snd p)
      have habove := ih _ (hlength ▸ Path.length_directory_lt hne) habs rfl
      have hglob := glob_of_isPattern t current true hescape
        (directory_escape p ▸ escape_ne_nil hnil) (directory_ne_self_of_isPattern hescape)
      rw [if_pos hpat, hglob, directory_escape, fileName_escape]
      refine ⟨fun path hpath => ?_, fun l hl => ?_⟩
      · obtain ⟨d, hd, hpath⟩ := List.mem_flatMap.mp hpath
        obtain ⟨name, hname, rfl⟩ := List.mem_map.mp hpath
        obtain rfl := mem_namesIn_escape hname
        obtain ⟨hdabs, hdnames⟩ := habove.same d hd
        rw [Path.isAbsolute_join hpart, Path.names_join hpart, hdnames, ← Path.names_directory]
        exact ⟨hdabs, rfl⟩
      · rw [Path.names_directory p] at hl
        obtain ⟨k, hk, hlast⟩ := walk_append_eq_ok.mp hl.1
        obtain ⟨d, hd⟩ := List.exists_mem_of_ne_nil _
          (habove.some k ⟨hk, directory_of_walk hlast hl.2⟩)
        obtain ⟨hdabs, hdnames⟩ := habove.same d hd
        rw [← hdnames] at hl
        have hmem := namesIn_escape current true hdabs
          (Path.not_mem_splitLast_snd p) hl
        exact List.ne_nil_of_mem
          (List.mem_flatMap.mpr ⟨d, hd, List.mem_map_of_mem (f := Path.join d) hmem⟩)
    · rw [if_neg hpat, escape_of_not_isPattern (by simpa using hpat)]
      exact stand_singleton hp

def HasFitting (t : Tree) (names : List Text) (only : Bool) (part : Text) : Prop :=
  ∃ l name, t.Enters names l ∧ (t.get? (l ++ [name])).isSome ∧
    (only → t.isDirectory (l ++ [name])) ∧ (isHidden name → isHidden part) ∧ fits part name

theorem Stand.ne_nil_iff {ds : List Text} (h : t.Stand p ds) (hpart : isPattern part) :
    (ds.flatMap fun d => (t.namesIn current only d part).map (Path.join d)) ≠ [] ↔
      t.HasFitting (Path.names p) only part := by
  constructor
  · intro hne
    obtain ⟨path, hpath⟩ := List.exists_mem_of_ne_nil _ hne
    obtain ⟨d, hd, hpath⟩ := List.mem_flatMap.mp hpath
    obtain ⟨name, hname, rfl⟩ := List.mem_map.mp hpath
    obtain ⟨habs, hnames⟩ := h.same d hd
    rw [namesIn, if_pos hpart, mem_namesFitting_iff habs, hnames] at hname
    obtain ⟨l, hl⟩ := hname
    exact ⟨l, name, hl⟩
  · rintro ⟨l, name, hl⟩
    obtain ⟨d, hd⟩ := List.exists_mem_of_ne_nil _ (h.some l hl.1)
    obtain ⟨habs, hnames⟩ := h.same d hd
    have hname : name ∈ t.namesIn current only d part := by
      rw [namesIn, if_pos hpart, mem_namesFitting_iff habs, hnames]
      exact ⟨l, hl⟩
    exact List.ne_nil_of_mem
      (List.mem_flatMap.mpr ⟨d, hd, List.mem_map_of_mem (f := Path.join d) hname⟩)

/-- Below an escaped directory, a pattern finds the entries of this directory that fit it. -/
theorem glob_join_escape (t : Tree) (current : Text) (only : Bool) (hp : Path.isAbsolute p)
    (hpart : isPattern part) (hslash : '/' ∉ part) :
    t.glob current only (Path.join (escape p) part) ≠ [] ↔
      t.HasFitting (Path.names p) only part := by
  have hne := Path.ne_nil_of_isAbsolute hp
  have hdirectory : Path.directory (Path.join (escape p) part) = escape (Path.trimSlashes p) := by
    rw [Path.directory_join (escape_ne_nil hne) hslash, trimSlashes_escape]
  have hname : Path.fileName (Path.join (escape p) part) = part :=
    Path.fileName_join (escape_ne_nil hne) hslash
  have hjoin : isPattern (Path.join (escape p) part) := by
    rw [← Path.splitLast_append (Path.join (escape p) part), isPattern_append, ← Path.fileName,
      hname, hpart, Bool.or_true]
  rw [glob_of_isPattern t current only hjoin
    (hdirectory ▸ escape_ne_nil (Path.trimSlashes_ne_nil hne))
    (directory_ne_self_of_isPattern hjoin), hdirectory, hname, ← Path.names_trimSlashes p]
  exact (stand_escape t current (Path.isAbsolute_trimSlashes hp)).ne_nil_iff hpart

end Tree

end Rollout
