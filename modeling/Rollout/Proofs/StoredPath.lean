import Rollout.Archive
import Rollout.Proofs.FileSystem.Files

namespace Rollout

open Text Location

namespace Text

theorem isSkipped_slash : isSkipped '/' = false := by decide +kernel

theorem isCased_slash : isCased '/' = false := by decide +kernel

theorem nextToCased_slash (s t : Text) : nextToCased (s ++ '/' :: t) = nextToCased s := by
  induction s with
  | nil => simp [nextToCased, isSkipped_slash, isCased_slash]
  | cons c s ih => rw [List.cons_append, nextToCased, nextToCased, ih]

theorem lowerChar_slash (before : Text) (c : Char) (s t : Text) :
    lowerChar before c (s ++ '/' :: t) = lowerChar before c s := by
  rw [lowerChar, lowerChar, nextToCased_slash]

theorem lowerFrom_slash (before s t : Text) :
    lowerFrom before (s ++ '/' :: t) =
      lowerFrom before s ++ '/' :: lowerFrom ('/' :: (s.reverse ++ before)) t := by
  induction s generalizing before with
  | nil => rfl
  | cons c s ih =>
    rw [List.cons_append, lowerFrom, lowerFrom, lowerChar_slash, ih]
    simp

theorem startsWith_lower (s t : Text) : startsWith (lower (s ++ '/' :: t)) (lower s) := by
  rw [startsWith, List.isPrefixOf_iff_prefix, lower, lower, lowerFrom_slash]
  exact List.prefix_append _ _

theorem startsWith_lower_slash (s t : Text) :
    startsWith (lower (s ++ '/' :: t)) (lower (s ++ ['/'])) := by
  rw [startsWith, List.isPrefixOf_iff_prefix, lower, lower, lowerFrom_slash, lowerFrom_slash]
  exact ⟨_, by rw [List.append_assoc]; rfl⟩

theorem join_cons_cons (a b : Text) (rest : List Text) :
    Text.join ['/'] (a :: b :: rest) = a ++ '/' :: Text.join ['/'] (b :: rest) := by
  simp [Text.join, List.intercalate]

theorem join_singleton (a : Text) : Text.join ['/'] [a] = a := by simp [Text.join, List.intercalate]

theorem join_append {a b : List Text} (ha : a ≠ []) (hb : b ≠ []) :
    Text.join ['/'] (a ++ b) = Text.join ['/'] a ++ '/' :: Text.join ['/'] b := by
  obtain ⟨y, b, rfl⟩ := List.exists_cons_of_ne_nil hb
  induction a with
  | nil => exact absurd rfl ha
  | cons x a ih =>
    cases a with
    | nil => rw [List.singleton_append, join_cons_cons, join_singleton]
    | cons z a =>
      rw [List.cons_append, List.cons_append, join_cons_cons, ← List.cons_append, ih (by simp),
        join_cons_cons]
      simp

theorem exists_join_concat (names : List Text) (last : Text) :
    ∃ start, Text.join ['/'] (names ++ [last]) = start ++ last := by
  by_cases h : names = []
  · exact ⟨[], by rw [h, List.nil_append, join_singleton]; rfl⟩
  · exact ⟨Text.join ['/'] names ++ ['/'], by rw [join_append h (by simp), join_singleton]; simp⟩

end Text

namespace Path

theorem endsWith_append_of_not_mem {p : Text} (hp : p ≠ []) (h : '/' ∉ p) (start : Text) :
    endsWith (start ++ p) ['/'] = false := by
  by_contra he
  obtain ⟨r, hr⟩ := endsWith_iff.mp (by simpa using he)
  cases p using List.reverseRecOn with
  | nil => exact hp rfl
  | append_singleton p c =>
    rw [← List.append_assoc] at hr
    obtain rfl : '/' = c := by simpa using (List.append_inj' hr rfl).2
    simp at h

theorem pushComponent_eq {before : List Text} (h : dotDot ∉ before) (c : Text) :
    pushComponent true before c = (enter before.reverse c).reverse := by
  unfold pushComponent
  rw [enter, isStay]
  by_cases hs : (c.isEmpty || c = dot) = true
  · rw [if_pos hs, if_pos hs, List.reverse_reverse]
  · by_cases hd : c = dotDot
    · rw [if_neg hs, if_neg (by simpa using hd), if_neg hs, if_pos hd]
      cases before with
      | nil => rfl
      | cons last more =>
        have hl : last ≠ dotDot := fun he => h (by simp [he])
        simp [hl]
    · rw [if_neg hs, if_pos hd, if_neg hs, if_neg hd, List.reverse_append, List.reverse_reverse]
      rfl

theorem not_mem_enter {l : Location} (h : dotDot ∉ l) (c : Text) : dotDot ∉ enter l c := by
  rw [enter]
  split_ifs with h1 h2
  · exact h
  · exact fun hm => h (List.dropLast_subset l hm)
  · simpa [h] using fun he => h2 he.symm

theorem foldl_pushComponent (names : List Text) {before : List Text} (h : dotDot ∉ before) :
    names.foldl (pushComponent true) before = (follow before.reverse names).reverse := by
  induction names generalizing before with
  | nil => simp
  | cons name rest ih =>
    have hn : dotDot ∉ (enter before.reverse name).reverse := by
      simpa using not_mem_enter (by simpa using h) name
    rw [List.foldl_cons, pushComponent_eq h, ih hn, List.reverse_reverse, follow_cons]

theorem leadingSlashes_spec {p : Text} (h : isAbsolute p) :
    isAbsolute (leadingSlashes p) ∧ endsWith (leadingSlashes p) ['/'] ∧
      names (leadingSlashes p) = [] ∧ leadingSlashes (leadingSlashes p) = leadingSlashes p := by
  have hcases : leadingSlashes p = "//".toList ∨ leadingSlashes p = ['/'] := by
    rw [leadingSlashes, if_pos h]
    split
    · exact .inl rfl
    · exact .inr rfl
  rcases hcases with h | h <;> rw [h] <;> decide

theorem leadingSlashes_ne_nil {p : Text} (h : isAbsolute p) : leadingSlashes p ≠ [] := by
  intro hnil
  have ha := (leadingSlashes_spec h).1
  rw [hnil] at ha
  cases ha

theorem normalize_eq {p : Text} (h : isAbsolute p) :
    normalize p = leadingSlashes p ++ Text.join ['/'] (follow [] (names p)) := by
  have hr : (!(leadingSlashes p).isEmpty) = true := by simpa using leadingSlashes_ne_nil h
  rw [normalize, hr, foldl_pushComponent _ (by simp), List.reverse_reverse, List.reverse_nil,
    ← follow_filter, if_neg (by simp [leadingSlashes_ne_nil h])]
  rfl

theorem leadingSlashes_join {p q : Text} (hp : isAbsolute p) (hq : isAbsolute q = false) :
    leadingSlashes (Path.join p q) = leadingSlashes p := by
  have hq' : q.head? ≠ some '/' := by simpa [isAbsolute] using hq
  rw [Path.join, if_neg (by simp [hq])]
  -- what is added comes after the first three characters, or does not begin with a slash
  obtain _ | ⟨a, _ | ⟨b, _ | ⟨c, p⟩⟩⟩ := p
  · cases hp
  · obtain rfl : a = '/' := by simpa [isAbsolute] using hp
    cases q with
    | nil => rfl
    | cons d q =>
      have hd : d ≠ '/' := by simpa using hq'
      simp [leadingSlashes, startsWith, endsWith, isAbsolute, hd.symm]
  · obtain rfl : a = '/' := by simpa [isAbsolute] using hp
    by_cases hb : b = '/'
    · cases q with
      | nil => simp [hb, leadingSlashes, startsWith, endsWith]
      | cons d q =>
        have hd : d ≠ '/' := by simpa using hq'
        simp [hb, leadingSlashes, startsWith, endsWith, isAbsolute, hd.symm]
    · simp [leadingSlashes, startsWith, endsWith, isAbsolute, Ne.symm hb]
  · split <;> simp [leadingSlashes, startsWith, isAbsolute, List.isPrefixOf]

theorem leadingSlashes_joinAll {p : Text} {names : List Text} (hp : isAbsolute p)
    (h : ∀ n ∈ names, IsName n) : leadingSlashes (joinAll p names) = leadingSlashes p := by
  induction names generalizing p with
  | nil => rfl
  | cons name rest ih =>
    have hn : isAbsolute name = false := isAbsolute_of_not_mem (h name (by simp)).noSlash
    rw [joinAll_cons, ih (by rwa [isAbsolute_join hn]) fun n hm => h n (by simp [hm]),
      leadingSlashes_join hp hn]

theorem isAbsolute_full {current : Text} (hc : isAbsolute current) (p : Text) :
    isAbsolute (if isAbsolute p then p else Path.join current p) = true := by
  split
  · assumption
  · next hp => rwa [isAbsolute_join (by simpa using hp)]

theorem absolute_eq {current : Text} (hc : isAbsolute current) (p : Text) :
    absolute current p =
      leadingSlashes (if isAbsolute p then p else Path.join current p) ++
        Text.join ['/'] (spot current p) := by
  rw [absolute, spot_eq]
  by_cases hp : isAbsolute p = true
  · rw [if_pos hp, normalize_eq hp, origin, if_pos hp]
  · have hp : isAbsolute p = false := by simpa using hp
    rw [hp, if_neg (by simp), normalize_eq (by rwa [isAbsolute_join hp]), names_join hp, origin, hp,
      if_neg (by simp), follow_append]

theorem mem_follow {l : Location} {names : List Text} {n : Text} (h : n ∈ follow l names) :
    n ∈ l ∨ n ∈ names ∧ isStay n = false := by
  induction names generalizing l with
  | nil => exact .inl h
  | cons name rest ih =>
    obtain h | h := ih h
    · rw [enter] at h
      split_ifs at h with h1 h2
      · exact .inl h
      · exact .inl (List.dropLast_subset l h)
      · obtain h | h := List.mem_append.mp h
        · exact .inl h
        · obtain rfl : n = name := by simpa using h
          exact .inr ⟨by simp, by simpa using h1⟩
    · exact .inr ⟨by simp [h.1], h.2⟩

theorem mem_spot {current p n : Text} (h : n ∈ spot current p) : n ≠ [] ∧ '/' ∉ n := by
  obtain h | ⟨h, hs⟩ := mem_follow h
  · cases h
  · refine ⟨?_, ?_⟩
    · rintro rfl
      cases hs
    · rw [Tree.namesOf] at h
      split at h
      · exact not_mem_of_mem_components h
      · rcases List.mem_append.mp h with h | h <;> exact not_mem_of_mem_components h

theorem join_of_relative {q : Text} (h : isAbsolute q = false) (p : Text) :
    Path.join p q = if p = [] ∨ endsWith p ['/'] then p ++ q else p ++ '/' :: q := by
  simp [Path.join, h]

theorem exists_join_eq (p : Text) :
    ∃ start, ∀ q, isAbsolute q = false → Path.join p q = start ++ q := by
  by_cases hp : p = [] ∨ endsWith p ['/'] = true
  · exact ⟨p, fun q hq => by rw [join_of_relative hq, if_pos hp]⟩
  · exact ⟨p ++ ['/'], fun q hq => by rw [join_of_relative hq, if_neg hp]; simp⟩

section

variable {names : List Text}

theorem isAbsolute_join_names (h : ∀ n ∈ names, n ≠ [] ∧ '/' ∉ n) :
    isAbsolute (Text.join ['/'] names) = false := by
  cases names with
  | nil => rfl
  | cons name rest =>
    obtain ⟨hn, hs⟩ := h name (by simp)
    have ha := isAbsolute_of_not_mem hs
    cases rest with
    | nil => rwa [join_singleton]
    | cons next rest => rwa [join_cons_cons, isAbsolute_append hn]

theorem names_join_names (h : ∀ n ∈ names, n ≠ [] ∧ '/' ∉ n) :
    Path.names (Text.join ['/'] names) = names := by
  induction names with
  | nil => rfl
  | cons name rest ih =>
    obtain ⟨hn, hs⟩ := h name (by simp)
    cases rest with
    | nil => rw [join_singleton, names_of_not_mem hs, if_neg hn]
    | cons next rest =>
      rw [join_cons_cons, names_append, names_of_not_mem hs, if_neg hn,
        ih fun n hm => h n (by simp [hm])]
      rfl

theorem endsWith_join_names (h : ∀ n ∈ names, n ≠ [] ∧ '/' ∉ n) (hne : names ≠ []) (start : Text) :
    endsWith (start ++ Text.join ['/'] names) ['/'] = false := by
  cases names using List.reverseRecOn with
  | nil => exact absurd rfl hne
  | append_singleton names last =>
    obtain ⟨more, he⟩ := exists_join_concat names last
    obtain ⟨hl, hs⟩ := h last (by simp)
    rw [he, ← List.append_assoc]
    exact endsWith_append_of_not_mem hl hs _

variable (h : ∀ n ∈ names, IsName n) (hne : names ≠ [])

include h hne

/-- Names are put below a directory one by one or at once. -/
theorem joinAll_eq_join (p : Text) : joinAll p names = Path.join p (Text.join ['/'] names) := by
  induction names generalizing p with
  | nil => exact absurd rfl hne
  | cons name rest ih =>
    have hn := h name (by simp)
    have hr : ∀ n ∈ rest, IsName n := fun n hm => h n (by simp [hm])
    cases rest with
    | nil => rw [join_singleton]; rfl
    | cons next rest =>
      have ha := isAbsolute_of_not_mem hn.noSlash
      obtain ⟨start, hstart⟩ := exists_join_eq p
      rw [joinAll_cons, ih hr (by simp), join_cons_cons, hstart name ha,
        hstart _ (by rwa [isAbsolute_append hn.ne_nil]),
        join_of_relative (isAbsolute_join_names fun n hn => (hr n hn).plain),
        if_neg]
      · simp
      · simp [endsWith_append_of_not_mem hn.ne_nil hn.noSlash, hn.ne_nil]

theorem absolute_joinAll {current : Text} (hc : isAbsolute current) (p : Text) :
    absolute current (joinAll p names) = Path.join (absolute current p) (Text.join ['/'] names) := by
  have hs : ∀ q ∈ names, '/' ∉ q := fun q hq => (h q hq).noSlash
  have hroot : leadingSlashes (if isAbsolute (joinAll p names) then joinAll p names
      else Path.join current (joinAll p names)) =
        leadingSlashes (if isAbsolute p then p else Path.join current p) := by
    rw [isAbsolute_joinAll hs]
    split
    · next hp => exact leadingSlashes_joinAll hp h
    · next hp =>
      have hp : isAbsolute p = false := by simpa using hp
      rw [leadingSlashes_join hc hp, leadingSlashes_join hc (by rwa [isAbsolute_joinAll hs])]
  have ha := isAbsolute_full hc p
  rw [absolute_eq hc, absolute_eq hc, hroot, spot_joinAll h]
  generalize (if isAbsolute p then p else Path.join current p) = full at ha
  rw [join_of_relative (isAbsolute_join_names fun n hn => (h n hn).plain)]
  by_cases hspot : spot current p = []
  · have hslash := (leadingSlashes_spec ha).2.1
    rw [hspot, List.nil_append, if_pos (.inr (by simpa [Text.join] using hslash))]
    simp [Text.join]
  · rw [if_neg, join_append hspot hne]
    · simp
    · rw [endsWith_join_names (fun n hn => mem_spot hn) hspot]
      simp [leadingSlashes_ne_nil ha]

end

theorem endsWith_joinAll {names : List Text} (h : ∀ n ∈ names, IsName n) (hne : names ≠ [])
    (p : Text) : endsWith (joinAll p names) ['/'] = false := by
  obtain ⟨start, hstart⟩ := exists_join_eq p
  rw [joinAll_eq_join h hne, hstart _ (isAbsolute_join_names fun n hn => (h n hn).plain)]
  exact endsWith_join_names (fun n hn => (h n hn).plain) hne start

theorem joinAll_ne_nil {names : List Text} (h : ∀ n ∈ names, IsName n) (hne : names ≠ [])
    (p : Text) : joinAll p names ≠ [] := by
  intro hnil
  have hn := names_joinAll (fun q hq => (h q hq).noSlash) p
  rw [hnil, names_nil, filter_of_isName h] at hn
  exact hne (List.append_eq_nil_iff.mp hn.symm).2

theorem names_directory_joinAll {names : List Text} (h : ∀ n ∈ names, IsName n) (hne : names ≠ [])
    (p : Text) : Path.names (directory (joinAll p names)) = Path.names p ++ names.dropLast := by
  have hn := names_joinAll (fun q hq => (h q hq).noSlash) p
  rw [filter_of_isName h, names_directory, names_fileName,
    if_neg (fileName_ne_nil (joinAll_ne_nil h hne p) (endsWith_joinAll h hne p))] at hn
  have hd := congrArg List.dropLast hn
  rwa [List.dropLast_concat, List.dropLast_append_of_ne_nil hne] at hd

theorem names_absolute {current : Text} (hc : isAbsolute current) (p : Text) :
    Path.names (absolute current p) = spot current p := by
  have ha := isAbsolute_full hc p
  rw [absolute_eq hc]
  generalize (if isAbsolute p then p else Path.join current p) = full at ha
  obtain ⟨-, hends, hnone, -⟩ := leadingSlashes_spec ha
  rw [names_append_of_endsWith hends, hnone, List.nil_append,
    names_join_names fun n hn => mem_spot hn]

theorem isAbsolute_absolute {current : Text} (hc : isAbsolute current) (p : Text) :
    isAbsolute (absolute current p) = true := by
  have ha := isAbsolute_full hc p
  rw [absolute_eq hc, isAbsolute_append (leadingSlashes_ne_nil ha)]
  exact (leadingSlashes_spec ha).1

theorem dotDot_not_mem_follow {l : Location} (h : dotDot ∉ l) (names : List Text) :
    dotDot ∉ follow l names := by
  induction names generalizing l with
  | nil => exact h
  | cons name rest ih => exact ih (not_mem_enter h name)

theorem spot_absolute {current : Text} (hc : isAbsolute current) (p : Text) :
    spot current (absolute current p) = spot current p := by
  rw [spot_eq, origin, if_pos (isAbsolute_absolute hc p), names_absolute hc]
  refine follow_of_proper (fun n hn => ⟨?_, ?_⟩) []
  · obtain h | h := mem_follow hn
    · cases h
    · exact h.2
  · rintro rfl
    exact dotDot_not_mem_follow (by simp) _ hn

theorem absolute_absolute {current : Text} (hc : isAbsolute current) (p : Text) :
    absolute current (absolute current p) = absolute current p := by
  have ha := isAbsolute_full hc p
  rw [absolute_eq hc (absolute current p), spot_absolute hc, if_pos (isAbsolute_absolute hc p),
    absolute_eq hc p]
  generalize (if isAbsolute p then p else Path.join current p) = full at ha
  obtain ⟨hroot, hends, -, hsame⟩ := leadingSlashes_spec ha
  have hrel := isAbsolute_join_names fun n (hn : n ∈ spot current p) => mem_spot hn
  have hjoin : leadingSlashes full ++ Text.join ['/'] (spot current p) =
      Path.join (leadingSlashes full) (Text.join ['/'] (spot current p)) := by
    rw [join_of_relative hrel, if_pos (.inr hends)]
  rw [hjoin, leadingSlashes_join hroot hrel, hsame, ← hjoin]

theorem splitSeparators_name {name : Text} (hne : name ≠ []) (hs : '/' ∉ name) (hb : '\\' ∉ name)
    (inRun : Bool) :
    splitSeparators inRun name = [name] ∧
      ∀ rest, splitSeparators inRun (name ++ '/' :: rest) = name :: splitSeparators true rest := by
  induction name generalizing inRun with
  | nil => exact absurd rfl hne
  | cons c name ih =>
    have hc : ¬(c = '/' || c = '\\') = true := by
      simp only [List.mem_cons, not_or] at hs hb
      simp [Ne.symm hs.1, Ne.symm hb.1]
    rw [splitSeparators, if_neg hc]
    by_cases hn : name = []
    · subst hn
      refine ⟨rfl, fun rest => ?_⟩
      rw [List.cons_append, splitSeparators, if_neg hc]
      rfl
    · obtain ⟨h1, h2⟩ := ih hn (fun h => hs (by simp [h])) (fun h => hb (by simp [h])) false
      refine ⟨by rw [h1], fun rest => ?_⟩
      rw [List.cons_append, splitSeparators, if_neg hc, h2]

theorem splitSeparators_join {names : List Text} (h : ∀ n ∈ names, IsName n)
    (hb : ∀ n ∈ names, '\\' ∉ n) (hne : names ≠ []) (inRun : Bool) :
    splitSeparators inRun (Text.join ['/'] names) = names := by
  induction names generalizing inRun with
  | nil => exact absurd rfl hne
  | cons name rest ih =>
    have hn := h name (by simp)
    obtain ⟨h1, h2⟩ := splitSeparators_name hn.ne_nil hn.noSlash (hb name (by simp)) inRun
    cases rest with
    | nil => rw [join_singleton, h1]
    | cons next rest =>
      rw [join_cons_cons, h2, ih (fun n hm => h n (by simp [hm])) (fun n hm => hb n (by simp [hm]))
        (by simp)]

theorem parts_join {names : List Text} (h : ∀ n ∈ names, IsName n) (hb : ∀ n ∈ names, '\\' ∉ n)
    (hne : names ≠ []) : parts (Text.join ['/'] names) = names := splitSeparators_join h hb hne false

end Path

namespace Archiver

theorem trimSlashes_cons (p : Text) : trimSlashes ('/' :: p) = trimSlashes p := by
  simp [trimSlashes]

theorem trimSlashes_join_names {names : List Text} (h : ∀ n ∈ names, n ≠ [] ∧ '/' ∉ n) :
    trimSlashes (Text.join ['/'] names) = Text.join ['/'] names := by
  by_cases hne : names = []
  · subst hne
    rfl
  have hstart := Path.isAbsolute_join_names h
  have hend := Path.endsWith_join_names h hne []
  rw [List.nil_append] at hend
  generalize Text.join ['/'] names = p at hstart hend ⊢
  have hfirst : p.dropWhile (· = '/') = p := by
    cases p with
    | nil => rfl
    | cons c p =>
      have hc : c ≠ '/' := by simpa [Path.isAbsolute] using hstart
      simp [hc]
  have hlast : p.reverse.dropWhile (· = '/') = p.reverse := by
    cases p using List.reverseRecOn with
    | nil => rfl
    | append_singleton p c =>
      have hc : c ≠ '/' := by
        rintro rfl
        rw [Path.endsWith_iff.mpr ⟨p, rfl⟩] at hend
        cases hend
      simp [hc]
  rw [trimSlashes, hfirst, hlast, List.reverse_reverse]

/-- A file below the base directory is stored under its names. -/
theorem storedPath_join {base : Text} (hb : base ≠ []) {names : List Text}
    (h : ∀ n ∈ names, IsName n) (hs : ∀ n ∈ names, '\\' ∉ n) (hne : names ≠ []) :
    storedPath base (Path.join base (Text.join ['/'] names)) = Text.join ['/'] names := by
  have hparts := Path.splitSeparators_join h hs hne
  have htrim := trimSlashes_join_names fun n hn => (h n hn).plain
  have hcons : Text.join ['/'] ([] :: names) = '/' :: Text.join ['/'] names := by
    obtain ⟨name, rest, rfl⟩ := List.exists_cons_of_ne_nil hne
    rw [join_cons_cons]
    rfl
  rw [Path.join_of_relative (Path.isAbsolute_join_names fun n hn => (h n hn).plain)]
  by_cases he : endsWith base ['/'] = true
  · rw [if_pos (.inr he)]
    obtain ⟨r, rfl⟩ := Path.endsWith_iff.mp he
    rw [List.append_assoc, List.singleton_append, storedPath, if_pos (startsWith_lower_slash _ _),
      List.length_append, ← List.drop_drop, List.drop_left, List.length_singleton, List.drop_one,
      List.tail_cons, Path.parts, hparts, htrim]
  · rw [if_neg (by simp [hb, he]), storedPath, if_pos (startsWith_lower _ _), List.drop_left,
      Path.parts, Path.splitSeparators, if_pos (by simp), if_neg (by simp), hparts, hcons,
      trimSlashes_cons, htrim]

theorem relativePath_joinAll {a : Archiver} {w : World} {p : Text} (hc : Path.isAbsolute w.current)
    (ha : a.baseIn w = Path.absolute w.current p) {names : List Text}
    (h : ∀ n ∈ names, IsName n) (hs : ∀ n ∈ names, '\\' ∉ n) (hne : names ≠ []) :
    a.relativePath w (Path.joinAll p names) = Text.join ['/'] names := by
  have hbase : Path.absolute w.current p ≠ [] := by
    rw [Path.absolute_eq hc]
    simp [Path.leadingSlashes_ne_nil (Path.isAbsolute_full hc p)]
  rw [relativePath, ha, Path.absolute_joinAll h hne hc, storedPath_join hbase h hs hne]

end Archiver

end Rollout
