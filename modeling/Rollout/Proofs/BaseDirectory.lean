import Rollout.Proofs.StoredPath

namespace Rollout

open Text

namespace Path

def isSeparator (c : Char) : Bool := c = '/' || c = '\\'

def segments (p : Text) : List Text := (p.splitOnP isSeparator).filter fun name => !name.isEmpty

theorem segments_append_cons {c : Char} (hc : isSeparator c) (s t : Text) :
    segments (s ++ c :: t) = segments s ++ segments t := by
  rw [segments, List.splitOnP_append_cons s t hc, List.filter_append]
  rfl

theorem segments_cons {c : Char} (hc : isSeparator c) (t : Text) :
    segments (c :: t) = segments t := segments_append_cons hc [] t

theorem segments_of_name {name : Text} (hne : name ≠ []) (h : ∀ c ∈ name, isSeparator c = false) :
    segments name = [name] := by
  rw [segments, List.splitOnP_eq_singleton h]
  simp [hne]

theorem flatten_segments (p : Text) : (segments p).flatten = p.filter fun c => !isSeparator c := by
  rw [segments, List.flatten_filter_not_isEmpty]
  induction p with
  | nil => rfl
  | cons c p ih =>
    rw [List.splitOnP_cons_eq_if_modifyHead]
    by_cases hc : isSeparator c
    · simp [hc, ih]
    · obtain ⟨first, more, hp⟩ := List.exists_cons_of_ne_nil (List.splitOnP_ne_nil isSeparator p)
      rw [hp] at ih ⊢
      simpa [hc] using ih

/-- The parts are the names, but for an empty part at either end. -/
theorem splitSeparators_eq (p : Text) :
    (∃ ending, splitSeparators true p = segments p ++ ending ∧ (ending = [] ∨ ending = [[]])) ∧
    ∃ first more ending, p.splitOnP isSeparator = first :: more ∧
      splitSeparators false p = first :: (more.filter (fun name => !name.isEmpty) ++ ending) ∧
      (ending = [] ∨ ending = [[]]) := by
  induction p with
  | nil => exact ⟨⟨[[]], rfl, .inr rfl⟩, [], [], [], rfl, rfl, .inl rfl⟩
  | cons c p ih =>
    obtain ⟨⟨ending, htrue, hending⟩, first, more, ending', hp, hfalse, hending'⟩ := ih
    by_cases hc : isSeparator c
    · have hc' := hc
      rw [isSeparator] at hc'
      refine ⟨⟨ending, ?_, hending⟩, [], p.splitOnP isSeparator, ending, ?_, ?_, hending⟩
      · rw [splitSeparators, if_pos hc', if_pos rfl, htrue, segments_cons hc]
      · rw [List.splitOnP_cons_eq_if_modifyHead, if_pos hc]
      · rw [splitSeparators, if_pos hc', if_neg Bool.false_ne_true, htrue]
        rfl
    · have hc' := hc
      rw [isSeparator] at hc'
      have hsplit : (c :: p).splitOnP isSeparator = (c :: first) :: more := by
        rw [List.splitOnP_cons_eq_if_modifyHead, if_neg hc, hp]
        rfl
      refine ⟨⟨ending', ?_, hending'⟩, c :: first, more, ending', hsplit, ?_, hending'⟩
      · rw [splitSeparators, if_neg hc', hfalse, segments, hsplit]
        rfl
      · rw [splitSeparators, if_neg hc', hfalse]

theorem mem_segments {p name : Text} (h : name ∈ segments p) : name ≠ [] ∧ '/' ∉ name := by
  obtain ⟨⟨ending, hp, -⟩, -⟩ := splitSeparators_eq p
  refine ⟨by simpa using (List.mem_filter.mp h).2, ?_⟩
  exact (not_mem_of_mem_splitSeparators (hp ▸ List.mem_append_left ending h)).1

theorem segments_eq_nil_iff {p : Text} : segments p = [] ↔ p.all isSeparator := by
  have hflat := flatten_segments p
  constructor
  · intro h
    rw [h] at hflat
    simpa using hflat.symm
  · intro h
    rw [List.filter_eq_nil_iff.mpr (by simpa using h), List.flatten_eq_nil_iff] at hflat
    exact List.eq_nil_iff_forall_not_mem.mpr fun name hn => (mem_segments hn).1 (hflat name hn)

/-- No name goes from the end of `u` on into `v`. -/
def Apart (u v : Text) : Prop := ∀ a ∈ u.getLast?, ∀ b ∈ v.head?, isSeparator a ∨ isSeparator b

theorem segments_append_of_apart {u v : Text} (h : Apart u v) :
    segments (u ++ v) = segments u ++ segments v := by
  cases v with
  | nil => simp [segments]
  | cons b v =>
    cases u using List.reverseRecOn with
    | nil => rfl
    | append_singleton u a =>
      obtain ha | hb := h a (by simp) b (by simp)
      · rw [List.append_assoc, List.singleton_append, segments_append_cons ha,
          segments_append_cons ha]
        simp [segments]
      · rw [segments_append_cons hb, segments_cons hb]

theorem exists_first_name (v : Text) :
    ∃ name rest, v = name ++ rest ∧ (∀ c ∈ name, isSeparator c = false) ∧
      ∀ c ∈ rest.head?, isSeparator c := by
  induction v with
  | nil => exact ⟨[], [], rfl, by simp, by simp⟩
  | cons c v ih =>
    obtain ⟨name, rest, rfl, hname, hrest⟩ := ih
    by_cases hc : isSeparator c
    · exact ⟨[], c :: (name ++ rest), rfl, by simp, by simpa using hc⟩
    · exact ⟨c :: name, rest, rfl, by simpa [hc] using hname, hrest⟩

theorem exists_last_name (u : Text) :
    ∃ front name, u = front ++ name ∧ (∀ c ∈ name, isSeparator c = false) ∧
      ∀ c ∈ front.getLast?, isSeparator c := by
  induction u using List.reverseRecOn with
  | nil => exact ⟨[], [], rfl, by simp, by simp⟩
  | append_singleton u c ih =>
    obtain ⟨front, name, rfl, hname, hfront⟩ := ih
    by_cases hc : isSeparator c
    · exact ⟨front ++ name ++ [c], [], by simp, by simp, by simpa using hc⟩
    · refine ⟨front, name ++ [c], by simp, fun d hd => ?_, hfront⟩
      obtain hd | hd := List.mem_append.mp hd
      · exact hname d hd
      · rw [List.mem_singleton.mp hd]
        simpa using hc

/-- A name that goes across the cut is whole in the path and lacks its beginning behind the cut. -/
theorem segments_of_not_apart {u v : Text} (h : ¬Apart u v) :
    ∃ front name name' rest, name ≠ [] ∧ segments v = name' :: rest ∧
      segments (u ++ v) = front ++ (name ++ name') :: rest := by
  obtain ⟨front, name, rfl, hname, hfront⟩ := exists_last_name u
  obtain ⟨name', rest, rfl, hname', hrest⟩ := exists_first_name v
  have hapart : ∀ n, Apart n rest := fun n a _ b hb => .inr (hrest b hb)
  have hne : name ≠ [] := by
    rintro rfl
    rw [List.append_nil] at h
    exact h fun a ha b _ => .inl (hfront a ha)
  have hne' : name' ≠ [] := by
    rintro rfl
    exact h (hapart _)
  refine ⟨segments front, name, name', segments rest, hne, ?_, ?_⟩
  · rw [segments_append_of_apart (hapart _), segments_of_name hne' hname']
    rfl
  · have hwhole : ∀ c ∈ name ++ name', isSeparator c = false := fun c hc =>
      (List.mem_append.mp hc).elim (hname c) (hname' c)
    rw [List.append_assoc, segments_append_of_apart fun a ha b _ => .inl (hfront a ha),
      ← List.append_assoc, segments_append_of_apart (hapart _),
      segments_of_name (by simp [hne]) hwhole]
    rfl

/-- What is left behind a cut has all names but the first `n`. -/
theorem segments_eq_drop_iff {u v : Text} {n : Nat} (hn : n ≤ (segments (u ++ v)).length) :
    segments v = (segments (u ++ v)).drop n ↔ (segments u).length = n ∧ Apart u v := by
  constructor
  · intro h
    have hlen := congrArg List.length h
    rw [List.length_drop] at hlen
    by_cases hp : Apart u v
    · refine ⟨?_, hp⟩
      rw [segments_append_of_apart hp, List.length_append] at hn hlen
      omega
    · -- the rest and the names from the torn one on are ends of one list and equally long
      obtain ⟨front, name, name', rest, hne, hv, huv⟩ := segments_of_not_apart hp
      have hrest : segments v <:+ segments (u ++ v) := h ▸ List.drop_suffix _ _
      have htorn : (name ++ name') :: rest <:+ segments (u ++ v) := huv ▸ List.suffix_append _ _
      have heq := (List.suffix_of_suffix_length_le hrest htorn (by simp [hv])).eq_of_length
        (by simp [hv])
      rw [hv] at heq
      exact absurd (List.self_eq_append_left.mp (List.cons.inj heq).1) hne
  · rintro ⟨rfl, hp⟩
    rw [segments_append_of_apart hp, List.drop_left]

theorem isSeparator_iff {c : Char} : isSeparator c ↔ c.toNat = 0x2F ∨ c.toNat = 0x5C := by
  rw [isSeparator, Bool.or_eq_true, decide_eq_true_eq, decide_eq_true_eq, ← Char.toNat_inj,
    ← Char.toNat_inj]
  rfl

theorem le_lowerCode {n : Nat} (h : 0x80 ≤ n) : 0x61 ≤ lowerCode n := by
  have hrows : ∀ row ∈ lowerRows, 0x61 ≤ row.2.2.2 := by decide +kernel
  rw [lowerCode]
  split
  · next first last step image hrow =>
    have himage : 0x61 ≤ image := hrows _ (List.mem_of_find?_eq_some hrow)
    omega
  · omega

theorem isSeparator_toLower {c : Char} (h : c.toNat < 0x80) :
    isSeparator c.toLower = isSeparator c := by
  have hall : ∀ n < 0x80, isSeparator (Char.ofNat n).toLower = isSeparator (Char.ofNat n) := by
    decide
  simpa using hall c.toNat h

theorem isSeparator_ofNat_lowerCode {n : Nat} (h : 0x80 ≤ n) :
    isSeparator (Char.ofNat (lowerCode n)) = false := by
  have hle := le_lowerCode h
  rw [← Bool.not_eq_true, isSeparator_iff]
  by_cases hv : (lowerCode n).isValidChar
  · rw [Char.ofNat, dif_pos hv]
    change ¬(lowerCode n = 0x2F ∨ lowerCode n = 0x5C)
    omega
  · rw [Char.ofNat, dif_neg hv]
    decide

theorem lowerChar_of_isSeparator {c : Char} (hc : isSeparator c) (before after : Text) :
    lowerChar before c after = [c] := by
  rw [isSeparator, Bool.or_eq_true, decide_eq_true_eq, decide_eq_true_eq] at hc
  obtain rfl | rfl := hc <;> rfl

theorem lowerChar_head (before : Text) (c : Char) (after : Text) :
    ∃ d more, lowerChar before c after = d :: more ∧ isSeparator d = isSeparator c := by
  cases hc : isSeparator c with
  | true => exact ⟨c, [], lowerChar_of_isSeparator hc before after, hc⟩
  | false =>
    rw [lowerChar]
    split
    · next hn => exact ⟨_, _, rfl, (isSeparator_toLower hn).trans hc⟩
    · next hn =>
      split
      · exact ⟨_, _, rfl, by split <;> rfl⟩
      · split
        · exact ⟨_, _, rfl, rfl⟩
        · exact ⟨_, _, rfl, isSeparator_ofNat_lowerCode (Nat.le_of_not_lt hn)⟩

/-- Paths that begin alike have the same separators up to the first name. -/
theorem all_isSeparator_take {base full : Text} {before before' : Text}
    (h : lowerFrom before base <+: lowerFrom before' full) :
    (full.take base.length).all isSeparator = base.all isSeparator := by
  induction base generalizing full before before' with
  | nil => rfl
  | cons c base ih =>
    cases full with
    | nil =>
      have hlen := h.length_le
      have hpos := lowerFrom_length_pos before c base
      simp only [lowerFrom, List.length_nil] at hlen hpos
      omega
    | cons d full =>
      rw [lowerFrom, lowerFrom] at h
      have hcd : isSeparator d = isSeparator c := by
        obtain ⟨c', more, hlc, hc⟩ := lowerChar_head before c base
        obtain ⟨d', more', hld, hd⟩ := lowerChar_head before' d full
        rw [hlc, hld] at h
        rw [← hc, ← hd, (List.cons_prefix_cons.mp h).1]
      rw [List.length_cons, List.take_succ_cons, List.all_cons, List.all_cons, hcd]
      cases hc : isSeparator c with
      | false => rfl
      | true =>
        rw [lowerChar_of_isSeparator hc, lowerChar_of_isSeparator (hcd.trans hc)] at h
        rw [ih (List.cons_prefix_cons.mp h).2]

end Path

namespace Archiver

open Rollout.Path

theorem trimSlashes_append_slash (p : Text) : trimSlashes (p ++ ['/']) = trimSlashes p := by
  by_cases h : p.dropWhile (· = '/') = []
  · simp [trimSlashes, List.dropWhile_append, h]
  · simp [trimSlashes, List.dropWhile_append, h]

theorem trimSlashes_join_nil_cons (parts : List Text) :
    trimSlashes (Text.join ['/'] ([] :: parts)) = trimSlashes (Text.join ['/'] parts) := by
  cases parts with
  | nil => rfl
  | cons part parts =>
    rw [join_cons_cons]
    exact trimSlashes_cons _

theorem trimSlashes_join_concat_nil (parts : List Text) :
    trimSlashes (Text.join ['/'] (parts ++ [[]])) = trimSlashes (Text.join ['/'] parts) := by
  by_cases h : parts = []
  · rw [h]
    rfl
  · rw [join_append h (by simp), join_singleton, trimSlashes_append_slash]

theorem trimSlashes_join_parts (p : Text) :
    trimSlashes (Text.join ['/'] (parts p)) = Text.join ['/'] (segments p) := by
  -- it makes no difference whether the path begins behind a separator
  have hrun : trimSlashes (Text.join ['/'] (parts p)) =
      trimSlashes (Text.join ['/'] (splitSeparators true p)) := by
    cases p with
    | nil => rfl
    | cons c p =>
      rw [parts, splitSeparators, splitSeparators]
      split
      · exact trimSlashes_join_nil_cons _
      · rfl
  have hnames := trimSlashes_join_names fun name (hn : name ∈ segments p) => mem_segments hn
  obtain ⟨⟨ending, hp, rfl | rfl⟩, -⟩ := splitSeparators_eq p
  · rw [hrun, hp, List.append_nil, hnames]
  · rw [hrun, hp, trimSlashes_join_concat_nil, hnames]

theorem storedPath_eq (base full : Text) :
    storedPath base full = Text.join ['/'] (segments
      (if startsWith (lower full) (lower base) then full.drop base.length else full)) :=
  trimSlashes_join_parts _

def Inside (base full : Text) : Prop := (segments base).map lower <+: (segments full).map lower

instance (base full : Text) : Decidable (Inside base full) :=
  inferInstanceAs (Decidable (_ <+: _))

/-- The names behind those of the base directory for a file inside it, else all names. -/
def properNames (base full : Text) : List Text :=
  if Inside base full then (segments full).drop (segments base).length else segments full

/-- The base directory ends behind its own names in the path of a file inside it, and a file outside
it does not begin like it. -/
structure CutsAtBase (base full : Text) : Prop where
  outside : ¬Inside base full → ¬startsWith (lower full) (lower base)
  inside : Inside base full → segments base ≠ [] →
    startsWith (lower full) (lower base) ∧
      (segments (full.take base.length)).length = (segments base).length ∧
      Apart (full.take base.length) (full.drop base.length)

theorem mem_properNames {base full name : Text} (h : name ∈ properNames base full) :
    name ∈ segments full := by
  rw [properNames] at h
  split at h
  · exact List.mem_of_mem_drop h
  · exact h

theorem length_le_of_inside {base full : Text} (h : Inside base full) :
    (segments base).length ≤ (segments full).length := by
  simpa using h.length_le

theorem all_isSeparator_of_startsWith {base full : Text}
    (h : startsWith (lower full) (lower base)) :
    (full.take base.length).all isSeparator = base.all isSeparator :=
  all_isSeparator_take (List.isPrefixOf_iff_prefix.mp h)

theorem segments_drop_of_root {base full : Text} (h : startsWith (lower full) (lower base))
    (hbase : segments base = []) : segments (full.drop base.length) = segments full := by
  have htake : (full.take base.length).all isSeparator := by
    rw [all_isSeparator_of_startsWith h]
    exact segments_eq_nil_iff.mp hbase
  have hapart : Apart (full.take base.length) (full.drop base.length) := fun a ha _ _ =>
    .inl (List.all_eq_true.mp htake a (List.mem_of_mem_getLast? ha))
  conv_rhs => rw [← List.take_append_drop base.length full]
  rw [segments_append_of_apart hapart, segments_eq_nil_iff.mpr htake, List.nil_append]

theorem segments_drop_ne {base full : Text} (h : startsWith (lower full) (lower base))
    (hbase : segments base ≠ []) : segments (full.drop base.length) ≠ segments full := by
  intro heq
  have hflat := congrArg List.flatten heq
  rw [flatten_segments, flatten_segments] at hflat
  conv_rhs at hflat => rw [← List.take_append_drop base.length full, List.filter_append]
  have htake := List.self_eq_append_left.mp hflat
  apply hbase
  rw [segments_eq_nil_iff, ← all_isSeparator_of_startsWith h]
  simpa using htake

theorem storedPath_eq_iff (base full : Text) :
    storedPath base full = Text.join ['/'] (properNames base full) ↔
      segments (if startsWith (lower full) (lower base) then full.drop base.length else full) =
        properNames base full := by
  rw [storedPath_eq]
  constructor
  · intro h
    have hnames := congrArg Path.names h
    rwa [names_join_names fun name hn => mem_segments hn,
      names_join_names fun name hn => mem_segments (mem_properNames hn)] at hnames
  · intro h
    rw [h]

/-- A file is stored under its names behind those of the base directory when it is inside, else
under all its names, exactly when the base directory is cut off at its end. -/
theorem relativePath_eq_iff (a : Archiver) (w : World) (path : Text) :
    a.relativePath w path =
        Text.join ['/'] (properNames (a.baseIn w) (Path.absolute w.current path)) ↔
      CutsAtBase (a.baseIn w) (Path.absolute w.current path) := by
  rw [relativePath, storedPath_eq_iff]
  generalize a.baseIn w = base
  generalize Path.absolute w.current path = full
  by_cases hin : Inside base full
  · rw [properNames, if_pos hin]
    by_cases hbase : segments base = []
    · refine iff_of_true ?_ ⟨fun h => absurd hin h, fun _ h => absurd hbase h⟩
      rw [hbase, List.length_nil, List.drop_zero]
      split
      · next hstart => exact segments_drop_of_root hstart hbase
      · rfl
    · have hle := length_le_of_inside hin
      by_cases hstart : startsWith (lower full) (lower base)
      · have hcut := segments_eq_drop_iff (u := full.take base.length) (v := full.drop base.length)
          (n := (segments base).length) (by rwa [List.take_append_drop])
        rw [List.take_append_drop] at hcut
        rw [if_pos hstart, hcut]
        exact ⟨fun h => ⟨fun hout => absurd hin hout, fun _ _ => ⟨hstart, h⟩⟩,
          fun h => (h.inside hin hbase).2⟩
      · rw [if_neg hstart]
        refine iff_of_false (fun h => ?_) fun h => hstart (h.inside hin hbase).1
        have hlen := congrArg List.length h
        have hpos := List.length_pos_iff.mpr hbase
        rw [List.length_drop] at hlen
        omega
  · have hbase : segments base ≠ [] := fun h => hin (by simp [Inside, h])
    rw [properNames, if_neg hin]
    by_cases hstart : startsWith (lower full) (lower base)
    · rw [if_pos hstart]
      exact iff_of_false (segments_drop_ne hstart hbase) fun h => h.outside hin hstart
    · rw [if_neg hstart]
      exact iff_of_true rfl ⟨fun _ => hstart, fun h => absurd h hin⟩

/-- A file beside the base directory loses the beginning of its directory's name. -/
theorem relativePath_beside :
    Path.absolute ['/'] "/work/srcfoo/x".toList = "/work/srcfoo/x".toList ∧
    ¬Inside "/work/src".toList "/work/srcfoo/x".toList ∧
    Text.join ['/'] (properNames "/work/src".toList "/work/srcfoo/x".toList) =
      "work/srcfoo/x".toList ∧
    ({ base := some "/work/src".toList } : Archiver).relativePath {} "/work/srcfoo/x".toList =
      "foo/x".toList := by
  decide +kernel

/-- The dotted capital in the base has a lower-case form of two code points, so a file inside keeps
the second of them. -/
example :
    Inside "/\u0130".toList "/i\u0307/x".toList ∧
    Text.join ['/'] (properNames "/\u0130".toList "/i\u0307/x".toList) = "x".toList ∧
    storedPath "/\u0130".toList "/i\u0307/x".toList = "\u0307/x".toList := by
  decide +kernel

end Archiver

end Rollout
