import Mathlib.Data.List.Lex
import Mathlib.Order.Compare
import Rollout.Proofs.Numeral
import Rollout.Proofs.Path
import Rollout.Version.Metadata

namespace Rollout.Version

open Text Metadata

def IsDotted (t : Text) : Prop := ∀ c ∈ t, isVersionChar c

instance (t : Text) : Decidable (IsDotted t) :=
  decidable_of_iff (t.all isVersionChar = true) List.all_eq_true

def numbers (t : Text) : List Nat := (t.splitOn '.').map (Nat.ofDigitChars 10 · 0)

/-- The parts between the dots are the same, but for zeros that they begin with and for parts of
zeros at the end. -/
def SameButZeros (a b : Text) : Prop :=
  ∃ i j, ((a.splitOn '.').map (List.dropWhile (· = '0'))) ++ List.replicate i [] =
    ((b.splitOn '.').map (List.dropWhile (· = '0'))) ++ List.replicate j []

def significant : List Nat → Version
  | [] => []
  | m :: rest => if m = 0 ∧ significant rest = [] then [] else (m : Int) :: significant rest

theorem trimZeros_cons (m : Nat) (rest : List Nat) :
    trimZeros ((m :: rest).map Int.ofNat) = (m : Int) :: significant rest := by
  induction rest generalizing m with
  | nil => rfl
  | cons k rest ih =>
    have hrest := ih k
    rw [List.map_cons, trimZeros, hrest, significant]
    by_cases hzero : k = 0 ∧ significant rest = []
    · rw [if_pos hzero, hzero.1, hzero.2]
      rfl
    · rw [if_neg hzero]
      split
      next h =>
        obtain ⟨hk, hsig⟩ := List.cons.inj h
        exact absurd ⟨by exact_mod_cast hk, hsig⟩ hzero
      · rfl

theorem compare_cons (m k : Nat) (a b : Version) :
    compare ((m : Int) :: a) ((k : Int) :: b) =
      if m < k then .lt else if k < m then .gt else compare a b := by
  rw [compare]
  simp only [Int.ofNat_lt]

/-- The first number decides, and after it the rest. A list that has come to an end goes on with
zeros. -/
theorem compare_step (m k : Nat) (a b : Version) :
    compare (if m = 0 ∧ a = [] then [] else (m : Int) :: a)
        (if k = 0 ∧ b = [] then [] else (k : Int) :: b) =
      if m < k then .lt else if k < m then .gt else compare a b := by
  by_cases hm : m = 0 ∧ a = [] <;> by_cases hk : k = 0 ∧ b = []
  · obtain ⟨rfl, rfl⟩ := hm
    obtain ⟨rfl, rfl⟩ := hk
    rfl
  · obtain ⟨rfl, rfl⟩ := hm
    rw [if_pos ⟨rfl, rfl⟩, if_neg hk, compare]
    rcases Nat.eq_zero_or_pos k with rfl | hpos
    · obtain ⟨n, b, rfl⟩ := List.exists_cons_of_ne_nil fun hb => hk ⟨rfl, hb⟩
      rfl
    · rw [if_pos hpos]
  · obtain ⟨rfl, rfl⟩ := hk
    rw [if_neg hm, if_pos ⟨rfl, rfl⟩, compare, if_neg (Nat.not_lt_zero m)]
    rcases Nat.eq_zero_or_pos m with rfl | hpos
    · obtain ⟨n, a, rfl⟩ := List.exists_cons_of_ne_nil fun ha => hm ⟨rfl, ha⟩
      rfl
    · rw [if_pos hpos]
  · rw [if_neg hm, if_neg hk, compare_cons]

theorem significant_eq (a : List Nat) :
    significant a = if a.headD 0 = 0 ∧ significant a.tail = [] then []
      else (a.headD 0 : Int) :: significant a.tail := by
  cases a with
  | nil => rfl
  | cons m a => rfl

theorem rightpad_succ (n : Nat) (a : List Nat) :
    a.rightpad (n + 1) 0 = a.headD 0 :: a.tail.rightpad n 0 := by
  cases a with
  | nil => simp [List.rightpad, List.replicate_succ]
  | cons m a => simp [List.rightpad]

theorem cmp_cons (m k : Nat) (a b : List Nat) :
    cmp (m :: a) (k :: b) = if m < k then .lt else if k < m then .gt else cmp a b := by
  unfold cmp cmpUsing
  simp only [List.cons_lt_cons_iff]
  rcases Nat.lt_trichotomy m k with h | rfl | h
  · simp [h]
  · simp
  · simp [h, Nat.lt_asymm h, h.ne']

theorem cmp_eq_eq {a b : List Nat} : cmp a b = .eq ↔ a = b := by
  unfold cmp cmpUsing
  constructor
  · intro h
    split_ifs at h with hlt hgt
    exact List.le_antisymm (List.not_lt.mp hgt) (List.not_lt.mp hlt)
  · rintro rfl
    simp

theorem compare_significant {n : Nat} {a b : List Nat} (ha : a.length ≤ n) (hb : b.length ≤ n) :
    compare (significant a) (significant b) = cmp (a.rightpad n 0) (b.rightpad n 0) := by
  induction n generalizing a b with
  | zero =>
    obtain rfl : a = [] := List.length_eq_zero_iff.mp (Nat.le_zero.mp ha)
    obtain rfl : b = [] := List.length_eq_zero_iff.mp (Nat.le_zero.mp hb)
    rfl
  | succ n ih =>
    rw [significant_eq a, significant_eq b, compare_step, rightpad_succ, rightpad_succ, cmp_cons,
      ih (by rw [List.length_tail]; omega) (by rw [List.length_tail]; omega)]

theorem compare_trimZeros {n : Nat} {a b : List Nat} (ha : a ≠ []) (hb : b ≠ [])
    (hla : a.length ≤ n) (hlb : b.length ≤ n) :
    compare (trimZeros (a.map Int.ofNat)) (trimZeros (b.map Int.ofNat)) =
      cmp (a.rightpad n 0) (b.rightpad n 0) := by
  obtain ⟨m, a, rfl⟩ := List.exists_cons_of_ne_nil ha
  obtain ⟨k, b, rfl⟩ := List.exists_cons_of_ne_nil hb
  obtain ⟨n, rfl⟩ : ∃ k, n = k + 1 := ⟨n - 1, by simp at hla; omega⟩
  rw [trimZeros_cons, trimZeros_cons, compare_cons, rightpad_succ, rightpad_succ, cmp_cons,
    List.headD_cons, List.headD_cons, List.tail_cons, List.tail_cons,
    compare_significant (by simpa using hla) (by simpa using hlb)]

theorem compare_eq_eq {a b : Version} : compare a b = .eq ↔ a = b := by
  refine ⟨fun h => ?_, fun h => h ▸ compare_self a⟩
  induction a generalizing b with
  | nil =>
    cases b with
    | nil => rfl
    | cons k b => cases h
  | cons m a ih =>
    cases b with
    | nil => cases h
    | cons k b =>
      rw [compare] at h
      split_ifs at h with hlt hgt
      rw [ih h, Int.le_antisymm (Int.not_lt.mp hgt) (Int.not_lt.mp hlt)]

theorem isVersionChar_iff {c : Char} : isVersionChar c = true ↔ c.isDigit = true ∨ c = '.' := by
  simp [isVersionChar, Char.isDigit, Char.le_def]

theorem isBlank_of_isVersionChar {c : Char} (h : isVersionChar c) : isBlank c = false := by
  obtain h | rfl := isVersionChar_iff.mp h
  · obtain ⟨hlow, hhigh⟩ := toNat_of_isDigit h
    exact isBlank_of_range (by omega) (by omega)
  · decide

theorem IsDotted.isDigit {t part : Text} (h : IsDotted t) (hp : part ∈ t.splitOn '.') :
    ∀ c ∈ part, c.isDigit := by
  intro c hc
  refine (isVersionChar_iff.mp (h c ((part_of_mem_splitOn hp).subset hc))).resolve_right ?_
  rintro rfl
  exact not_mem_of_mem_splitOn hp hc

theorem parseParts_eq_ok {parts : List Text} {ns : List Int}
    (h : ∀ part ∈ parts, ∀ c ∈ part, c.isDigit) (hns : parseParts parts = .ok ns) :
    ns = parts.map fun part => Int.ofNat (Nat.ofDigitChars 10 part 0) := by
  induction parts generalizing ns with
  | nil =>
    cases hns
    rfl
  | cons part parts ih =>
    have hpart : parseInt part = .ok (Int.ofNat (Nat.ofDigitChars 10 part 0)) := by
      by_cases hne : part = []
      · subst hne
        cases hns
      · rw [parseParts, parseInt_of_isDigit hne (h part (by simp))] at hns
        rw [parseInt_of_isDigit hne (h part (by simp))]
        split_ifs at hns ⊢
        rfl
    rw [parseParts, hpart] at hns
    dsimp only at hns
    cases hrest : parseParts parts with
    | error e =>
      rw [hrest] at hns
      cases hns
    | ok more =>
      rw [hrest] at hns
      cases hns
      rw [List.map_cons, ← ih (fun p hp => h p (by simp [hp])) hrest]

theorem IsDotted.parse_eq {t : Text} {v : Version} (h : IsDotted t) (hv : parse t = .ok v) :
    v = trimZeros ((numbers t).map Int.ofNat) := by
  have htrim : trim t = t := trim_of_no_blank fun c hc => isBlank_of_isVersionChar (h c hc)
  rw [parse, htrim] at hv
  cases hparts : parseParts (t.splitOn '.') with
  | error e =>
    rw [hparts] at hv
    cases hv
  | ok ns =>
    rw [hparts] at hv
    cases hv
    rw [parseParts_eq_ok (fun part => h.isDigit) hparts, numbers, List.map_map]
    rfl

theorem numbers_ne_nil (t : Text) : numbers t ≠ [] := by
  simp [numbers, List.splitOn_ne_nil]

theorem numbers_append (t : Text) (i : Nat) :
    numbers t ++ List.replicate i 0 =
      (t.splitOn '.' ++ List.replicate i []).map (Nat.ofDigitChars 10 · 0) := by
  rw [List.map_append, List.map_replicate]
  rfl

/-- Parts of digits have the same numbers when they are the same after their leading zeros. -/
theorem map_ofDigitChars_inj {parts others : List Text}
    (h : ∀ part ∈ parts, ∀ c ∈ part, c.isDigit) (h' : ∀ part ∈ others, ∀ c ∈ part, c.isDigit) :
    parts.map (Nat.ofDigitChars 10 · 0) = others.map (Nat.ofDigitChars 10 · 0) ↔
      parts.map (List.dropWhile (· = '0')) = others.map (List.dropWhile (· = '0')) := by
  let numeral (n : Nat) : Text := if n = 0 then [] else Nat.toDigits 10 n
  have hbare {ps : List Text} (hps : ∀ part ∈ ps, ∀ c ∈ part, c.isDigit) :
      ps.map (List.dropWhile (· = '0')) = (ps.map (Nat.ofDigitChars 10 · 0)).map numeral := by
    rw [List.map_map]
    exact List.map_congr_left fun part hpart => dropWhile_zero_eq (hps part hpart)
  have hvalue (ps : List Text) : ps.map (Nat.ofDigitChars 10 · 0) =
      (ps.map (List.dropWhile (· = '0'))).map (Nat.ofDigitChars 10 · 0) := by
    rw [List.map_map]
    exact List.map_congr_left fun part _ => (ofDigitChars_dropWhile part).symm
  constructor
  · intro heq
    rw [hbare h, hbare h', heq]
  · intro heq
    rw [hvalue parts, hvalue others, heq]

theorem rightpad_eq_iff {a b : List Nat} {n : Nat} (ha : a.length ≤ n) (hb : b.length ≤ n) :
    a.rightpad n 0 = b.rightpad n 0 ↔
      ∃ i j, a ++ List.replicate i 0 = b ++ List.replicate j 0 := by
  refine ⟨fun h => ⟨_, _, h⟩, ?_⟩
  rintro ⟨i, j, h⟩
  have hlength := congrArg List.length h
  simp only [List.length_append, List.length_replicate] at hlength
  have hpad := congrArg (fun l => (l ++ List.replicate n 0).take n) h
  simp only [List.append_assoc, List.replicate_append_replicate] at hpad
  rw [List.take_append, List.take_append, List.take_of_length_le ha, List.take_of_length_le hb,
    List.take_replicate, List.take_replicate, Nat.min_eq_left (by omega),
    Nat.min_eq_left (by omega)] at hpad
  exact hpad

theorem IsDotted.compare_eq {a b : Text} {va vb : Version} (ha : IsDotted a) (hb : IsDotted b)
    (hva : parse a = .ok va) (hvb : parse b = .ok vb) {n : Nat} (hla : (numbers a).length ≤ n)
    (hlb : (numbers b).length ≤ n) :
    compare va vb = cmp ((numbers a).rightpad n 0) ((numbers b).rightpad n 0) := by
  rw [ha.parse_eq hva, hb.parse_eq hvb,
    compare_trimZeros (numbers_ne_nil a) (numbers_ne_nil b) hla hlb]

theorem IsDotted.eq_iff {a b : Text} {va vb : Version} (ha : IsDotted a) (hb : IsDotted b)
    (hva : parse a = .ok va) (hvb : parse b = .ok vb) : va = vb ↔ SameButZeros a b := by
  have hla := Nat.le_max_left (numbers a).length (numbers b).length
  have hlb := Nat.le_max_right (numbers a).length (numbers b).length
  rw [← compare_eq_eq, ha.compare_eq hb hva hvb hla hlb, cmp_eq_eq, rightpad_eq_iff hla hlb]
  refine exists_congr fun i => exists_congr fun j => ?_
  have hdigits {t : Text} (ht : IsDotted t) (k : Nat) :
      ∀ part ∈ t.splitOn '.' ++ List.replicate k [], ∀ c ∈ part, c.isDigit := by
    intro part hpart
    obtain hpart | hpart := List.mem_append.mp hpart
    · exact ht.isDigit hpart
    · obtain ⟨-, rfl⟩ := List.mem_replicate.mp hpart
      simp
  rw [numbers_append, numbers_append, map_ofDigitChars_inj (hdigits ha i) (hdigits hb j)]
  simp only [List.map_append, List.map_replicate, List.dropWhile_nil]

end Rollout.Version
