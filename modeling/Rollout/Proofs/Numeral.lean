import Mathlib.Tactic.Common
import Rollout.Text.Integer

namespace Rollout.Text

def digitValue (c : Char) : Nat := c.toNat - '0'.toNat

theorem toNat_of_isDigit {c : Char} (h : c.isDigit) : 48 ≤ c.toNat ∧ c.toNat ≤ 57 := by
  simpa [Char.isDigit, UInt32.le_iff_toNat_le] using h

theorem digit?_of_isDigit {c : Char} (h : c.isDigit) : digit? c = some (digitValue c) := by
  obtain ⟨hlow, hhigh⟩ := toNat_of_isDigit h
  have hzero : (decide (0x30 ≤ c.toNat) && decide (c.toNat < 0x30 + 10)) = true := by
    simp only [Bool.and_eq_true, decide_eq_true_eq]
    omega
  have hfind : (zeros.find? fun z => z ≤ c.toNat && c.toNat < z + 10) = some 0x30 :=
    List.find?_cons_of_pos hzero
  rw [digit?, hfind]
  rfl

theorem lt_of_digit? {c : Char} {d : Nat} (h : digit? c = some d) : d < 10 := by
  obtain ⟨z, hz, rfl⟩ := Option.map_eq_some_iff.mp h
  have hrange := List.find?_some hz
  simp only [Bool.and_eq_true, decide_eq_true_eq] at hrange
  omega

theorem lt_of_mem_digitRun {found : List Nat} {gap : Bool} {t : Text} (h : ∀ d ∈ found, d < 10) :
    ∀ d ∈ (digitRun found gap t).1, d < 10 := by
  induction t generalizing found gap with
  | nil => exact h
  | cons c t ih =>
    unfold digitRun
    cases hc : digit? c with
    | some d =>
      refine ih fun e he => ?_
      obtain rfl | he := List.mem_cons.mp he
      · exact lt_of_digit? hc
      · exact h e he
    | none =>
      dsimp only
      split
      · exact ih h
      · exact h

theorem digitRun_of_isDigit {t : Text} (h : ∀ c ∈ t, c.isDigit) (found : List Nat) :
    digitRun found false t = ((t.map digitValue).reverse ++ found, false, []) := by
  induction t generalizing found with
  | nil => rfl
  | cons c t ih =>
    rw [digitRun, digit?_of_isDigit (h c (by simp))]
    dsimp only
    rw [ih fun d hd => h d (by simp [hd])]
    simp

theorem valueOfDigits_append (t : Text) (found : List Nat) :
    valueOfDigits ((t.map digitValue).reverse ++ found) =
      Nat.ofDigitChars 10 t (valueOfDigits found) := by
  induction t generalizing found with
  | nil => rfl
  | cons c t ih =>
    have hvalue : valueOfDigits (digitValue c :: found) =
        10 * valueOfDigits found + (c.toNat - '0'.toNat) := by
      rw [valueOfDigits, digitValue, Nat.mul_comm]
    rw [Nat.ofDigitChars_cons, ← hvalue, ← ih]
    simp

/-- Leading zeros only make a numeral longer than the number needs. -/
theorem length_ofNat_valueOfDigits {ds : List Nat} (hne : ds ≠ []) (h : ∀ d ∈ ds, d < 10) :
    (ofNat (valueOfDigits ds)).length ≤ ds.length := by
  induction ds with
  | nil => exact absurd rfl hne
  | cons d more ih =>
    have hd : d < 10 := h d (by simp)
    have hone : (Nat.toDigits 10 d).length = 1 := by
      rw [Nat.toDigits_of_lt_base hd, List.length_singleton]
    rw [ofNat, valueOfDigits, Nat.mul_comm, List.length_cons]
    rcases Nat.eq_zero_or_pos (valueOfDigits more) with hzero | hpos
    · rw [hzero, Nat.mul_zero, Nat.zero_add, hone]
      omega
    · have hmore : more ≠ [] := by
        rintro rfl
        exact absurd hpos (by decide)
      have hlength : (Nat.toDigits 10 (valueOfDigits more)).length ≤ more.length :=
        ih hmore fun e he => h e (by simp [he])
      rw [← Nat.toDigits_append_toDigits (by decide) hpos hd, List.length_append, hone]
      omega

theorem digitChar_digitValue {c : Char} (h : c.isDigit) : Nat.digitChar (digitValue c) = c := by
  have hrange := toNat_of_isDigit h
  have hzero : '0'.toNat = 48 := rfl
  apply Char.toNat_inj.mp
  rw [Nat.toNat_digitChar_of_lt_ten (by rw [digitValue]; omega), digitValue]
  omega

theorem toDigits_ofDigitChars {t : Text} (h : ∀ c ∈ t, c.isDigit) {n : Nat} (hn : 0 < n) :
    Nat.toDigits 10 (Nat.ofDigitChars 10 t n) = Nat.toDigits 10 n ++ t := by
  induction t generalizing n with
  | nil => simp [Nat.ofDigitChars]
  | cons c t ih =>
    have hc : c.isDigit := h c (by simp)
    have hdigit : digitValue c < 10 := lt_of_digit? (digit?_of_isDigit hc)
    have hnext : Nat.toDigits 10 n ++ [c] = Nat.toDigits 10 (10 * n + digitValue c) := by
      rw [← Nat.toDigits_append_toDigits (by decide) hn hdigit, Nat.toDigits_of_lt_base hdigit,
        digitChar_digitValue hc]
    have hrest := ih (fun d hd => h d (by simp [hd])) (n := 10 * n + digitValue c) (by omega)
    rw [Nat.ofDigitChars_cons]
    refine hrest.trans ?_
    rw [← hnext, List.append_assoc, List.singleton_append]

theorem ofDigitChars_dropWhile (t : Text) :
    Nat.ofDigitChars 10 (t.dropWhile (· = '0')) 0 = Nat.ofDigitChars 10 t 0 := by
  induction t with
  | nil => rfl
  | cons c t ih =>
    by_cases hc : c = '0'
    · rw [List.dropWhile_cons_of_pos (by simpa using hc), ih, hc, Nat.ofDigitChars_cons]
      rfl
    · rw [List.dropWhile_cons_of_neg (by simpa using hc)]

/-- What follows the leading zeros is the numeral of the number, and nothing for zero. -/
theorem dropWhile_zero_eq {t : Text} (h : ∀ c ∈ t, c.isDigit) :
    t.dropWhile (· = '0') =
      if Nat.ofDigitChars 10 t 0 = 0 then [] else Nat.toDigits 10 (Nat.ofDigitChars 10 t 0) := by
  rw [← ofDigitChars_dropWhile t]
  cases ht : t.dropWhile (· = '0') with
  | nil => rfl
  | cons c rest =>
    have hmem : ∀ d ∈ c :: rest, d.isDigit := fun d hd =>
      h d ((List.dropWhile_suffix _).subset (ht ▸ hd))
    have hc : c.isDigit := hmem c (by simp)
    have hdigit : digitValue c < 10 := lt_of_digit? (digit?_of_isDigit hc)
    have hne : c ≠ '0' := by
      have hhead := List.head?_dropWhile_not (· = '0') t
      rw [ht] at hhead
      simpa using hhead
    have hpos : 0 < digitValue c := by
      have hrange := toNat_of_isDigit hc
      have hzero : c.toNat ≠ '0'.toNat := fun he => hne (Char.toNat_inj.mp he)
      have hvalue : '0'.toNat = 48 := rfl
      rw [digitValue]
      omega
    have hcons : Nat.ofDigitChars 10 (c :: rest) 0 = Nat.ofDigitChars 10 rest (digitValue c) := by
      rw [Nat.ofDigitChars_cons, Nat.mul_zero, Nat.zero_add]
      rfl
    have hdigits : Nat.toDigits 10 (Nat.ofDigitChars 10 (c :: rest) 0) = c :: rest := by
      rw [hcons, toDigits_ofDigitChars (fun d hd => hmem d (by simp [hd])) hpos,
        Nat.toDigits_of_lt_base hdigit, digitChar_digitValue hc, List.singleton_append]
    rw [if_neg, hdigits]
    intro hzero
    rw [hzero] at hdigits
    exact hne (List.cons.inj hdigits).1.symm

theorem isIntegerBlank_of_isDigit {c : Char} (h : c.isDigit) : isIntegerBlank c = false := by
  obtain ⟨hlow, hhigh⟩ := toNat_of_isDigit h
  rw [isIntegerBlank, if_pos (by omega)]
  simp only [Bool.or_eq_false_iff, Bool.and_eq_false_imp, decide_eq_false_iff_not,
    decide_eq_true_eq]
  omega

/-- What is read from a sign and digits. -/
theorem parseInt_of_splitSign {t digits : Text} {negative : Bool}
    (hblank : t.dropWhile isIntegerBlank = t) (hsign : splitSign t = (negative, digits))
    (hne : digits ≠ []) (h : ∀ c ∈ digits, c.isDigit) :
    parseInt t =
      if digitLimit < digits.length then .error (.tooManyDigits digits.length)
      else .ok (if negative then -(Nat.ofDigitChars 10 digits 0 : Int)
        else (Nat.ofDigitChars 10 digits 0 : Int)) := by
  have hvalue := valueOfDigits_append digits []
  have hempty : ((digits.map digitValue).reverse ++ []).isEmpty = false := by
    simpa using hne
  have hlength : ((digits.map digitValue).reverse ++ []).length = digits.length := by
    simp
  rw [parseInt, hblank, hsign]
  dsimp only
  rw [digitRun_of_isDigit h]
  dsimp only
  rw [hempty, hlength, hvalue]
  rfl

theorem dropWhile_isIntegerBlank {t : Text} (h : ∀ c ∈ t.head?, isIntegerBlank c = false) :
    t.dropWhile isIntegerBlank = t := by
  cases t with
  | nil => rfl
  | cons c t => rw [List.dropWhile_cons_of_neg (by simpa using h c rfl)]

theorem splitSign_of_isDigit {t : Text} (h : ∀ c ∈ t, c.isDigit) : splitSign t = (false, t) := by
  unfold splitSign
  split
  · exact absurd (h '-' (by simp)) (by decide)
  · exact absurd (h '+' (by simp)) (by decide)
  · rfl

theorem parseInt_of_isDigit {digits : Text} (hne : digits ≠ []) (h : ∀ c ∈ digits, c.isDigit) :
    parseInt digits =
      if digitLimit < digits.length then .error (.tooManyDigits digits.length)
      else .ok (Nat.ofDigitChars 10 digits 0) := by
  have hblank : digits.dropWhile isIntegerBlank = digits :=
    dropWhile_isIntegerBlank fun c hc => isIntegerBlank_of_isDigit (h c (List.mem_of_mem_head? hc))
  exact parseInt_of_splitSign hblank (splitSign_of_isDigit h) hne h

theorem isDigit_of_mem_ofNat {n : Nat} {c : Char} (h : c ∈ ofNat n) : c.isDigit :=
  Nat.isDigit_of_mem_toDigits (by decide) (by decide) h

theorem ofNat_ne_nil (n : Nat) : ofNat n ≠ [] := Nat.toDigits_ne_nil

/-- What is printed for an integer is read as that integer. -/
theorem parseInt_ofInt {n : Int} (h : (ofNat n.natAbs).length ≤ digitLimit) :
    parseInt (ofInt n) = .ok n := by
  have hvalue (m : Nat) : Nat.ofDigitChars 10 (ofNat m) 0 = m :=
    Nat.ofDigitChars_toDigits (by decide) (by decide)
  cases n with
  | ofNat m =>
    have hlimit : ¬digitLimit < (ofNat m).length := Nat.not_lt.mpr h
    rw [ofInt, parseInt_of_isDigit (ofNat_ne_nil m) fun c => isDigit_of_mem_ofNat, if_neg hlimit,
      hvalue]
    rfl
  | negSucc m =>
    have hsign : splitSign ('-' :: ofNat (m + 1)) = (true, ofNat (m + 1)) := rfl
    have hlimit : ¬digitLimit < (ofNat (m + 1)).length := Nat.not_lt.mpr h
    rw [ofInt, parseInt_of_splitSign rfl hsign (ofNat_ne_nil _) fun c => isDigit_of_mem_ofNat,
      if_neg hlimit, hvalue]
    rfl

/-- Only integers within the limit are read. -/
theorem length_of_parseInt {t : Text} {n : Int} (h : parseInt t = .ok n) :
    (ofNat n.natAbs).length ≤ digitLimit := by
  have hdigits : ∀ d ∈ (digitRun [] false (splitSign (t.dropWhile isIntegerBlank)).2).1, d < 10 :=
    lt_of_mem_digitRun (by simp)
  rw [parseInt] at h
  dsimp only at h
  generalize digitRun [] false (splitSign (t.dropWhile isIntegerBlank)).2 = run at h hdigits
  by_cases hnone : (run.1.isEmpty || run.2.1) = true
  · rw [if_pos hnone] at h
    cases h
  rw [if_neg hnone] at h
  by_cases hlimit : digitLimit < run.1.length
  · rw [if_pos hlimit] at h
    cases h
  rw [if_neg hlimit] at h
  have hne : run.1 ≠ [] := by
    intro hempty
    simp [hempty] at hnone
  have habs : n.natAbs = valueOfDigits run.1 := by
    split_ifs at h <;> cases h <;> simp
  rw [habs]
  exact Nat.le_trans (length_ofNat_valueOfDigits hne hdigits) (Nat.not_lt.mp hlimit)

theorem trim_of_no_blank {t : Text} (h : ∀ c ∈ t, isBlank c = false) : trim t = t := by
  have hleft {u : Text} (hu : ∀ c ∈ u, isBlank c = false) : u.dropWhile isBlank = u := by
    cases u with
    | nil => rfl
    | cons c u => rw [List.dropWhile_cons_of_neg (by simp [hu c (by simp)])]
  rw [trim, trimLeft, hleft h, trimRight, hleft fun c hc => h c (List.mem_reverse.mp hc),
    List.reverse_reverse]

theorem isBlank_of_range {c : Char} (hlow : 0x21 ≤ c.toNat) (hhigh : c.toNat < 0x85) :
    isBlank c = false := by
  refine Bool.eq_false_iff.mpr fun h => ?_
  simp only [isBlank, blankBounds, within, Bool.or_eq_true, Bool.and_eq_true, decide_eq_true_eq,
    Bool.false_eq_true, or_false] at h
  omega

end Rollout.Text
