import Mathlib.Tactic.Common
import Rollout.Utf8

namespace Rollout.Utf8

theorem toNat_ofNat_of_lt {n : Nat} (h : n < 256) : (UInt8.ofNat n).toNat = n := by
  rw [UInt8.toNat_ofNat', Nat.mod_eq_of_lt h]

theorem continuation_cons {low high : UInt8} {more bits n : Nat} {rest : Bytes} (hn : n < 256)
    (hl : low.toNat ≤ n) (hh : n ≤ high.toNat) :
    continuation low high (more + 1) bits (UInt8.ofNat n :: rest) =
      ((continuation 0x80 0xBF more (bits * 64 + (n - 0x80)) rest).1,
        (continuation 0x80 0xBF more (bits * 64 + (n - 0x80)) rest).2 + 1) := by
  have h : (low ≤ UInt8.ofNat n && UInt8.ofNat n ≤ high) = true := by
    simp [UInt8.le_iff_toNat_le, toNat_ofNat_of_lt hn, hl, hh]
  rw [continuation, if_pos h, toNat_ofNat_of_lt hn]

theorem first_of_lead {n : Nat} {lead : Lead} {rest : Bytes} {m count : Nat}
    (hl : lead? (UInt8.ofNat n) = some lead)
    (hc : continuation lead.low lead.high lead.more lead.bits rest = (.ok m, count)) :
    first (UInt8.ofNat n) rest = (.ok (Char.ofNat m), count + 1) := by
  simp only [first, hl, hc]

theorem lead?_one {n : Nat} (h : n < 0x80) :
    lead? (UInt8.ofNat n) = some ⟨0, 0x80, 0xBF, n⟩ := by
  have hn : n < 256 := by omega
  simp [lead?, UInt8.lt_iff_toNat_lt, toNat_ofNat_of_lt hn, h]

theorem lead?_two {n : Nat} (hl : 0xC2 ≤ n) (hh : n < 0xE0) :
    lead? (UInt8.ofNat n) = some ⟨1, 0x80, 0xBF, n - 0xC0⟩ := by
  have hn : n < 256 := by omega
  simp [lead?, UInt8.lt_iff_toNat_lt, toNat_ofNat_of_lt hn, hh, show ¬ n < 0x80 by omega,
    show ¬ n < 0xC2 by omega]

theorem lead?_three {n : Nat} (hl : 0xE0 ≤ n) (hh : n < 0xF0) :
    lead? (UInt8.ofNat n) =
      some ⟨2, if n = 0xE0 then 0xA0 else 0x80, if n = 0xED then 0x9F else 0xBF, n - 0xE0⟩ := by
  have hn : n < 256 := by omega
  simp [lead?, UInt8.lt_iff_toNat_lt, ← UInt8.toNat_inj, toNat_ofNat_of_lt hn, hh,
    show ¬ n < 0x80 by omega, show ¬ n < 0xC2 by omega, show ¬ n < 0xE0 by omega]

theorem lead?_four {n : Nat} (hl : 0xF0 ≤ n) (hh : n < 0xF5) :
    lead? (UInt8.ofNat n) =
      some ⟨3, if n = 0xF0 then 0x90 else 0x80, if n = 0xF4 then 0x8F else 0xBF, n - 0xF0⟩ := by
  have hn : n < 256 := by omega
  simp [lead?, UInt8.lt_iff_toNat_lt, ← UInt8.toNat_inj, toNat_ofNat_of_lt hn, hh,
    show ¬ n < 0x80 by omega, show ¬ n < 0xC2 by omega, show ¬ n < 0xE0 by omega,
    show ¬ n < 0xF0 by omega]

theorem toNat_valid (c : Char) : c.toNat < 0xD800 ∨ 0xDFFF < c.toNat ∧ c.toNat < 0x110000 := by
  obtain h | ⟨h, h'⟩ := c.valid
  · exact .inl h
  · exact .inr ⟨h, h'⟩

theorem encodeChar_eq (c : Char) :
    encodeChar c =
      if c.toNat ≤ 0x7F then [UInt8.ofNat c.toNat]
      else if c.toNat ≤ 0x7FF then
        [UInt8.ofNat (c.toNat / 64 % 0x20 + 0xC0), UInt8.ofNat (c.toNat % 0x40 + 0x80)]
      else if c.toNat ≤ 0xFFFF then
        [UInt8.ofNat (c.toNat / 4096 % 0x10 + 0xE0), UInt8.ofNat (c.toNat / 64 % 0x40 + 0x80),
          UInt8.ofNat (c.toNat % 0x40 + 0x80)]
      else
        [UInt8.ofNat (c.toNat / 262144 % 0x08 + 0xF0), UInt8.ofNat (c.toNat / 4096 % 0x40 + 0x80),
          UInt8.ofNat (c.toNat / 64 % 0x40 + 0x80), UInt8.ofNat (c.toNat % 0x40 + 0x80)] := rfl

/-- The first code point of an encoded text. -/
theorem first_encodeChar (c : Char) (more : Bytes) :
    ∃ b rest, encodeChar c = b :: rest ∧ first b (rest ++ more) = (.ok c, rest.length + 1) := by
  have hv := toNat_valid c
  have hc : Char.ofNat c.toNat = c := Char.ofNat_toNat c
  rw [encodeChar_eq]
  generalize c.toNat = n at hv hc ⊢
  have h80 : (0x80 : UInt8).toNat = 0x80 := rfl
  have hBF : (0xBF : UInt8).toNat = 0xBF := rfl
  split_ifs with h1 h2 h3
  · refine ⟨_, _, rfl, ?_⟩
    rw [first_of_lead (lead?_one (by omega)) rfl, hc]
    rfl
  · have hcont : continuation 0x80 0xBF 1 (n / 64 % 0x20 + 0xC0 - 0xC0)
        (UInt8.ofNat (n % 0x40 + 0x80) :: more) = (.ok n, 1) := by
      rw [continuation_cons (by omega) (by omega) (by omega), continuation]
      simp only [Prod.mk.injEq, Except.ok.injEq, and_true]
      omega
    refine ⟨_, _, rfl, ?_⟩
    rw [List.singleton_append, first_of_lead (lead?_two (by omega) (by omega)) hcont, hc]
    rfl
  · have hcont : continuation (if n / 4096 % 0x10 + 0xE0 = 0xE0 then 0xA0 else 0x80)
        (if n / 4096 % 0x10 + 0xE0 = 0xED then 0x9F else 0xBF) 2 (n / 4096 % 0x10 + 0xE0 - 0xE0)
        (UInt8.ofNat (n / 64 % 0x40 + 0x80) :: UInt8.ofNat (n % 0x40 + 0x80) :: more) =
        (.ok n, 2) := by
      have hlow : (if n / 4096 % 0x10 + 0xE0 = 0xE0 then 0xA0 else 0x80 : UInt8).toNat ≤
          n / 64 % 0x40 + 0x80 := by
        split_ifs
        · simp
          omega
        · simp
      have hhigh : n / 64 % 0x40 + 0x80 ≤
          (if n / 4096 % 0x10 + 0xE0 = 0xED then 0x9F else 0xBF : UInt8).toNat := by
        split_ifs <;> (simp; omega)
      rw [continuation_cons (by omega) hlow hhigh,
        continuation_cons (by omega) (by omega) (by omega), continuation]
      simp only [Prod.mk.injEq, Except.ok.injEq, and_true]
      omega
    refine ⟨_, _, rfl, ?_⟩
    rw [List.cons_append, List.singleton_append,
      first_of_lead (lead?_three (by omega) (by omega)) hcont, hc]
    rfl
  · have hcont : continuation (if n / 262144 % 0x08 + 0xF0 = 0xF0 then 0x90 else 0x80)
        (if n / 262144 % 0x08 + 0xF0 = 0xF4 then 0x8F else 0xBF) 3
        (n / 262144 % 0x08 + 0xF0 - 0xF0)
        (UInt8.ofNat (n / 4096 % 0x40 + 0x80) :: UInt8.ofNat (n / 64 % 0x40 + 0x80) ::
          UInt8.ofNat (n % 0x40 + 0x80) :: more) = (.ok n, 3) := by
      have hlow : (if n / 262144 % 0x08 + 0xF0 = 0xF0 then 0x90 else 0x80 : UInt8).toNat ≤
          n / 4096 % 0x40 + 0x80 := by
        split_ifs
        · simp
          omega
        · simp
      have hhigh : n / 4096 % 0x40 + 0x80 ≤
          (if n / 262144 % 0x08 + 0xF0 = 0xF4 then 0x8F else 0xBF : UInt8).toNat := by
        split_ifs <;> (simp; omega)
      rw [continuation_cons (by omega) hlow hhigh,
        continuation_cons (by omega) (by omega) (by omega),
        continuation_cons (by omega) (by omega) (by omega), continuation]
      simp only [Prod.mk.injEq, Except.ok.injEq, and_true]
      omega
    refine ⟨_, _, rfl, ?_⟩
    rw [List.cons_append, List.cons_append, List.singleton_append,
      first_of_lead (lead?_four (by omega) (by omega)) hcont, hc]
    rfl

theorem decodeFrom_skip (position : Nat) (skipped rest : Bytes) :
    decodeFrom position skipped.length (skipped ++ rest) =
      decodeFrom (position + skipped.length) 0 rest := by
  induction skipped generalizing position with
  | nil => rfl
  | cons b skipped ih =>
    rw [List.length_cons, List.cons_append, decodeFrom, ih]
    congr 1
    omega

theorem decodeFrom_encode (position : Nat) (t : Text) :
    decodeFrom position 0 (encode t) = .ok t := by
  induction t generalizing position with
  | nil => rfl
  | cons c t ih =>
    obtain ⟨b, rest, hc, hf⟩ := first_encodeChar c (encode t)
    have he : encode (c :: t) = b :: (rest ++ encode t) := by
      rw [encode, List.flatMap_cons, hc]
      rfl
    rw [he, decodeFrom, hf]
    dsimp only
    rw [Nat.add_sub_cancel, decodeFrom_skip, ih]

theorem decode_encode (t : Text) : decode (encode t) = .ok t := decodeFrom_encode 0 t

/-- What the lead byte of a code point of `more + 1` bytes promises. The first byte after it keeps
out what a shorter code point could say, the surrogates, and what comes after the last code point. -/
structure Lead.Promises (lead : Lead) (n : Nat) : Prop where
  low : 0x80 ≤ lead.low.toNat
  high : lead.high.toNat ≤ 0xBF
  range : lead.more = 0 ∧ n < 0x80 ∧ lead.bits = n ∨
    lead.more = 1 ∧ 0xC2 ≤ n ∧ n < 0xE0 ∧ lead.bits = n - 0xC0 ∨
    lead.more = 2 ∧ 0xE0 ≤ n ∧ n < 0xF0 ∧ lead.bits = n - 0xE0 ∧
      (n = 0xE0 → 0xA0 ≤ lead.low.toNat) ∧ (n = 0xED → lead.high.toNat ≤ 0x9F) ∨
    lead.more = 3 ∧ 0xF0 ≤ n ∧ n < 0xF5 ∧ lead.bits = n - 0xF0 ∧
      (n = 0xF0 → 0x90 ≤ lead.low.toNat) ∧ (n = 0xF4 → lead.high.toNat ≤ 0x8F)

theorem lead?_promises {b : UInt8} {lead : Lead} (h : lead? b = some lead) :
    lead.Promises b.toNat := by
  unfold lead? at h
  simp only [UInt8.lt_iff_toNat_lt, ← UInt8.toNat_inj, UInt8.reduceToNat] at h
  split_ifs at h <;> cases h <;> constructor <;> simp <;> omega

/-- A continuation byte that is read lies within its range. -/
theorem continuation_succ_eq_ok {low high : UInt8} {more bits m count : Nat} {bytes : Bytes}
    (h : continuation low high (more + 1) bits bytes = (.ok m, count)) :
    ∃ b rest count', bytes = b :: rest ∧ count = count' + 1 ∧ low.toNat ≤ b.toNat ∧
      b.toNat ≤ high.toNat ∧
      continuation 0x80 0xBF more (bits * 64 + (b.toNat - 0x80)) rest = (.ok m, count') := by
  cases bytes with
  | nil => simp [continuation] at h
  | cons b rest =>
    rw [continuation] at h
    split at h
    · next hb =>
      obtain ⟨hm, hc⟩ := Prod.mk.inj h
      simp only [Bool.and_eq_true, decide_eq_true_eq, UInt8.le_iff_toNat_le] at hb
      exact ⟨b, rest, _, rfl, hc.symm, hb.1, hb.2, Prod.ext hm rfl⟩
    · simp at h

theorem continuation_zero_eq_ok {low high : UInt8} {bits m count : Nat} {bytes : Bytes}
    (h : continuation low high 0 bits bytes = (.ok m, count)) : bits = m ∧ count = 0 := by
  simpa [continuation, eq_comm] using h

theorem toNat_ofNat_of_valid {n : Nat} (h : n < 0xD800 ∨ 0xDFFF < n ∧ n < 0x110000) :
    (Char.ofNat n).toNat = n := by
  have hv : n.isValidChar := h
  rw [Char.ofNat, dif_pos hv]
  rfl

theorem ofNat_eq_of_toNat {b : UInt8} {n : Nat} (h : n = b.toNat) : UInt8.ofNat n = b := by
  rw [h, UInt8.ofNat_toNat]

/-- The bytes that are taken for a code point are those that encode it. -/
theorem encodeChar_of_first {b : UInt8} {rest : Bytes} {c : Char} {width : Nat}
    (h : first b rest = (.ok c, width)) :
    ∃ taken more, rest = taken ++ more ∧ width = taken.length + 1 ∧ encodeChar c = b :: taken := by
  unfold first at h
  split at h
  · simp at h
  next lead hlead =>
  obtain ⟨hlow, hhigh, hrange⟩ := lead?_promises hlead
  split at h
  case h_2 => simp at h
  next n count hc =>
  obtain ⟨rfl, rfl⟩ : Char.ofNat n = c ∧ count + 1 = width := by simpa using h
  have h80 : (0x80 : UInt8).toNat = 0x80 := rfl
  have hBF : (0xBF : UInt8).toNat = 0xBF := rfl
  obtain ⟨hm, hr, hb⟩ | ⟨hm, hl, hr, hb⟩ | ⟨hm, hl, hr, hb, he, hd⟩ |
    ⟨hm, hl, hr, hb, he, hd⟩ := hrange
  all_goals rw [hm, hb] at hc
  · obtain ⟨rfl, rfl⟩ := continuation_zero_eq_ok hc
    refine ⟨[], rest, rfl, rfl, ?_⟩
    rw [encodeChar_eq, toNat_ofNat_of_valid (by omega), if_pos (by omega), ofNat_eq_of_toNat rfl]
  · obtain ⟨b₁, rest, count, rfl, rfl, hl₁, hh₁, hc⟩ := continuation_succ_eq_ok hc
    obtain ⟨rfl, rfl⟩ := continuation_zero_eq_ok hc
    refine ⟨[b₁], rest, rfl, rfl, ?_⟩
    rw [encodeChar_eq, toNat_ofNat_of_valid (by omega), if_neg (by omega), if_pos (by omega),
      ofNat_eq_of_toNat (b := b) (by omega), ofNat_eq_of_toNat (b := b₁) (by omega)]
  · obtain ⟨b₁, rest, count, rfl, rfl, hl₁, hh₁, hc⟩ := continuation_succ_eq_ok hc
    obtain ⟨b₂, rest, count, rfl, rfl, hl₂, hh₂, hc⟩ := continuation_succ_eq_ok hc
    obtain ⟨rfl, rfl⟩ := continuation_zero_eq_ok hc
    refine ⟨[b₁, b₂], rest, rfl, rfl, ?_⟩
    rw [encodeChar_eq, toNat_ofNat_of_valid (by omega), if_neg (by omega), if_neg (by omega),
      if_pos (by omega), ofNat_eq_of_toNat (b := b) (by omega),
      ofNat_eq_of_toNat (b := b₁) (by omega), ofNat_eq_of_toNat (b := b₂) (by omega)]
  · obtain ⟨b₁, rest, count, rfl, rfl, hl₁, hh₁, hc⟩ := continuation_succ_eq_ok hc
    obtain ⟨b₂, rest, count, rfl, rfl, hl₂, hh₂, hc⟩ := continuation_succ_eq_ok hc
    obtain ⟨b₃, rest, count, rfl, rfl, hl₃, hh₃, hc⟩ := continuation_succ_eq_ok hc
    obtain ⟨rfl, rfl⟩ := continuation_zero_eq_ok hc
    refine ⟨[b₁, b₂, b₃], rest, rfl, rfl, ?_⟩
    rw [encodeChar_eq, toNat_ofNat_of_valid (by omega), if_neg (by omega), if_neg (by omega),
      if_neg (by omega), ofNat_eq_of_toNat (b := b) (by omega),
      ofNat_eq_of_toNat (b := b₁) (by omega), ofNat_eq_of_toNat (b := b₂) (by omega),
      ofNat_eq_of_toNat (b := b₃) (by omega)]

theorem encode_cons (c : Char) (t : Text) : encode (c :: t) = encodeChar c ++ encode t := by
  simp [encode]

theorem encode_of_decodeFrom {position : Nat} {bytes : Bytes} {t : Text}
    (h : decodeFrom position 0 bytes = .ok t) : encode t = bytes := by
  induction hn : bytes.length using Nat.strongRecOn generalizing position bytes t with
  | ind n ih =>
    cases bytes with
    | nil =>
      cases h
      rfl
    | cons b rest =>
      rw [decodeFrom] at h
      split at h
      · cases h
      next c width hf =>
      obtain ⟨taken, more, rfl, rfl, hc⟩ := encodeChar_of_first hf
      rw [Nat.add_sub_cancel, decodeFrom_skip] at h
      split at h
      next t' ht =>
        cases h
        have hless : more.length < n := by
          rw [← hn, List.length_cons, List.length_append]
          omega
        rw [encode_cons, ih more.length hless ht rfl, hc]
        rfl
      · cases h

theorem decode_eq_ok {bytes : Bytes} {t : Text} : decode bytes = .ok t ↔ bytes = encode t := by
  constructor
  · intro h
    exact (encode_of_decodeFrom h).symm
  · rintro rfl
    exact decode_encode t

theorem decodeLossyFrom_skip (skipped rest : Bytes) :
    decodeLossyFrom skipped.length (skipped ++ rest) = decodeLossyFrom 0 rest := by
  induction skipped with
  | nil => rfl
  | cons b skipped ih => rw [List.length_cons, List.cons_append, decodeLossyFrom, ih]

theorem decodeLossy_encode (t : Text) : decodeLossy (encode t) = t := by
  unfold decodeLossy
  induction t with
  | nil => rfl
  | cons c t ih =>
    obtain ⟨b, rest, hc, hf⟩ := first_encodeChar c (encode t)
    rw [encode_cons, hc, List.cons_append, decodeLossyFrom, hf]
    dsimp only
    rw [Nat.add_sub_cancel, decodeLossyFrom_skip, ih]

theorem mark_append (t : Text) : mark ++ encode t = encode ('\uFEFF' :: t) := by
  rw [encode_cons]
  rfl

/-- The bytes say the text, after a byte order mark if there is one. Those that end within the mark
say nothing. -/
inductive Says : Bytes → Text → Prop
  | marked (t : Text) : Says (mark ++ encode t) t
  | bare (t : Text) (unmarked : t.head? ≠ some '\uFEFF') : Says (encode t) t
  | torn {bytes : Bytes} (within : bytes = [0xEF] ∨ bytes = [0xEF, 0xBB]) : Says bytes []

theorem head?_of_mark {t : Text} (h : mark <+: encode t) : t.head? = some '\uFEFF' := by
  obtain ⟨more, h⟩ := h
  cases t with
  | nil => cases h
  | cons c t =>
    obtain ⟨b, rest, hc, hf⟩ := first_encodeChar c (encode t)
    obtain ⟨b', rest', hc', hf'⟩ := first_encodeChar '\uFEFF' more
    have hmark : mark = b' :: rest' := hc'
    rw [encode_cons, hc, hmark] at h
    obtain rfl : b' = b := (List.cons.inj h).1
    have hrest : rest' ++ more = rest ++ encode t := (List.cons.inj h).2
    rw [hrest] at hf'
    rw [List.head?_cons, Except.ok.inj (Prod.mk.inj (hf'.symm.trans hf)).1]

theorem within_of_prefix {bytes : Bytes} (h : bytes <+: mark) (hlength : bytes.length < 3) :
    bytes = [] ∨ bytes = [0xEF] ∨ bytes = [0xEF, 0xBB] := by
  cases bytes with
  | nil => exact .inl rfl
  | cons a bytes =>
    obtain ⟨rfl, hrest⟩ := List.cons_prefix_cons.mp h
    cases bytes with
    | nil => exact .inr (.inl rfl)
    | cons b bytes =>
      obtain ⟨rfl, -⟩ := List.cons_prefix_cons.mp hrest
      rw [List.length_cons, List.length_cons] at hlength
      obtain rfl : bytes = [] := List.length_eq_zero_iff.mp (by omega)
      exact .inr (.inr rfl)

theorem decodeMarked_eq_ok {bytes : Bytes} {t : Text} :
    decodeMarked bytes = .ok t ↔ Says bytes t := by
  constructor
  · intro h
    unfold decodeMarked at h
    split_ifs at h with hmark hshort
    · obtain ⟨more, rfl⟩ := List.isPrefixOf_iff_prefix.mp hmark
      obtain rfl := decode_eq_ok.mp h
      exact .marked t
    · obtain ⟨hlength, hprefix⟩ := Bool.and_eq_true_iff.mp hshort
      obtain rfl | hwithin := within_of_prefix (List.isPrefixOf_iff_prefix.mp hprefix)
        (by simpa using hlength)
      · cases h
        exact .bare [] nofun
      · cases h
        exact .torn hwithin
    · obtain rfl := decode_eq_ok.mp h
      refine .bare t fun hhead => hmark ?_
      obtain ⟨t, rfl⟩ := List.head?_eq_some_iff.mp hhead
      rw [← mark_append]
      exact List.isPrefixOf_iff_prefix.mpr (List.prefix_append _ _)
  · intro h
    cases h with
    | marked t =>
      rw [decodeMarked, if_pos (List.isPrefixOf_iff_prefix.mpr (List.prefix_append _ _))]
      exact decode_encode t
    | torn within => obtain rfl | rfl := within <;> rfl
    | bare t unmarked =>
      have hmark : ¬ mark.isPrefixOf (encode t) := fun h =>
        unmarked (head?_of_mark (List.isPrefixOf_iff_prefix.mp h))
      rw [decodeMarked, if_neg hmark]
      split_ifs with hshort
      · obtain ⟨hlength, hprefix⟩ := Bool.and_eq_true_iff.mp hshort
        obtain h | h | h := within_of_prefix (List.isPrefixOf_iff_prefix.mp hprefix)
          (by simpa using hlength)
        all_goals
          have hdecode := decode_encode t
          rw [h] at hdecode
          cases hdecode
        rfl
      · exact decode_encode t

end Rollout.Utf8
