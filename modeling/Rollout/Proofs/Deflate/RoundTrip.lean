import Mathlib.Algebra.Group.Nat.Defs
import Rollout.Deflate.Compress
import Rollout.Proofs.Deflate.Decoding

namespace Rollout.Deflate

theorem agreement_le (limit : Nat) (s t : Bytes) : agreement limit s t ≤ limit := by
  fun_induction agreement limit s t <;> omega

theorem take_agreement (limit : Nat) (s t : Bytes) :
    s.take (agreement limit s t) = t.take (agreement limit s t) ∧ agreement limit s t ≤ t.length := by
  fun_induction agreement limit s t with
  | case1 => simp
  | case2 limit a s t ih => simpa using ih
  | case3 => simp
  | case4 => simp

/-- Some suffixes of a sequence that begin before a position, the nearest first. -/
def SuffixesBefore (data : Bytes) (position : Nat) (before : List Bytes) : Prop :=
  ∀ i suffix, before[i]? = some suffix → i < position ∧ suffix = data.drop (position - (i + 1))

theorem bestCopy_spec (rest : Bytes) (distance : Nat) (before : List Bytes) :
    (bestCopy rest distance before).1 ≤ maxCopy ∧
    ((bestCopy rest distance before).1 ≠ 0 →
      ∃ i suffix, before[i]? = some suffix ∧ (bestCopy rest distance before).2 = distance + i ∧
        (bestCopy rest distance before).1 = agreement maxCopy suffix rest) := by
  induction before generalizing distance with
  | nil => simp [bestCopy]
  | cons suffix more ih =>
    rw [bestCopy]
    split
    · exact ⟨agreement_le _ _ _, fun _ => ⟨0, suffix, rfl, rfl, rfl⟩⟩
    · obtain ⟨hle, hspec⟩ := ih (distance + 1)
      refine ⟨hle, fun h => ?_⟩
      obtain ⟨i, suffix, hi, hd, ha⟩ := hspec h
      exact ⟨i + 1, suffix, hi, by omega, ha⟩

/-- A copy of bytes that agree with what is to come brings exactly these. -/
theorem copyBack_eq {data pre rest : Bytes} {distance : Nat} (length : Nat) {output : Array UInt8}
    (hd : data = pre ++ rest) (ho : output.toList = pre) (h0 : 0 < distance)
    (hp : distance ≤ pre.length)
    (ha : (data.drop (pre.length - distance)).take length = rest.take length)
    (hl : length ≤ rest.length) :
    (copyBack distance length output).toList = pre ++ rest.take length := by
  induction length generalizing pre rest output with
  | zero => simpa [copyBack] using ho
  | succ length ih =>
    cases rest with
    | nil => simp at hl
    | cons b rest =>
      obtain ⟨tail, ht⟩ : ∃ tail, data.drop (pre.length - distance) = b :: tail := by
        cases hdrop : data.drop (pre.length - distance) with
        | nil => simp [hdrop] at ha
        | cons x tail =>
          rw [hdrop, List.take_succ_cons, List.take_succ_cons, List.cons.injEq] at ha
          exact ⟨tail, by rw [ha.1]⟩
      have hb : output.getD (output.size - distance) 0 = b := by
        have hget : data[pre.length - distance]? = some b := by
          rw [← List.head?_drop, ht]
          rfl
        rw [hd, List.getElem?_append_left (by omega), ← ho, Array.getElem?_toList] at hget
        rw [Array.getD_eq_getD_getElem?, ← Array.length_toList, ho]
        rw [ho] at hget
        simp [hget]
      have hnext : ((data.drop ((pre ++ [b]).length - distance)).take length) = rest.take length := by
        have hdrop : data.drop ((pre ++ [b]).length - distance) = tail := by
          have hlen : (pre ++ [b]).length - distance = (pre.length - distance) + 1 := by
            rw [List.length_append, List.length_singleton]
            omega
          rw [hlen, ← List.drop_drop, ht]
          rfl
        rw [ht, List.take_succ_cons, List.take_succ_cons, List.cons.injEq] at ha
        rw [hdrop]
        exact ha.2
      have hstep : (copyBack distance length (output.push b)).toList =
          pre ++ [b] ++ rest.take length :=
        ih (by simp [hd]) (by simp [ho]) (by simp; omega) hnext (by simpa using hl)
      rw [copyBack, hb, hstep]
      simp

def Token.Fits (written : Nat) : Token → Prop
  | literal _ => True
  | copy length distance =>
    3 ≤ length ∧ length ≤ maxCopy ∧ 0 < distance ∧ distance ≤ reach ∧ distance ≤ written

def Fitting (output : Array UInt8) : List Token → Prop
  | [] => True
  | token :: rest => token.Fits output.size ∧ Fitting (token.emit output) rest

theorem SuffixesBefore.cons {data pre rest : Bytes} {b : UInt8} {before : List Bytes}
    (h : SuffixesBefore data pre.length before) (hd : data = pre ++ b :: rest) :
    SuffixesBefore data (pre ++ [b]).length (((b :: rest) :: before).take reach) := by
  intro i suffix hi
  rw [List.getElem?_take] at hi
  split at hi
  · rw [List.length_append, List.length_singleton]
    cases i with
    | zero =>
      obtain rfl : b :: rest = suffix := by simpa using hi
      exact ⟨by omega, by simp [hd]⟩
    | succ i =>
      obtain ⟨hlt, rfl⟩ := h i suffix (by simpa using hi)
      refine ⟨by omega, ?_⟩
      congr 1
      omega
  · cases hi

/-- The tokens of a sequence stand for it, and each of them fits. -/
theorem tokensFrom_spec {data pre rest : Bytes} {before : List Bytes} (skip : Nat)
    {output : Array UInt8} (hd : data = pre ++ rest) (hs : SuffixesBefore data pre.length before)
    (hb : before.length ≤ reach) (hskip : skip ≤ rest.length)
    (ho : output.toList = pre ++ rest.take skip) :
    (expand output (tokensFrom before skip rest)).toList = data ∧
      Fitting output (tokensFrom before skip rest) := by
  induction rest generalizing pre before skip output with
  | nil => exact ⟨by simp [tokensFrom, expand, ho, hd], trivial⟩
  | cons b rest ih =>
    have hs' := hs.cons hd
    have hb' : (((b :: rest) :: before).take reach).length ≤ reach := List.length_take_le _ _
    have hd' : data = pre ++ [b] ++ rest := by simp [hd]
    cases skip with
    | succ skip => exact ih skip hd' hs' hb' (by simpa using hskip) (by simpa using ho)
    | zero =>
      have ho : output.toList = pre := by simpa using ho
      rw [tokensFrom]
      dsimp only
      obtain ⟨hmax, hcopy⟩ := bestCopy_spec (b :: rest) 1 before
      split
      · next h3 =>
        obtain ⟨i, suffix, hi, hdist, ha⟩ := hcopy (by omega)
        obtain ⟨hlt, rfl⟩ := hs i suffix hi
        obtain ⟨htake, hle⟩ := take_agreement maxCopy (data.drop (pre.length - (i + 1))) (b :: rest)
        rw [← ha] at htake hle
        have hi : i < before.length := (List.getElem?_eq_some_iff.mp hi).1
        have hcopied := copyBack_eq (bestCopy (b :: rest) 1 before).1 hd ho (Nat.succ_pos i)
          (by omega) htake hle
        rw [Nat.add_comm 1 i] at hdist
        generalize bestCopy (b :: rest) 1 before = copy at h3 hmax hdist hcopied hle ⊢
        obtain ⟨length, distance⟩ := copy
        subst hdist
        obtain ⟨length, rfl⟩ : ∃ n, length = n + 1 := ⟨length - 1, by omega⟩
        have ht : (copyBack (i + 1) (length + 1) output).toList = pre ++ [b] ++ rest.take length := by
          simpa using hcopied
        obtain ⟨he, hf⟩ := ih length hd' hs' hb' (by simpa using hle) ht
        have hsize : output.size = pre.length := by rw [← ho, Array.length_toList]
        exact ⟨he, ⟨h3, hmax, Nat.succ_pos i, by omega, by omega⟩, hf⟩
      · have ht : (output.push b).toList = pre ++ [b] ++ rest.take 0 := by simp [ho]
        obtain ⟨he, hf⟩ := ih 0 hd' hs' hb' (Nat.zero_le _) ht
        exact ⟨he, trivial, hf⟩

theorem ofBits_lt (bits : List Bool) : ofBits bits < 2 ^ bits.length := by
  induction bits with
  | nil => simp [ofBits]
  | cons b bits ih =>
    rw [ofBits, List.length_cons, Nat.pow_succ]
    have hb : b.toNat ≤ 1 := Bool.toNat_le b
    omega

theorem testBit_ofBits (bits : List Bool) (i : Nat) :
    (ofBits bits).testBit i = bits.getD i false := by
  induction bits generalizing i with
  | nil => simp [ofBits]
  | cons b bits ih =>
    cases i with
    | zero =>
      rw [ofBits, Nat.testBit_zero]
      cases b <;> simp
    | succ i =>
      have hhalf : (2 * ofBits bits + b.toNat) / 2 = ofBits bits := by
        have hb : b.toNat ≤ 1 := Bool.toNat_le b
        omega
      rw [ofBits, Nat.testBit_succ, hhalf, ih]
      rfl

theorem bitsOfByte_ofBits {bits : List Bool} (h : bits.length ≤ 8) :
    ∃ pad, bitsOfByte (UInt8.ofNat (ofBits bits)) = bits ++ pad := by
  have hlt : ofBits bits < 256 :=
    Nat.lt_of_lt_of_le (ofBits_lt bits) (Nat.pow_le_pow_right (by omega) h)
  refine ⟨List.replicate (8 - bits.length) false, List.ext_getElem? fun i => ?_⟩
  rw [bitsOfByte, UInt8.toNat_ofNat', Nat.mod_eq_of_lt hlt, List.getElem?_map]
  by_cases hi : i < 8
  · rw [List.getElem?_range hi, Option.map_some, testBit_ofBits, List.getD_eq_getElem?_getD]
    by_cases hb : i < bits.length
    · simp [List.getElem?_append_left hb, hb]
    · have hlen : i - bits.length < 8 - bits.length := by omega
      rw [List.getElem?_append_right (by omega), List.getElem?_replicate, if_pos hlen]
      simp [hb]
  · rw [List.getElem?_eq_none (by simpa using hi), List.getElem?_eq_none (by simp; omega)]
    rfl

/-- Packing loses no bit. -/
theorem packBits_bits (bits : List Bool) :
    ∃ pad, (packBits bits).flatMap bitsOfByte = bits ++ pad := by
  fun_induction packBits bits with
  | case1 => exact ⟨[], rfl⟩
  | case2 a b c d e f g h rest ih =>
    obtain ⟨pad, hp⟩ := ih
    obtain ⟨none, hb⟩ : ∃ none, bitsOfByte (UInt8.ofNat (ofBits [a, b, c, d, e, f, g, h])) =
        [a, b, c, d, e, f, g, h] ++ none := bitsOfByte_ofBits (by simp)
    have hnone : none = [] := by
      have hlen := congrArg List.length hb
      rw [Source.length_bitsOfByte] at hlen
      simpa using hlen
    refine ⟨pad, ?_⟩
    rw [List.flatMap_cons, hp, hb, hnone]
    rfl
  | case3 bits hnil hlong =>
    have hlen : bits.length ≤ 8 := by
      obtain _ | ⟨a, _ | ⟨b, _ | ⟨c, _ | ⟨d, _ | ⟨e, _ | ⟨f, _ | ⟨g, _ | ⟨h, rest⟩⟩⟩⟩⟩⟩⟩⟩ := bits
      iterate 8 · simp
      exact (hlong a b c d e f g h rest rfl).elim
    obtain ⟨pad, hb⟩ := bitsOfByte_ofBits hlen
    exact ⟨pad, by rw [List.flatMap_cons, hb, List.flatMap_nil, List.append_nil]⟩

theorem length_packBits (bits : List Bool) : 8 * (packBits bits).length < bits.length + 8 := by
  fun_induction packBits bits with
  | case1 => decide
  | case2 a b c d e f g h rest ih =>
    simp only [List.length_cons]
    omega
  | case3 bits hne hshort =>
    have hpos : 0 < bits.length := List.length_pos_iff.mpr hne
    simp only [List.length_cons, List.length_nil]
    omega

namespace Code

def symbols : Code → List Nat
  | unused => []
  | leaf symbol => [symbol]
  | node zero one => zero.symbols ++ one.symbols

theorem exists_path {code : Code} {n : Nat} (h : n ∈ code.symbols) :
    ∃ bits, code.path? n = some bits := by
  induction code with
  | unused => simp [symbols] at h
  | leaf symbol =>
    obtain rfl : n = symbol := by simpa [symbols] using h
    exact ⟨[], by simp [path?]⟩
  | node zero one ihz iho =>
    rw [path?]
    cases hz : zero.path? n with
    | some bits => exact ⟨_, rfl⟩
    | none =>
      obtain h | h := List.mem_append.mp h
      · obtain ⟨bits, hb⟩ := ihz h
        simp [hz] at hb
      · obtain ⟨bits, hb⟩ := iho h
        exact ⟨true :: bits, by simp [hb]⟩

theorem path_getD {code : Code} {n count : Nat} (h : n < count) (hn : n ∈ code.symbols) :
    code.path? n = some
      (((Array.range count).map fun n => (code.path? n).getD []).getD n []) := by
  obtain ⟨bits, hb⟩ := exists_path hn
  rw [Array.getD_eq_getD_getElem?, Array.getElem?_map, Array.getElem?_range, if_pos h]
  simp [hb]

theorem path_ne_nil (zero one : Code) (n : Nat) : (node zero one).path? n ≠ some [] := by
  rw [path?]
  cases zero.path? n <;> simp

end Code

theorem symbols_fixedLiteralCode : fixedLiteralCode.symbols =
    List.range' 256 24 ++ (List.range' 0 144 ++ (List.range' 280 8 ++ List.range' 144 112)) := by
  decide +kernel

theorem symbols_fixedDistanceCode : fixedDistanceCode.symbols = List.range' 0 32 := by
  decide +kernel

theorem literalPath {n : Nat} (h : n < 288) :
    fixedLiteralCode.path? n = some (literalPaths.getD n []) := by
  unfold literalPaths
  apply Code.path_getD h
  simp only [symbols_fixedLiteralCode, List.mem_append, List.mem_range'_1]
  omega

theorem distancePath {n : Nat} (h : n < 30) :
    fixedDistanceCode.path? n = some (distancePaths.getD n []) := by
  unfold distancePaths
  apply Code.path_getD h
  simp only [symbols_fixedDistanceCode, List.mem_range'_1]
  omega

/-- A number falls into the row found for it. -/
def InRow (rows : List (Nat × Nat)) (n : Nat) : Prop :=
  (rowOf rows n).1 < rows.length ∧ rows[(rowOf rows n).1]? = some (rowOf rows n).2 ∧
    (rowOf rows n).2.1 ≤ n ∧ n - (rowOf rows n).2.1 < 1 <<< (rowOf rows n).2.2

instance (rows : List (Nat × Nat)) (n : Nat) : Decidable (InRow rows n) :=
  inferInstanceAs (Decidable (_ ∧ _))

theorem inRow_length : ∀ n < 259, 3 ≤ n → InRow lengthRows n := by decide +kernel

theorem inRow_distance : ∀ n < 129, 0 < n → InRow distanceRows n := by decide +kernel

theorem length_toBits (count n : Nat) : (toBits count n).length = count := by
  induction count generalizing n with
  | zero => rfl
  | succ count ih => rw [toBits, List.length_cons, ih]

theorem number?_toBits {s : Source} {count n : Nat} {rest : List Bool} (h : n < 1 <<< count)
    (hs : s.toBits = toBits count n ++ rest) :
    ∃ s', s.number? count = some (n, s') ∧ s'.toBits = rest := by
  obtain ⟨s', hn, hr⟩ := Source.number?_of_toBits hs
  rw [length_toBits, ofBits_toBits, Nat.mod_eq_of_lt h] at hn
  exact ⟨s', hn, hr⟩

def fixedBlock : Place := ⟨.symbols fixedLiteralCode fixedDistanceCode, true⟩

theorem step_fixedBlock (written : Nat) (s : Source) :
    step fixedBlock written s =
      readSymbol fixedBlock fixedLiteralCode fixedDistanceCode written s := rfl

theorem readDistance_copy {s : Source} {written distance : Nat} (length : Nat) {rest : List Bool}
    (h0 : 0 < distance) (hr : distance ≤ reach) (hw : distance ≤ written)
    (hs : s.toBits = distancePaths.getD (rowOf distanceRows distance).1 [] ++
      (toBits (rowOf distanceRows distance).2.2 (distance - (rowOf distanceRows distance).2.1) ++
        rest)) :
    ∃ s', readDistance fixedBlock fixedDistanceCode written length s =
      .next fixedBlock (some (.copy length distance)) s' ∧ s'.toBits = rest := by
  obtain ⟨hlt, hrow, hle, hextra⟩ := inRow_distance distance (Nat.lt_succ_of_le hr) h0
  obtain ⟨s₁, hd, h₁⟩ := Code.decode_of_toBits (distancePath hlt) hs
  obtain ⟨s₂, hn, h₂⟩ := number?_toBits hextra h₁
  refine ⟨s₂, ?_, h₂⟩
  simp only [readDistance, hd, hrow, hn, Nat.add_sub_cancel' hle]
  rw [if_neg (by omega)]

/-- The bits of a token are read back as the token. -/
theorem step_token {token : Token} {written : Nat} {s : Source} {rest : List Bool}
    (ht : token.Fits written) (hs : s.toBits = token.toBits ++ rest) :
    ∃ s', step fixedBlock written s = .next fixedBlock (some token) s' ∧ s'.toBits = rest := by
  rw [step_fixedBlock]
  cases token with
  | literal b =>
    have hb : b.toNat < endSymbol := b.toNat_lt
    have hlt : b.toNat < 288 := Nat.lt_trans hb (by decide)
    obtain ⟨s₁, hd, h₁⟩ := Code.decode_of_toBits (literalPath hlt) hs
    refine ⟨s₁, ?_, h₁⟩
    simp only [readSymbol, hd]
    rw [if_pos hb, UInt8.ofNat_toNat]
  | copy length distance =>
    obtain ⟨h3, hmax, h0, hr, hw⟩ := ht
    obtain ⟨hlt, hrow, hle, hextra⟩ := inRow_length length (Nat.lt_succ_of_le hmax) h3
    have hlt : 257 + (rowOf lengthRows length).1 < 288 :=
      Nat.lt_trans (Nat.add_lt_add_left hlt 257) (by decide)
    simp only [Token.toBits, List.append_assoc] at hs
    obtain ⟨s₁, hd, h₁⟩ := Code.decode_of_toBits (literalPath hlt) hs
    obtain ⟨s₂, hn, h₂⟩ := number?_toBits hextra h₁
    obtain ⟨s₃, hc, h₃⟩ := readDistance_copy length h0 hr hw h₂
    refine ⟨s₃, ?_, h₃⟩
    have hend : endSymbol < 257 + (rowOf lengthRows length).1 := by
      rw [endSymbol]
      omega
    simp only [readSymbol, hd, Nat.add_sub_cancel_left, hrow, hn, Nat.add_sub_cancel' hle]
    rw [if_neg (by omega), if_neg (by omega)]
    exact hc

theorem literalPaths_pos {n : Nat} (h : n < 288) : 0 < (literalPaths.getD n []).length := by
  obtain ⟨zero, one, hnode⟩ : ∃ zero one, fixedLiteralCode = .node zero one := ⟨_, _, rfl⟩
  have hp := literalPath h
  rw [hnode] at hp
  apply List.length_pos_iff.mpr
  intro hnil
  rw [hnil] at hp
  exact Code.path_ne_nil zero one n hp

theorem Token.toBits_pos {token : Token} {written : Nat} (h : token.Fits written) :
    0 < token.toBits.length := by
  cases token with
  | literal b => exact literalPaths_pos (Nat.lt_trans b.toNat_lt (by decide))
  | copy length distance =>
    obtain ⟨hlt, -⟩ := inRow_length length (Nat.lt_succ_of_le h.2.1) h.1
    have hp := literalPaths_pos (Nat.lt_trans (Nat.add_lt_add_left hlt 257) (by decide))
    simp only [Token.toBits, List.length_append]
    omega

theorem size_copyBack (distance length : Nat) (output : Array UInt8) :
    (copyBack distance length output).size = output.size + length := by
  induction length generalizing output with
  | zero => rfl
  | succ length ih =>
    rw [copyBack, ih, Array.size_push]
    omega

theorem step_end {written : Nat} {s : Source} {rest : List Bool}
    (hs : s.toBits = literalPaths.getD endSymbol [] ++ rest) :
    ∃ s', step fixedBlock written s = .next (.afterBlock true) none s' ∧ s'.toBits = rest := by
  obtain ⟨s₁, hd, h₁⟩ := Code.decode_of_toBits (literalPath (by decide)) hs
  exact ⟨s₁, by simp only [step_fixedBlock, readSymbol, hd]; rfl, h₁⟩

theorem size_lt_of_toBits {s s' : Source} {bits rest : List Bool} (hs : s.toBits = bits ++ rest)
    (hs' : s'.toBits = rest) (h : 0 < bits.length) : s'.size < s.size := by
  rw [Source.size_eq_length, Source.size_eq_length, hs', hs, List.length_append]
  exact Nat.lt_add_of_pos_left h

/-- A block of fitting tokens is decoded to what these stand for, and no further. -/
theorem run_tokens {tokens : List Token} (steps : Nat) {s : Source} {output : Array UInt8}
    {pad : List Bool} (hf : Fitting output tokens)
    (hs : s.toBits = tokens.flatMap Token.toBits ++ (literalPaths.getD endSymbol [] ++ pad))
    (hn : s.size < steps) :
    ∃ s', run steps fixedBlock s output = .ok ⟨.afterBlock true, s', expand output tokens⟩ ∧
      s'.toBits = pad := by
  obtain ⟨steps, rfl⟩ : ∃ n, steps = n + 1 := ⟨steps - 1, by omega⟩
  induction tokens generalizing steps s output with
  | nil =>
    rw [List.flatMap_nil, List.nil_append] at hs
    obtain ⟨s', hstep, hs'⟩ := step_end hs
    refine ⟨s', ?_, hs'⟩
    rw [run, hstep]
    cases steps with
    | zero => rfl
    | succ steps => rfl
  | cons token rest ih =>
    rw [List.flatMap_cons, List.append_assoc] at hs
    obtain ⟨s₁, hstep, hs₁⟩ := step_token hf.1 hs
    have hless := size_lt_of_toBits hs hs₁ (Token.toBits_pos hf.1)
    obtain ⟨steps, rfl⟩ : ∃ n, steps = n + 1 := ⟨steps - 1, by omega⟩
    obtain ⟨s', hrun, hs'⟩ := ih hf.2 hs₁ steps (by omega)
    refine ⟨s', ?_, hs'⟩
    rw [run, hstep]
    exact hrun

theorem step_header (written : Nat) {s : Source} {rest : List Bool}
    (hs : s.toBits = [true, true, false] ++ rest) :
    ∃ s', step {} written s = .next fixedBlock none s' ∧ s'.toBits = rest := by
  obtain ⟨s', hn, hs'⟩ := Source.number?_of_toBits hs
  refine ⟨s', ?_, hs'⟩
  have he : step {} written s = readHeader s := rfl
  rw [he, readHeader, show s.number? 3 = _ from hn]
  rfl

/-- What the compressor writes inflates to what it was given, and ends with its last block. -/
theorem inflate_compress (data : Bytes) : inflate (compress data) = .ok ⟨data, true⟩ := by
  have hnone : SuffixesBefore data ([] : Bytes).length [] := by
    intro i suffix h
    cases h
  have hstart : (#[] : Array UInt8).toList = [] ++ data.take 0 := rfl
  obtain ⟨he, hf⟩ :=
    tokensFrom_spec 0 (List.nil_append data).symm hnone (Nat.zero_le _) (Nat.zero_le _) hstart
  let bits := [true, true, false] ++ (tokensFrom [] 0 data).flatMap Token.toBits ++
    literalPaths.getD endSymbol []
  obtain ⟨pad, hp⟩ := packBits_bits bits
  have hs : (Source.append {} (compress data)).toBits = [true, true, false] ++
      ((tokensFrom [] 0 data).flatMap Token.toBits ++ (literalPaths.getD endSymbol [] ++ pad)) := by
    simpa [Source.toBits, Source.append, compress, bits] using hp
  obtain ⟨s₁, hstep, hs₁⟩ := step_header (#[] : Array UInt8).size hs
  have hless : s₁.size < (Source.append {} (compress data)).size :=
    size_lt_of_toBits hs hs₁ (by decide)
  obtain ⟨s', hrun, hs'⟩ := run_tokens (Source.append {} (compress data)).size hf hs₁ hless
  have hfeed : Decoder.feed {} (compress data) = .ok ⟨.afterBlock true, s', data.toArray⟩ := by
    have hexpand : expand #[] (tokensFrom [] 0 data) = data.toArray := Array.toList_inj.mp he
    simp only [Decoder.feed, run]
    rw [hstep]
    dsimp only
    rw [hrun, hexpand]
  -- the bits that fill up the last byte are too few for another byte
  have hleft : s'.bytes = [] := by
    have hpad : pad.length < 8 := by
      have hlen := congrArg List.length hp
      have hpack := length_packBits bits
      rw [Source.length_flatMap_bitsOfByte, List.length_append] at hlen
      omega
    have hsize := s'.size_eq_length
    rw [hs', Source.size] at hsize
    exact List.eq_nil_of_length_eq_zero (by omega)
  rw [inflate, hfeed]
  dsimp only
  rw [hleft]
  rfl

end Rollout.Deflate
