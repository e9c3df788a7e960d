import Mathlib.Tactic.Common
import Rollout.Deflate.Inflate

namespace Rollout.Deflate

namespace Source

theorem length_bitsOfByte (b : UInt8) : (bitsOfByte b).length = 8 := by simp [bitsOfByte]

theorem length_flatMap_bitsOfByte (bytes : Bytes) :
    (bytes.flatMap bitsOfByte).length = 8 * bytes.length := by
  induction bytes with
  | nil => rfl
  | cons b bytes ih =>
    rw [List.flatMap_cons, List.length_append, ih, length_bitsOfByte, List.length_cons]
    omega

theorem size_eq_length (s : Source) : s.size = s.toBits.length := by
  rw [size, toBits, List.length_append, length_flatMap_bitsOfByte]

theorem append_nil (s : Source) : s.append [] = s := by simp [append]

theorem append_append (s : Source) (a b : Bytes) : (s.append a).append b = s.append (a ++ b) := by
  simp [append]

theorem size_append (s : Source) (more : Bytes) :
    (s.append more).size = s.size + 8 * more.length := by
  simp only [size, append, List.length_append]
  omega

theorem bit?_of_toBits {s : Source} {b : Bool} {rest : List Bool} (h : s.toBits = b :: rest) :
    ∃ s', s.bit? = some (b, s') ∧ s'.toBits = rest := by
  obtain ⟨held, bytes⟩ := s
  cases held with
  | cons c held =>
    obtain ⟨rfl, rfl⟩ : c = b ∧ held ++ bytes.flatMap bitsOfByte = rest := by
      simpa [toBits] using h
    exact ⟨⟨held, bytes⟩, rfl, rfl⟩
  | nil =>
    cases bytes with
    | nil => simp [toBits] at h
    | cons byte bytes =>
      cases hb : bitsOfByte byte with
      | nil => simpa [hb] using length_bitsOfByte byte
      | cons c held =>
        obtain ⟨rfl, rfl⟩ : c = b ∧ held ++ bytes.flatMap bitsOfByte = rest := by
          simpa [toBits, hb] using h
        exact ⟨⟨held, bytes⟩, by simp [bit?, hb], rfl⟩

theorem number?_of_toBits {s : Source} {bits rest : List Bool} (h : s.toBits = bits ++ rest) :
    ∃ s', s.number? bits.length = some (ofBits bits, s') ∧ s'.toBits = rest := by
  induction bits generalizing s with
  | nil => exact ⟨s, rfl, h⟩
  | cons b bits ih =>
    obtain ⟨s₁, hb, h₁⟩ := bit?_of_toBits h
    obtain ⟨s₂, hn, h₂⟩ := ih h₁
    exact ⟨s₂, by simp [number?, hb, hn, ofBits], h₂⟩

theorem bit?_append {s s' : Source} {b : Bool} (h : s.bit? = some (b, s')) (more : Bytes) :
    (s.append more).bit? = some (b, s'.append more) := by
  obtain ⟨held, bytes⟩ := s
  cases held with
  | cons c held =>
    obtain ⟨rfl, rfl⟩ : c = b ∧ (⟨held, bytes⟩ : Source) = s' := by simpa [bit?] using h
    rfl
  | nil =>
    cases bytes with
    | nil => simp [bit?] at h
    | cons byte bytes =>
      cases hb : bitsOfByte byte with
      | nil => simpa [hb] using length_bitsOfByte byte
      | cons c held =>
        obtain ⟨rfl, rfl⟩ : c = b ∧ (⟨held, bytes⟩ : Source) = s' := by simpa [bit?, hb] using h
        simp [bit?, append, hb]

theorem number?_append {count n : Nat} {s s' : Source} (h : s.number? count = some (n, s'))
    (more : Bytes) : (s.append more).number? count = some (n, s'.append more) := by
  induction count generalizing n s with
  | zero =>
    obtain ⟨rfl, rfl⟩ : 0 = n ∧ s = s' := by simpa [number?] using h
    rfl
  | succ count ih =>
    rw [number?] at h
    split at h
    · cases h
    · next b s₁ hb =>
      split at h
      · cases h
      · next m s₂ hm =>
        cases h
        rw [number?, bit?_append hb more]
        dsimp only
        rw [ih hm]

theorem align_append (s : Source) (more : Bytes) : (s.append more).align = s.align.append more := rfl

end Source

namespace Code

theorem decode_of_toBits {code : Code} {n : Nat} {bits rest : List Bool}
    (h : code.path? n = some bits) {s : Source} (hs : s.toBits = bits ++ rest) :
    ∃ s', code.decode s = some (some n, s') ∧ s'.toBits = rest := by
  induction code generalizing bits s with
  | unused => simp [path?] at h
  | leaf symbol =>
    rw [path?] at h
    split at h
    · next hn =>
      cases h
      exact ⟨s, by simp [decode, hn], hs⟩
    · cases h
  | node zero one ihz iho =>
    rw [path?] at h
    split at h
    · next bits' hz =>
      cases h
      obtain ⟨s₁, hb, h₁⟩ := Source.bit?_of_toBits hs
      obtain ⟨s₂, hd, h₂⟩ := ihz hz h₁
      exact ⟨s₂, by simp [decode, hb, hd], h₂⟩
    · obtain ⟨bits', ho, rfl⟩ := Option.map_eq_some_iff.mp h
      obtain ⟨s₁, hb, h₁⟩ := Source.bit?_of_toBits hs
      obtain ⟨s₂, hd, h₂⟩ := iho ho h₁
      exact ⟨s₂, by simp [decode, hb, hd], h₂⟩

theorem decode_append {code : Code} {result : Option Nat} {s s' : Source}
    (h : code.decode s = some (result, s')) (more : Bytes) :
    code.decode (s.append more) = some (result, s'.append more) := by
  induction code generalizing s with
  | unused =>
    cases h
    rfl
  | leaf symbol =>
    cases h
    rfl
  | node zero one ihz iho =>
    rw [decode] at h
    split at h
    · cases h
    · next s₁ hb => simpa [decode, Source.bit?_append hb more] using ihz h
    · next s₁ hb => simpa [decode, Source.bit?_append hb more] using iho h

end Code

def Step.append (more : Bytes) : Step → Step
  | short => short
  | wrong corruption => wrong corruption
  | next place token source => next place token (source.append more)

section

variable {s : Source} (more : Bytes)

theorem readHeader_append (h : readHeader s ≠ .short) :
    readHeader (s.append more) = (readHeader s).append more := by
  unfold readHeader at h ⊢
  cases hn : s.number? 3 with
  | none => simp [hn] at h
  | some p =>
    rw [Source.number?_append hn more]
    dsimp only
    split_ifs <;> rfl

theorem readStoredHeader_append {last : Bool} (h : readStoredHeader last s ≠ .short) :
    readStoredHeader last (s.append more) = (readStoredHeader last s).append more := by
  unfold readStoredHeader at h ⊢
  rw [Source.align_append]
  cases hn : s.align.number? 32 with
  | none => simp [hn] at h
  | some p =>
    rw [Source.number?_append hn more]
    dsimp only
    split_ifs <;> rfl

theorem readStored_append {last : Bool} {left : Nat} (h : readStored last left s ≠ .short) :
    readStored last left (s.append more) = (readStored last left s).append more := by
  unfold readStored at h ⊢
  cases hn : s.number? 8 with
  | none => simp [hn] at h
  | some p =>
    rw [Source.number?_append hn more]
    rfl

theorem readSizes_append {last : Bool} (h : readSizes last s ≠ .short) :
    readSizes last (s.append more) = (readSizes last s).append more := by
  unfold readSizes at h ⊢
  cases hn : s.number? 14 with
  | none => simp [hn] at h
  | some p =>
    rw [Source.number?_append hn more]
    dsimp only
    split_ifs <;> rfl

theorem readCodeLength_append {last : Bool} {literals distances left : Nat} {found : List Nat}
    (h : readCodeLength last literals distances left found s ≠ .short) :
    readCodeLength last literals distances left found (s.append more) =
      (readCodeLength last literals distances left found s).append more := by
  unfold readCodeLength at h ⊢
  cases hn : s.number? 3 with
  | none => simp [hn] at h
  | some p =>
    rw [Source.number?_append hn more]
    dsimp only
    split_ifs
    · rfl
    · cases lengthCode? (p.1 :: found).reverse <;> rfl

theorem startSymbols_append (last : Bool) (literals : Nat) (lengths : List Nat) (s : Source) :
    startSymbols last literals lengths (s.append more) =
      (startSymbols last literals lengths s).append more := by
  unfold startSymbols
  dsimp only
  split_ifs <;> rfl

theorem repeat?_append {symbol : Nat} {found : List Nat} {result : Option (Nat × Nat)} {s' : Source}
    (h : repeat? symbol found s = some (result, s')) :
    repeat? symbol found (s.append more) = some (result, s'.append more) := by
  unfold repeat? at h ⊢
  split_ifs at h ⊢
  · cases h
    rfl
  all_goals
    obtain ⟨p, hn, hp⟩ := Option.map_eq_some_iff.mp h
    cases hp
    rw [Source.number?_append hn more]
    rfl

theorem readLength_append {last : Bool} {code : Code} {literals distances count : Nat}
    {found : List Nat} (h : readLength last code literals distances found count s ≠ .short) :
    readLength last code literals distances found count (s.append more) =
      (readLength last code literals distances found count s).append more := by
  unfold readLength at h ⊢
  cases hd : code.decode s with
  | none => simp [hd] at h
  | some p =>
    obtain ⟨symbol, s₁⟩ := p
    rw [Code.decode_append hd more]
    cases symbol with
    | none => rfl
    | some symbol =>
      simp only [hd] at h
      dsimp only
      cases hr : repeat? symbol found s₁ with
      | none => simp [hr] at h
      | some q =>
        obtain ⟨times, s₂⟩ := q
        rw [repeat?_append more hr]
        cases times with
        | none => rfl
        | some times =>
          dsimp only
          split_ifs
          · rfl
          · rfl
          · exact startSymbols_append more _ _ _ _

theorem readDistance_append {place : Place} {distances : Code} {written length : Nat}
    (h : readDistance place distances written length s ≠ .short) :
    readDistance place distances written length (s.append more) =
      (readDistance place distances written length s).append more := by
  unfold readDistance at h ⊢
  cases hd : distances.decode s with
  | none => simp [hd] at h
  | some p =>
    obtain ⟨symbol, s₁⟩ := p
    rw [Code.decode_append hd more]
    cases symbol with
    | none => rfl
    | some symbol =>
      simp only [hd] at h
      dsimp only
      cases hr : distanceRows[symbol]? with
      | none => rfl
      | some row =>
        simp only [hr] at h
        dsimp only
        cases hn : s₁.number? row.2 with
        | none => simp [hn] at h
        | some q =>
          rw [Source.number?_append hn more]
          dsimp only
          split_ifs <;> rfl

theorem readSymbol_append {place : Place} {literals distances : Code} {written : Nat}
    (h : readSymbol place literals distances written s ≠ .short) :
    readSymbol place literals distances written (s.append more) =
      (readSymbol place literals distances written s).append more := by
  unfold readSymbol at h ⊢
  cases hd : literals.decode s with
  | none => simp [hd] at h
  | some p =>
    obtain ⟨symbol, s₁⟩ := p
    rw [Code.decode_append hd more]
    cases symbol with
    | none => rfl
    | some symbol =>
      simp only [hd] at h
      dsimp only
      split_ifs at h ⊢
      · rfl
      · rfl
      · cases hr : lengthRows[symbol - 257]? with
        | none => rfl
        | some row =>
          simp only [hr] at h
          dsimp only
          cases hn : s₁.number? row.2 with
          | none => simp [hn] at h
          | some q =>
            simp only [hn] at h
            rw [Source.number?_append hn more]
            exact readDistance_append more h

/-- A step that is not short of input does not depend on what follows. -/
theorem step_append {place : Place} {written : Nat} (h : step place written s ≠ .short) :
    step place written (s.append more) = (step place written s).append more := by
  obtain ⟨phase, last⟩ := place
  cases phase with
  | header => exact readHeader_append more h
  | storedHeader => exact readStoredHeader_append more h
  | stored left => exact readStored_append more h
  | sizes => exact readSizes_append more h
  | codeLengths literals distances left found => exact readCodeLength_append more h
  | lengths code literals distances found count => exact readLength_append more h
  | symbols literals distances =>
    have he (s : Source) : step ⟨.symbols literals distances, last⟩ written s =
        readSymbol ⟨.symbols literals distances, last⟩ literals distances written s := rfl
    rw [he] at h
    rw [he, he, readSymbol_append more h]
  | done => rfl

end

def emitted (output : Array UInt8) : Option Token → Array UInt8
  | none => output
  | some token => token.emit output

/-- From a place and an input, decoding comes to the given result, where the input ends or is no
longer looked at. Every step takes a bit at least and gives no more than one copy. -/
inductive Decodes (result : Array UInt8) : Place → Source → Array UInt8 → Prop
  | stop {place : Place} {s : Source} (h : step place result.size s = .short) :
      Decodes result place s result
  | step {place place' : Place} {s s' : Source} {output : Array UInt8} {token : Option Token}
      (h : step place output.size s = .next place' token s') (hs : s'.size < s.size)
      (ht : (emitted output token).size ≤ output.size + 258)
      (hr : Decodes result place' s' (emitted output token)) : Decodes result place s output

theorem isPrefix_copyBack (distance length : Nat) (output : Array UInt8) :
    output.toList <+: (copyBack distance length output).toList := by
  induction length generalizing output with
  | zero => exact List.prefix_refl _
  | succ length ih =>
    rw [copyBack]
    refine List.IsPrefix.trans ?_ (ih _)
    simp

theorem isPrefix_emitted (output : Array UInt8) (token : Option Token) :
    output.toList <+: (emitted output token).toList := by
  cases token with
  | none => exact List.prefix_refl _
  | some token =>
    cases token with
    | literal b => simp [emitted, Token.emit]
    | copy length distance => exact isPrefix_copyBack distance length output

theorem step_done {place : Place} (h : place.phase = .done) (written : Nat) (s : Source) :
    step place written s = .short := by
  rw [step, h]

/-- On the first part of an input, the decoder stays on its way, and it gets to the end when there
is no other part. -/
theorem run_of_decodes {result : Array UInt8} {more : Bytes} (steps : Nat) {place : Place}
    {s : Source} {output : Array UInt8} (hd : Decodes result place (s.append more) output)
    (hs : s.size < steps) :
    ∃ d, run steps place s output = .ok d ∧
      Decodes result d.place (d.source.append more) d.output ∧
      output.size ≤ d.output.size ∧ (more = [] → d.output = result) := by
  induction steps generalizing place s output with
  | zero => omega
  | succ steps ih =>
    rw [run]
    cases hstep : step place output.size s with
    | short =>
      refine ⟨⟨place, s, output⟩, rfl, hd, Nat.le_refl _, ?_⟩
      rintro rfl
      rw [Source.append_nil] at hd
      cases hd with
      | stop h => rfl
      | step h => simp [hstep] at h
    | wrong c =>
      have ha := step_append more (by simp [hstep] : step place output.size s ≠ .short)
      rw [hstep] at ha
      cases hd with
      | stop h => simp [ha, Step.append] at h
      | step h => simp [ha, Step.append] at h
    | next place' token s' =>
      have ha := step_append more (by simp [hstep] : step place output.size s ≠ .short)
      rw [hstep] at ha
      cases hd with
      | stop h => simp [ha, Step.append] at h
      | step h hlt ht hr =>
        rw [ha, Step.append] at h
        cases h
        rw [Source.size_append, Source.size_append] at hlt
        obtain ⟨d, hrun, hd, hsize, hend⟩ := ih hr (by omega)
        refine ⟨d, ?_, hd, ?_, hend⟩
        · cases token with
          | none => exact hrun
          | some token => exact hrun
        · have hgrows : output.size ≤ (emitted output token).size := by
            simpa using (isPrefix_emitted output token).length_le
          exact Nat.le_trans hgrows hsize

theorem Decoder.feed_of_decodes {result : Array UInt8} {d : Decoder} {piece more : Bytes}
    (hd : Decodes result d.place (d.source.append (piece ++ more)) d.output) :
    ∃ d', d.feed piece = .ok d' ∧ Decodes result d'.place (d'.source.append more) d'.output ∧
      d.output.size ≤ d'.output.size ∧ (more = [] → d'.output = result) := by
  rw [← Source.append_append] at hd
  exact run_of_decodes _ hd (Nat.lt_succ_self _)

theorem Decodes.isPrefix {result : Array UInt8} {place : Place} {s : Source} {output : Array UInt8}
    (h : Decodes result place s output) : output.toList <+: result.toList := by
  induction h with
  | stop => exact List.prefix_refl _
  | step _ _ _ _ ih => exact (isPrefix_emitted _ _).trans ih

theorem Decodes.size_le {result : Array UInt8} {place : Place} {s : Source} {output : Array UInt8}
    (h : Decodes result place s output) : result.size ≤ output.size + 258 * s.size := by
  induction h with
  | stop => omega
  | step _ hs ht _ ih => omega

end Rollout.Deflate
