import Rollout.Proofs.Deflate.RoundTrip

namespace Rollout.Deflate

namespace Source

theorem size_of_bit? {s s' : Source} {b : Bool} (h : s.bit? = some (b, s')) :
    s'.size + 1 = s.size := by
  obtain ⟨held, bytes⟩ := s
  cases held with
  | cons c held =>
    obtain ⟨rfl, rfl⟩ : c = b ∧ (⟨held, bytes⟩ : Source) = s' := by simpa [bit?] using h
    simp only [size, List.length_cons]
    omega
  | nil =>
    cases bytes with
    | nil => simp [bit?] at h
    | cons byte bytes =>
      have hlen := length_bitsOfByte byte
      cases hb : bitsOfByte byte with
      | nil => simp [hb] at hlen
      | cons c held =>
        obtain ⟨rfl, rfl⟩ : c = b ∧ (⟨held, bytes⟩ : Source) = s' := by simpa [bit?, hb] using h
        simp only [hb, List.length_cons] at hlen
        simp only [size, List.length_cons, List.length_nil]
        omega

theorem size_of_number? {s s' : Source} {count n : Nat} (h : s.number? count = some (n, s')) :
    s'.size + count = s.size ∧ n < 1 <<< count := by
  induction count generalizing s n with
  | zero =>
    obtain ⟨rfl, rfl⟩ : 0 = n ∧ s = s' := by simpa [number?] using h
    exact ⟨rfl, by decide⟩
  | succ count ih =>
    rw [number?] at h
    split at h
    · cases h
    next b s₁ hb =>
    split at h
    · cases h
    next m s₂ hm =>
    cases h
    obtain ⟨hs, hn⟩ := ih hm
    have hbit := size_of_bit? hb
    have hle : b.toNat ≤ 1 := Bool.toNat_le b
    rw [Nat.shiftLeft_succ]
    omega

theorem size_align_le (s : Source) : s.align.size ≤ s.size := by
  simp only [size, align, List.length_nil]
  omega

end Source

namespace Code

/-- A code that has a choice to make before the first symbol. -/
def IsNode : Code → Prop
  | node _ _ => True
  | _ => False

theorem isNode_ofLengths (lengths : List Nat) : (ofLengths lengths).IsNode := by
  rw [ofLengths]
  cases forest lengths maxLength 1 with
  | nil => trivial
  | cons a rest =>
    cases rest with
    | nil => trivial
    | cons b rest => trivial

theorem size_decode_le {code : Code} {s s' : Source} {symbol : Option Nat}
    (h : code.decode s = some (symbol, s')) : s'.size ≤ s.size := by
  induction code generalizing s with
  | unused =>
    cases h
    exact Nat.le_refl _
  | leaf n =>
    cases h
    exact Nat.le_refl _
  | node zero one ihz iho =>
    rw [decode] at h
    split at h
    · cases h
    · next s₁ hb => exact Nat.le_trans (ihz h) (by have := Source.size_of_bit? hb; omega)
    · next s₁ hb => exact Nat.le_trans (iho h) (by have := Source.size_of_bit? hb; omega)

theorem size_decode_lt {code : Code} (hn : code.IsNode) {s s' : Source} {symbol : Option Nat}
    (h : code.decode s = some (symbol, s')) : s'.size < s.size := by
  cases code with
  | unused => exact hn.elim
  | leaf n => exact hn.elim
  | node zero one =>
    rw [decode] at h
    split at h
    · cases h
    · next s₁ hb =>
      have hsize := Source.size_of_bit? hb
      exact Nat.lt_of_le_of_lt (size_decode_le h) (by omega)
    · next s₁ hb =>
      have hsize := Source.size_of_bit? hb
      exact Nat.lt_of_le_of_lt (size_decode_le h) (by omega)

end Code

def Phase.Branches : Phase → Prop
  | lengths code .. => code.IsNode
  | symbols literals _ => literals.IsNode
  | _ => True

def Token.IsShort : Token → Prop
  | literal _ => True
  | copy length _ => length ≤ maxCopy

def Step.Advances (s : Source) : Step → Prop
  | next place token s' => s'.size < s.size ∧ place.phase.Branches ∧ ∀ t ∈ token, t.IsShort
  | _ => True

theorem branches_afterBlock (last : Bool) : (Place.afterBlock last).phase.Branches := by
  cases last <;> trivial

theorem readHeader_advances (s : Source) : (readHeader s).Advances s := by
  unfold readHeader
  cases h : s.number? 3 with
  | none => trivial
  | some p =>
    have hs := (Source.size_of_number? h).1
    have hless : p.2.size < s.size := by omega
    dsimp only
    split_ifs
    · exact ⟨hless, trivial, nofun⟩
    · exact ⟨hless, Code.isNode_ofLengths fixedLiteralLengths, nofun⟩
    · exact ⟨hless, trivial, nofun⟩
    · trivial

theorem readStoredHeader_advances (last : Bool) (s : Source) :
    (readStoredHeader last s).Advances s := by
  unfold readStoredHeader
  cases h : s.align.number? 32 with
  | none => trivial
  | some p =>
    have hs := (Source.size_of_number? h).1
    have hless : p.2.size < s.size := by
      have := s.size_align_le
      omega
    dsimp only
    split_ifs
    · exact ⟨hless, branches_afterBlock last, nofun⟩
    · exact ⟨hless, trivial, nofun⟩
    · trivial

theorem readStored_advances (last : Bool) (left : Nat) (s : Source) :
    (readStored last left s).Advances s := by
  unfold readStored
  cases h : s.number? 8 with
  | none => trivial
  | some p =>
    have hs := (Source.size_of_number? h).1
    have hless : p.2.size < s.size := by omega
    refine ⟨hless, ?_, fun t ht => ?_⟩
    · split_ifs
      · exact branches_afterBlock last
      · trivial
    · cases ht
      trivial

theorem readSizes_advances (last : Bool) (s : Source) : (readSizes last s).Advances s := by
  unfold readSizes
  cases h : s.number? 14 with
  | none => trivial
  | some p =>
    have hs := (Source.size_of_number? h).1
    have hless : p.2.size < s.size := by omega
    dsimp only
    split_ifs
    · trivial
    · exact ⟨hless, trivial, nofun⟩

theorem isNode_of_lengthCode? {found : List Nat} {code : Code} (h : lengthCode? found = some code) :
    code.IsNode := by
  unfold lengthCode? at h
  dsimp only at h
  split_ifs at h
  · cases h
    trivial
  · cases h
    exact Code.isNode_ofLengths _

theorem readCodeLength_advances (last : Bool) (literals distances left : Nat) (found : List Nat)
    (s : Source) : (readCodeLength last literals distances left found s).Advances s := by
  unfold readCodeLength
  cases h : s.number? 3 with
  | none => trivial
  | some p =>
    have hs := (Source.size_of_number? h).1
    have hless : p.2.size < s.size := by omega
    dsimp only
    split_ifs
    · exact ⟨hless, trivial, nofun⟩
    · cases hc : lengthCode? (p.1 :: found).reverse with
      | none => trivial
      | some code => exact ⟨hless, isNode_of_lengthCode? hc, nofun⟩

theorem size_of_repeat? {symbol : Nat} {found : List Nat} {result : Option (Nat × Nat)}
    {s s' : Source} (h : repeat? symbol found s = some (result, s')) : s'.size ≤ s.size := by
  unfold repeat? at h
  split_ifs at h
  · cases h
    exact Nat.le_refl _
  all_goals
    obtain ⟨p, hn, hp⟩ := Option.map_eq_some_iff.mp h
    cases hp
    have := (Source.size_of_number? hn).1
    omega

theorem startSymbols_advances {last : Bool} {literals : Nat} {lengths : List Nat} {s s' : Source}
    (h : s'.size < s.size) : (startSymbols last literals lengths s').Advances s := by
  unfold startSymbols
  dsimp only
  split_ifs
  · trivial
  · trivial
  · trivial
  · exact ⟨h, Code.isNode_ofLengths _, nofun⟩

theorem readLength_advances (last : Bool) {code : Code} (hn : code.IsNode)
    (literals distances : Nat) (found : List Nat) (count : Nat) (s : Source) :
    (readLength last code literals distances found count s).Advances s := by
  unfold readLength
  cases hd : code.decode s with
  | none => trivial
  | some p =>
    obtain ⟨symbol, s₁⟩ := p
    cases symbol with
    | none => trivial
    | some symbol =>
      dsimp only
      cases hr : repeat? symbol found s₁ with
      | none => trivial
      | some q =>
        obtain ⟨times, s₂⟩ := q
        cases times with
        | none => trivial
        | some times =>
          have hless : s₂.size < s.size :=
            Nat.lt_of_le_of_lt (size_of_repeat? hr) (Code.size_decode_lt hn hd)
          dsimp only
          split_ifs
          · trivial
          · exact ⟨hless, hn, nofun⟩
          · exact startSymbols_advances hless

theorem readDistance_advances {place : Place} (hp : place.phase.Branches) (distances : Code)
    (written : Nat) {length : Nat} (hl : length ≤ maxCopy) {s s' : Source} (h : s'.size < s.size) :
    (readDistance place distances written length s').Advances s := by
  unfold readDistance
  cases hd : distances.decode s' with
  | none => trivial
  | some p =>
    obtain ⟨symbol, s₁⟩ := p
    cases symbol with
    | none => trivial
    | some symbol =>
      dsimp only
      cases hr : distanceRows[symbol]? with
      | none => trivial
      | some row =>
        dsimp only
        cases hn : s₁.number? row.2 with
        | none => trivial
        | some q =>
          have h₁ := Code.size_decode_le hd
          have h₂ := (Source.size_of_number? hn).1
          dsimp only
          split_ifs
          · trivial
          · refine ⟨by omega, hp, fun t ht => ?_⟩
            cases ht
            exact hl

theorem lengthRows_le : ∀ row ∈ lengthRows, row.1 + (1 <<< row.2) ≤ maxCopy + 1 := by decide

theorem readSymbol_advances {place : Place} (hp : place.phase.Branches) {literals : Code}
    (hn : literals.IsNode) (distances : Code) (written : Nat) (s : Source) :
    (readSymbol place literals distances written s).Advances s := by
  unfold readSymbol
  cases hd : literals.decode s with
  | none => trivial
  | some p =>
    obtain ⟨symbol, s₁⟩ := p
    have hless := Code.size_decode_lt hn hd
    cases symbol with
    | none => trivial
    | some symbol =>
      dsimp only
      split_ifs
      · refine ⟨hless, hp, fun t ht => ?_⟩
        cases ht
        trivial
      · exact ⟨hless, branches_afterBlock _, nofun⟩
      · cases hr : lengthRows[symbol - 257]? with
        | none => trivial
        | some row =>
          dsimp only
          cases hx : s₁.number? row.2 with
          | none => trivial
          | some q =>
            obtain ⟨hs, hq⟩ := Source.size_of_number? hx
            have hrow := lengthRows_le row (List.mem_of_getElem? hr)
            exact readDistance_advances hp distances written (by omega) (by omega)

theorem step_advances {place : Place} (hp : place.phase.Branches) (written : Nat) (s : Source) :
    (step place written s).Advances s := by
  obtain ⟨phase, last⟩ := place
  cases phase with
  | header => exact readHeader_advances s
  | storedHeader => exact readStoredHeader_advances last s
  | stored left => exact readStored_advances last left s
  | sizes => exact readSizes_advances last s
  | codeLengths literals distances left found => exact readCodeLength_advances _ _ _ _ _ s
  | lengths code literals distances found count => exact readLength_advances last hp _ _ _ _ s
  | symbols literals distances => exact readSymbol_advances hp hp distances written s
  | done => trivial

theorem size_emitted_le {token : Option Token} (h : ∀ t ∈ token, t.IsShort) (output : Array UInt8) :
    (emitted output token).size ≤ output.size + 258 := by
  cases token with
  | none => exact Nat.le_add_right _ _
  | some token =>
    have ht := h token rfl
    cases token with
    | literal b =>
      rw [emitted, Token.emit, Array.size_push]
      omega
    | copy length distance =>
      rw [emitted, Token.emit, size_copyBack]
      exact Nat.add_le_add_left ht _

/-- A run has been on the way to where it ends, since its steps do not run out. -/
theorem decodes_of_run {steps : Nat} {place : Place} {s : Source} {output : Array UInt8}
    {d : Decoder} (hp : place.phase.Branches) (h : run steps place s output = .ok d)
    (hs : s.size < steps) : Decodes d.output place s output := by
  induction steps generalizing place s output with
  | zero => omega
  | succ steps ih =>
    have ha := step_advances hp output.size s
    rw [run] at h
    cases hstep : step place output.size s with
    | short =>
      rw [hstep] at h
      cases h
      exact .stop hstep
    | wrong c =>
      rw [hstep] at h
      cases h
    | next place' token s' =>
      rw [hstep] at h ha
      obtain ⟨hless, hp', ht⟩ := ha
      refine .step hstep hless (size_emitted_le ht output) (ih hp' ?_ (by omega))
      cases token with
      | none => exact h
      | some token => exact h

theorem decodes_of_inflate {bytes data : Bytes} {complete : Bool}
    (h : inflate bytes = .ok ⟨data, complete⟩) :
    Decodes data.toArray {} (Source.append {} bytes) #[] := by
  unfold inflate at h
  split at h
  · cases h
  next d hd =>
  obtain ⟨rfl, -⟩ : d.output.toList = data ∧
      (d.isDone && d.source.bytes.isEmpty) = complete := by simpa using h
  have hstart : ({} : Place).phase.Branches := trivial
  exact decodes_of_run hstart hd (Nat.lt_succ_self _)

end Rollout.Deflate
