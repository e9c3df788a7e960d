import Rollout.Proofs.Archive.Scan

namespace Rollout

namespace Record

theorem unsigned_lt (bytes : Bytes) : unsigned bytes < 0x100 ^ bytes.length := by
  induction bytes with
  | nil => exact Nat.one_pos
  | cons b bytes ih =>
    have hb := b.toNat_lt
    rw [unsigned, List.length_cons, Nat.pow_succ]
    omega

theorem isPrefix_encodeLength {header : Bytes} (hl : header.length ≤ 4) :
    header <+: encodeLength (unsigned header) := by
  -- each byte is the remainder of the bytes from it on
  have hbyte (b : UInt8) (n : Nat) : UInt8.ofNat (b.toNat + 0x100 * n) = b := by
    apply UInt8.toNat_inj.mp
    have hb := b.toNat_lt
    rw [UInt8.toNat_ofNat']
    omega
  have hnext (b : UInt8) (n : Nat) : (b.toNat + 0x100 * n) / 0x100 = n := by
    have hb := b.toNat_lt
    omega
  have hstep (n : Nat) : n / 0x10000 = n / 0x100 / 0x100 := by rw [Nat.div_div_eq_div_mul]
  have hlast (n : Nat) : n / 0x1000000 = n / 0x100 / 0x100 / 0x100 := by
    rw [Nat.div_div_eq_div_mul, Nat.div_div_eq_div_mul]
  match header, hl with
  | [], _ => exact List.nil_prefix
  | [a], _ => simp [encodeLength, unsigned]
  | [a, b], _ => simp [encodeLength, unsigned, hstep, hlast, hbyte, hnext]
  | [a, b, c], _ => simp [encodeLength, unsigned, hstep, hlast, hbyte, hnext]
  | [a, b, c, d], _ => simp [encodeLength, unsigned, hstep, hlast, hbyte, hnext]

theorem encodeLength_of_decodeLength {header : Bytes} (hl : header.length = 4)
    (h : 0 ≤ decodeLength header) :
    ∃ n < 0x80000000, header = encodeLength n ∧ decodeLength header = n := by
  have hlt := unsigned_lt header
  have heq := (isPrefix_encodeLength (Nat.le_of_eq hl)).eq_of_length hl
  rw [hl] at hlt
  by_cases hn : unsigned header < 0x80000000
  · exact ⟨unsigned header, hn, heq, by rw [decodeLength]; exact if_pos hn⟩
  · rw [decodeLength, if_neg hn] at h
    omega

/-- What a length and the bytes it counts can be. -/
theorem field_cases (data : Bytes) :
    data.length < 4 ∨
    (∃ header more, data = header ++ more ∧ header.length = 4 ∧ decodeLength header < 0) ∨
    (∃ header more, data = header ++ more ∧ header.length = 4 ∧
      (more.length : Int) < decodeLength header) ∨
    ∃ field more, field.length < 0x80000000 ∧
      data = encodeLength field.length ++ (field ++ more) := by
  by_cases hshort : data.length < 4
  · exact .inl hshort
  have hsplit := (List.take_append_drop 4 data).symm
  have hl : (data.take 4).length = 4 := List.length_take_of_le (by omega)
  by_cases hneg : decodeLength (data.take 4) < 0
  · exact .inr (.inl ⟨_, _, hsplit, hl, hneg⟩)
  obtain ⟨n, hn, heq, hdec⟩ := encodeLength_of_decodeLength hl (by omega)
  by_cases hmore : (data.drop 4).length < n
  · exact .inr (.inr (.inl ⟨_, _, hsplit, hl, by omega⟩))
  have hlen : ((data.drop 4).take n).length = n := List.length_take_of_le (by omega)
  refine .inr (.inr (.inr ⟨(data.drop 4).take n, (data.drop 4).drop n, by omega, ?_⟩))
  rw [hlen, ← heq, List.take_append_drop, ← hsplit]

end Record

namespace Scan

/-- Bytes begin with a record, or reading ends at them. -/
theorem exists_record_or_ends (data : Bytes) :
    (∃ (r : Record) (more : Bytes), r.Storable ∧ data = r.encode ++ more) ∨
      ∃ ending, Ends data ending := by
  obtain hshort | ⟨header, more, rfl, hl, hneg⟩ | ⟨header, more, rfl, hl, hless⟩ |
    ⟨path, rest, hp, rfl⟩ := Record.field_cases data
  · exact .inr ⟨_, .header hshort⟩
  · exact .inr ⟨_, .negativePath hl hneg⟩
  · exact .inr ⟨_, .path hl hless⟩
  obtain hshort | ⟨size, more, rfl, hl, hneg⟩ | ⟨size, more, rfl, hl, hless⟩ |
    ⟨content, more, hc, rfl⟩ := Record.field_cases rest
  · exact .inr ⟨_, .size hp hshort⟩
  · exact .inr ⟨_, .negativeSize hp hl hneg⟩
  · exact .inr ⟨_, .content hp hl hless⟩
  have hlayout : Record.encodeLength path.length ++
      (path ++ (Record.encodeLength content.length ++ (content ++ more))) =
        Record.layout path content ++ more := by
    simp only [Record.layout, List.append_assoc]
  rw [hlayout]
  cases htext : Utf8.decode path with
  | error e => exact .inr ⟨_, .undecodable hp hc htext⟩
  | ok t =>
    obtain rfl := Utf8.decode_eq_ok.mp htext
    exact .inl ⟨⟨t, content⟩, more, ⟨hp, hc⟩, by rw [Record.encode_eq]⟩

theorem Ends.unique {data : Bytes} {e₁ e₂ : Ending} (h₁ : Ends data e₁) (h₂ : Ends data e₂) :
    e₁ = e₂ := by
  have hold : (Reader.plain [data]).Holds data := List.flatten_singleton
  exact Except.error.inj ((next_of_ends h₁ hold).symm.trans (next_of_ends h₂ hold))

theorem Ends.not_isPrefix {data : Bytes} {ending : Ending} (h : Ends data ending) {r : Record}
    (hs : r.Storable) : ¬ r.encode <+: data := by
  rintro ⟨more, rfl⟩
  have hold : (Reader.plain [r.encode ++ more]).Holds (r.encode ++ more) := List.flatten_singleton
  obtain ⟨r', hnext, -⟩ := next_of_holds hs hold
  rw [next_of_ends h hold] at hnext
  cases hnext

/-- Bytes as the records they begin with and a rest that begins with no further one. -/
structure Splits (data : Bytes) (records : List Record) (rest : Bytes) : Prop where
  eq : data = Record.encodeAll records ++ rest
  storable : ∀ r ∈ records, r.Storable
  maximal : ∀ r : Record, r.Storable → ¬ r.encode <+: rest

theorem Splits.ends {data rest : Bytes} {records : List Record} (h : Splits data records rest) :
    ∃ ending, Ends rest ending := by
  obtain ⟨r, more, hs, rfl⟩ | he := exists_record_or_ends rest
  · exact (h.maximal r hs (List.prefix_append _ _)).elim
  · exact he

theorem Splits.cons {r : Record} (hs : r.Storable) {data rest : Bytes} {records : List Record}
    (h : Splits data records rest) : Splits (r.encode ++ data) (r :: records) rest := by
  refine ⟨?_, List.forall_mem_cons.mpr ⟨hs, h.storable⟩, h.maximal⟩
  rw [Record.encodeAll_cons, List.append_assoc, ← h.eq]

theorem exists_splits (data : Bytes) : ∃ records rest, Splits data records rest := by
  induction hn : data.length using Nat.strongRecOn generalizing data with
  | ind n ih =>
    obtain ⟨r, more, hs, rfl⟩ | ⟨ending, he⟩ := exists_record_or_ends data
    · have hless : more.length < n := by
        rw [← hn, List.length_append, Record.encode_eq, Record.layout, List.length_append,
          Record.length_encodeLength]
        omega
      obtain ⟨records, rest, hsplit⟩ := ih _ hless more rfl
      exact ⟨r :: records, rest, hsplit.cons hs⟩
    · exact ⟨[], data, rfl, fun r hr => absurd hr List.not_mem_nil, fun r hs => he.not_isPrefix hs⟩

theorem Splits.ofStream_eq {codec : Codec} {stream : Stream} {data rest : Bytes}
    {records : List Record} {ending : Ending} (h : Splits data records rest)
    (he : Ends rest ending) (hc : codec.Yields stream.flatten data) :
    ofStream codec stream = ⟨records, ending⟩ := by
  rw [h.eq] at hc
  exact Scan.ofStream_eq hc h.storable he

theorem Splits.unique {data rest rest' : Bytes} {records records' : List Record}
    (h : Splits data records rest) (h' : Splits data records' rest') :
    records' = records ∧ rest' = rest := by
  obtain ⟨e, he⟩ := h.ends
  obtain ⟨e', he'⟩ := h'.ends
  have hc : Codec.plain.Yields [data].flatten data := List.flatten_singleton
  obtain ⟨rfl, -⟩ := Scan.mk.inj ((h'.ofStream_eq he' hc).symm.trans (h.ofStream_eq he hc))
  exact ⟨rfl, List.append_cancel_left (h'.eq.symm.trans h.eq)⟩

/-- A whole length below zero, of the path or of the content, or a whole record whose path is no
text. -/
inductive Malformed : Bytes → Prop
  | pathLength {header more : Bytes} (hl : header.length = 4)
      (h : Record.decodeLength header < 0) : Malformed (header ++ more)
  | contentLength {path size more : Bytes} (hp : path.length < 0x80000000) (hl : size.length = 4)
      (h : Record.decodeLength size < 0) :
      Malformed (Record.encodeLength path.length ++ (path ++ (size ++ more)))
  | path {path content more : Bytes} (hp : path.length < 0x80000000)
      (hc : content.length < 0x80000000) (h : ∀ t, path ≠ Utf8.encode t) :
      Malformed (Record.layout path content ++ more)

def Torn (rest : Bytes) : Prop :=
  ∃ path content : Bytes, path.length < 0x80000000 ∧ content.length < 0x80000000 ∧
    rest <+: Record.layout path content ∧ rest.length < (Record.layout path content).length

theorem Malformed.ends {rest : Bytes} (h : Malformed rest) :
    ∃ detail, Ends rest (.wrong (.invalidArchive detail)) := by
  cases h with
  | pathLength hl h => exact ⟨_, .negativePath hl h⟩
  | contentLength hp hl h => exact ⟨_, .negativeSize hp hl h⟩
  | @path path content more hp hc h =>
    cases htext : Utf8.decode path with
    | ok t => exact (h t (Utf8.decode_eq_ok.mp htext)).elim
    | error e => exact ⟨_, .undecodable hp hc htext⟩

theorem exists_append_of_isPrefix {a b rest : Bytes} (h : rest <+: a ++ b)
    (hl : a.length ≤ rest.length) : ∃ more, rest = a ++ more ∧ more <+: b := by
  obtain ⟨more, rfl⟩ := List.prefix_of_prefix_length_le (List.prefix_append a b) h hl
  exact ⟨more, rfl, (List.prefix_append_right_inj a).mp h⟩

/-- A record that breaks off, in whichever of its fields, is no fault. -/
theorem Torn.ends {rest : Bytes} (h : Torn rest) : Ends rest .clean ∨ Ends rest .truncated := by
  obtain ⟨path, content, hp, hc, hpre, hless⟩ := h
  simp only [Record.layout, List.length_append, Record.length_encodeLength] at hpre hless
  have hlength (n : Nat) := Record.length_encodeLength n
  by_cases hheader : rest.length < 4
  · exact .inl (.header hheader)
  obtain ⟨rest₁, rfl, hpre₁⟩ := exists_append_of_isPrefix hpre (by rw [hlength]; omega)
  rw [List.length_append, hlength] at hless
  right
  by_cases hpath : rest₁.length < path.length
  · refine .path (hlength _) ?_
    rw [Record.decodeLength_encodeLength hp]
    exact_mod_cast hpath
  obtain ⟨rest₂, rfl, hpre₂⟩ := exists_append_of_isPrefix hpre₁ (by omega)
  rw [List.length_append] at hless
  by_cases hsize : rest₂.length < 4
  · exact .size hp hsize
  obtain ⟨rest₃, rfl, -⟩ := exists_append_of_isPrefix hpre₂ (by rw [hlength]; omega)
  rw [List.length_append, hlength] at hless
  refine .content hp (hlength _) ?_
  rw [Record.decodeLength_encodeLength hc]
  exact_mod_cast (by omega : rest₃.length < content.length)

theorem exists_isPrefix_of_length_lt {rest : Bytes} {n : Nat} (h : rest.length < n) :
    ∃ field : Bytes, field.length = n ∧ rest <+: field :=
  ⟨rest ++ List.replicate (n - rest.length) 0, by simp; omega, List.prefix_append _ _⟩

theorem exists_isPrefix_encodeLength {rest : Bytes} (h : rest.length < 4) :
    ∃ field : Bytes, field.length < 0x80000000 ∧ rest <+: Record.encodeLength field.length := by
  have hlt := Record.unsigned_lt rest
  have hpow : 0x100 ^ rest.length ≤ 0x100 ^ 3 := Nat.pow_le_pow_right (by decide) (by omega)
  refine ⟨List.replicate (Record.unsigned rest) 0, ?_, ?_⟩
  · rw [List.length_replicate]
    omega
  · rw [List.length_replicate]
    exact Record.isPrefix_encodeLength (by omega)

/-- Reading ends with a fault where the rest is malformed, and in silence where it is torn. -/
theorem Ends.cases {rest : Bytes} {ending : Ending} (h : Ends rest ending) :
    (Malformed rest ∧ ∃ detail, ending = .wrong (.invalidArchive detail)) ∨
      (Torn rest ∧ (ending = .clean ∨ ending = .truncated)) := by
  cases h with
  | header hshort =>
    obtain ⟨path, hp, hpre⟩ := exists_isPrefix_encodeLength hshort
    refine .inr ⟨⟨path, [], hp, by decide, hpre.trans (List.prefix_append _ _), ?_⟩, .inl rfl⟩
    simp only [Record.layout, List.length_append, Record.length_encodeLength]
    omega
  | negativePath hl hneg => exact .inl ⟨.pathLength hl hneg, _, rfl⟩
  | @path header rest hl hshort =>
    obtain ⟨n, hn, rfl, hdec⟩ := Record.encodeLength_of_decodeLength hl (by omega)
    obtain ⟨path, rfl, hpre⟩ := exists_isPrefix_of_length_lt (by omega : rest.length < n)
    refine .inr ⟨⟨path, [], hn, by decide, ?_, ?_⟩, .inr rfl⟩
    · exact (List.prefix_append_right_inj _).mpr (hpre.trans (List.prefix_append _ _))
    · simp only [Record.layout, List.length_append]
      omega
  | @size path rest hp hshort =>
    obtain ⟨content, hc, hpre⟩ := exists_isPrefix_encodeLength hshort
    refine .inr ⟨⟨path, content, hp, hc, ?_, ?_⟩, .inr rfl⟩
    · simpa only [Record.layout, List.prefix_append_right_inj] using
        hpre.trans (List.prefix_append _ _)
    · simp only [Record.layout, List.length_append, Record.length_encodeLength]
      omega
  | negativeSize hp hl hneg => exact .inl ⟨.contentLength hp hl hneg, _, rfl⟩
  | @content path size rest hp hl hshort =>
    obtain ⟨n, hn, rfl, hdec⟩ := Record.encodeLength_of_decodeLength hl (by omega)
    obtain ⟨content, rfl, hpre⟩ := exists_isPrefix_of_length_lt (by omega : rest.length < n)
    refine .inr ⟨⟨path, content, hp, hn, ?_, ?_⟩, .inr rfl⟩
    · simpa only [Record.layout, List.prefix_append_right_inj] using hpre
    · simp only [Record.layout, List.length_append]
      omega
  | undecodable hp hc hbad =>
    refine .inl ⟨.path hp hc fun t ht => ?_, _, rfl⟩
    rw [Utf8.decode_eq_ok.mpr ht] at hbad
    cases hbad

theorem Ends.wrong_iff {rest : Bytes} {ending : Ending} (h : Ends rest ending) :
    (∃ detail, ending = .wrong (.invalidArchive detail)) ↔ Malformed rest := by
  constructor
  · rintro ⟨detail, rfl⟩
    obtain ⟨hm, -⟩ | ⟨-, hq | hq⟩ := h.cases
    · exact hm
    · cases hq
    · cases hq
  · intro hm
    obtain ⟨detail, he⟩ := hm.ends
    exact ⟨detail, h.unique he⟩

theorem Ends.quiet_iff {rest : Bytes} {ending : Ending} (h : Ends rest ending) :
    (ending = .clean ∨ ending = .truncated) ↔ Torn rest := by
  constructor
  · intro hq
    obtain ⟨-, detail, rfl⟩ | ⟨ht, -⟩ := h.cases
    · obtain hq | hq := hq <;> cases hq
    · exact ht
  · intro ht
    exact ht.ends.imp h.unique h.unique

theorem Ends.torn_iff {rest : Bytes} {ending : Ending} (h : Ends rest ending) :
    Torn rest ↔ ¬ Malformed rest := by
  rw [← h.quiet_iff, ← h.wrong_iff]
  obtain ⟨-, detail, rfl⟩ | ⟨-, rfl | rfl⟩ := h.cases <;> simp

theorem Torn.splits {rest : Bytes} (h : Torn rest) : Splits rest [] rest := by
  refine ⟨rfl, fun r hr => absurd hr List.not_mem_nil, fun r hs => ?_⟩
  obtain he | he := h.ends
  · exact he.not_isPrefix hs
  · exact he.not_isPrefix hs

theorem torn_nil : Torn [] := ⟨[], [], by decide, by decide, List.nil_prefix, by decide⟩

/-- The first bytes of an archive split into the records that are wholly among them and a part of
the next one. -/
theorem exists_splits_take (n : Nat) {archive : List Record} (hs : ∀ r ∈ archive, r.Storable) :
    ∃ k ≤ archive.length, ∃ rest, Torn rest ∧
      Splits ((Record.encodeAll archive).take n) (archive.take k) rest ∧
      ∀ i ≤ archive.length, i ≤ k ↔ (Record.encodeAll (archive.take i)).length ≤ n := by
  induction archive generalizing n with
  | nil =>
    refine ⟨0, Nat.le_refl 0, [], torn_nil, ?_, fun i hi => ?_⟩
    · rw [Record.encodeAll, List.flatMap_nil, List.take_nil, List.take_nil]
      exact torn_nil.splits
    · simp [Record.encodeAll, Nat.le_zero.mp hi]
  | cons r archive ih =>
    rw [List.forall_mem_cons] at hs
    obtain ⟨hr, hs⟩ := hs
    have hcount (i : Nat) : (Record.encodeAll ((r :: archive).take (i + 1))).length =
        r.encode.length + (Record.encodeAll (archive.take i)).length := by
      rw [List.take_succ_cons, Record.encodeAll_cons, List.length_append]
    by_cases hn : n < r.encode.length
    · have htorn : Torn (r.encode.take n) := by
        refine ⟨Utf8.encode r.path, r.content, hr.path_lt, hr.content_lt, ?_, ?_⟩
        · rw [← Record.encode_eq]
          exact List.take_prefix _ _
        · rw [← Record.encode_eq, List.length_take]
          omega
      refine ⟨0, Nat.zero_le _, _, htorn, ?_, fun i hi => ?_⟩
      · rw [Record.encodeAll_cons, List.take_append_of_le_length (Nat.le_of_lt hn)]
        exact htorn.splits
      · cases i with
        | zero => exact iff_of_true (Nat.le_refl 0) (Nat.zero_le n)
        | succ i =>
          rw [hcount]
          omega
    · obtain ⟨m, rfl⟩ : ∃ m, n = r.encode.length + m := ⟨n - r.encode.length, by omega⟩
      obtain ⟨k, hk, rest, htorn, hsplit, hwhole⟩ := ih m hs
      refine ⟨k + 1, Nat.succ_le_succ hk, rest, htorn, ?_, fun i hi => ?_⟩
      · rw [Record.encodeAll_cons, List.take_length_add_append]
        exact hsplit.cons hr
      · cases i with
        | zero => exact iff_of_true (Nat.zero_le _) (Nat.zero_le _)
        | succ i =>
          have hi : i ≤ archive.length := Nat.le_of_succ_le_succ hi
          rw [hcount, Nat.add_le_add_iff_right, hwhole i hi, Nat.add_le_add_iff_left]

/-- Reading an archive accepts exactly the grammar. The bytes split into records and a rest in one
way; the records are read, and the reader complains if and only if the rest is malformed. The rest
is torn otherwise. So what was read always encodes to a first part of the bytes, and of an archive
that breaks off the records are read that are wholly there. -/
theorem ofStream_plain_iff_grammar (stream : Stream) :
    ∃ records rest ending, ofStream .plain stream = ⟨records, ending⟩ ∧
      (∀ records' rest', Splits stream.flatten records' rest' ↔
        records' = records ∧ rest' = rest) ∧
      ((∃ detail, ending = .wrong (.invalidArchive detail)) ↔ Malformed rest) ∧
      ((ending = .clean ∨ ending = .truncated) ↔ ¬ Malformed rest) ∧
      (Torn rest ↔ ¬ Malformed rest) ∧
      Record.encodeAll records <+: stream.flatten ∧
      ∀ (archive : List Record) (n : Nat), (∀ r ∈ archive, r.Storable) →
        stream.flatten = (Record.encodeAll archive).take n →
        ∃ k ≤ archive.length, records = archive.take k ∧ (ending = .clean ∨ ending = .truncated) ∧
          ∀ i ≤ archive.length, i ≤ k ↔ (Record.encodeAll (archive.take i)).length ≤ n := by
  obtain ⟨records, rest, hsplit⟩ := exists_splits stream.flatten
  obtain ⟨ending, he⟩ := hsplit.ends
  refine ⟨records, rest, ending, hsplit.ofStream_eq he rfl, fun records' rest' => ⟨?_, ?_⟩,
    he.wrong_iff, he.quiet_iff.trans he.torn_iff, he.torn_iff, ⟨rest, hsplit.eq.symm⟩, ?_⟩
  · exact hsplit.unique
  · rintro ⟨rfl, rfl⟩
    exact hsplit
  · intro archive n hs hdata
    obtain ⟨k, hk, rest', htorn, hsplit', hwhole⟩ := exists_splits_take n hs
    rw [← hdata] at hsplit'
    obtain ⟨rfl, rfl⟩ := hsplit'.unique hsplit
    exact ⟨k, hk, rfl, he.quiet_iff.mpr htorn, hwhole⟩

/-- An archive of two records in three pieces, without its last two bytes. -/
theorem ofStream_plain_iff_grammar_torn :
    (∀ r ∈ [Record.mk "é".toList [7], Record.mk "b".toList [8, 9]], r.Storable) ∧
      [[2, 0, 0], [0, 0xC3, 0xA9, 1, 0, 0, 0, 7, 1, 0], [0, 0, 98, 2, 0, 0, 0]].flatten =
        (Record.encodeAll [Record.mk "é".toList [7], Record.mk "b".toList [8, 9]]).take 20 ∧
      ∃ ending, ofStream .plain
          [[2, 0, 0], [0, 0xC3, 0xA9, 1, 0, 0, 0, 7, 1, 0], [0, 0, 98, 2, 0, 0, 0]] =
        ⟨[⟨"é".toList, [7]⟩], ending⟩ ∧ (ending = .clean ∨ ending = .truncated) := by
  have hs : ∀ r ∈ [Record.mk "é".toList [7], Record.mk "b".toList [8, 9]], r.Storable := by
    simp only [List.forall_mem_cons]
    exact ⟨⟨by decide, by decide⟩, ⟨by decide, by decide⟩, fun r hr => absurd hr List.not_mem_nil⟩
  have hdata : [[2, 0, 0], [0, 0xC3, 0xA9, 1, 0, 0, 0, 7, 1, 0], [0, 0, 98, 2, 0, 0, 0]].flatten =
      (Record.encodeAll [Record.mk "é".toList [7], Record.mk "b".toList [8, 9]]).take 20 := by decide
  obtain ⟨records, rest, ending, hscan, -, -, -, -, -, htake⟩ := ofStream_plain_iff_grammar
    [[2, 0, 0], [0, 0xC3, 0xA9, 1, 0, 0, 0, 7, 1, 0], [0, 0, 98, 2, 0, 0, 0]]
  obtain ⟨k, hk, rfl, hquiet, hwhole⟩ := htake _ 20 hs hdata
  have hfirst : 1 ≤ k := (hwhole 1 (by decide)).mpr (by decide)
  have hsecond : ¬ 2 ≤ k := fun h => absurd ((hwhole 2 (by decide)).mp h) (by decide)
  obtain rfl : k = 1 := by omega
  exact ⟨hs, hdata, ending, hscan, hquiet⟩

end Scan

end Rollout
