import Rollout.Archive
import Rollout.Proofs.Deflate.Finished
import Rollout.Proofs.Utf8

namespace Rollout

namespace Stream

theorem flatten_cut {size : Nat} (h : 0 < size) (fuel : Nat) {data : Bytes}
    (hf : data.length ≤ fuel) : (cut size fuel data).flatten = data := by
  induction fuel generalizing data with
  | zero =>
    rw [List.eq_nil_of_length_eq_zero (Nat.le_zero.mp hf)]
    rfl
  | succ fuel ih =>
    cases data with
    | nil => rfl
    | cons b rest =>
      have hlen : ((b :: rest).drop size).length ≤ fuel := by
        rw [List.length_cons] at hf
        rw [List.length_drop, List.length_cons]
        omega
      rw [cut, List.splitAt_eq, List.flatten_cons, ih hlen, List.take_append_drop]

theorem flatten_ofBytes {size : Nat} (h : 0 < size) (data : Bytes) :
    (ofBytes size data).flatten = data := flatten_cut h data.length (Nat.le_refl _)

/-- A read takes some of the next bytes, unless there are none. -/
theorem read_spec {size : Nat} (h : 0 < size) (s : Stream) :
    s.flatten = (s.read size).1 ++ (s.read size).2.flatten ∧ (s.read size).1.length ≤ size ∧
      ((s.read size).1 = [] → s.flatten = []) := by
  fun_induction read size s with
  | case1 => simp
  | case2 rest ih => simpa using ih
  | case3 piece rest hne taken left hsplit =>
    rw [List.splitAt_eq, Prod.mk.injEq] at hsplit
    obtain ⟨rfl, rfl⟩ := hsplit
    refine ⟨?_, List.length_take_le _ _, fun he => ?_⟩
    · split_ifs with hleft
      · rw [List.flatten_cons, List.take_of_length_le (by simpa using hleft)]
      · rw [List.flatten_cons, List.flatten_cons, ← List.append_assoc, List.take_append_drop]
    · obtain hz | rfl := List.take_eq_nil_iff.mp he
      · omega
      · exact (hne rfl).elim

theorem total_read_lt {size : Nat} {s : Stream} (h : (s.read size).1 ≠ []) (h0 : 0 < size) :
    (s.read size).2.total < s.total := by
  rw [total, total, (read_spec h0 s).1, List.length_append]
  exact Nat.lt_add_of_pos_left (List.length_pos_iff.mpr h)

end Stream

namespace Inflater

open Deflate

/-- The decoder of an inflater is on its way to a result, and at its end when no input is left. -/
structure LeadsTo (i : Inflater) (result : Array UInt8) : Prop where
  decodes : Decodes result i.decoder.place (i.decoder.source.append i.stream.flatten)
    i.decoder.output
  ended : i.stream.flatten = [] → i.decoder.output = result
  given_le : i.given ≤ i.decoder.output.size

theorem output_eq_of_isDone {i : Inflater} {result : Array UInt8} (h : i.LeadsTo result)
    (hd : i.decoder.isDone) : i.decoder.output = result := by
  have hd : i.decoder.place.phase = .done := by simpa [Decoder.isDone] using hd
  cases h.decodes with
  | stop => rfl
  | step hs => simp [step_done hd] at hs

theorem fill_spec (wanted pieces : Nat) {i : Inflater} {result : Array UInt8}
    (h : i.LeadsTo result) (hp : i.stream.total < pieces) :
    ∃ i', i.fill wanted pieces = .ok i' ∧ i'.LeadsTo result ∧ i'.given = i.given ∧
      (wanted ≤ i'.decoder.output.size ∨ i'.decoder.output = result) := by
  induction pieces generalizing i with
  | zero => omega
  | succ pieces ih =>
    rw [fill]
    split_ifs with hstop
    · refine ⟨i, rfl, h, rfl, ?_⟩
      obtain hw | hd : wanted ≤ i.decoder.output.size ∨ i.decoder.isDone := by simpa using hstop
      · exact .inl hw
      · exact .inr (output_eq_of_isDone h hd)
    · have hportion : 0 < portion := by decide
      obtain ⟨hsplit, -, hend⟩ := Stream.read_spec hportion i.stream
      have hless (hne : (i.stream.read portion).1 ≠ []) :=
        Stream.total_read_lt hne hportion
      generalize i.stream.read portion = taken at hsplit hend hless
      obtain ⟨_ | ⟨b, piece⟩, stream⟩ := taken
      · have hend : i.stream.flatten = [] := hend rfl
        have hrest : stream.flatten = [] := by simpa [hend] using hsplit.symm
        refine ⟨{ i with stream }, rfl, ⟨?_, fun _ => h.ended hend, h.given_le⟩, rfl,
          .inr (h.ended hend)⟩
        have hdec := h.decodes
        rw [hend] at hdec
        rwa [hrest]
      · have hdec := h.decodes
        rw [hsplit] at hdec
        obtain ⟨decoder, hfeed, hdec', hgrows, hend'⟩ := Decoder.feed_of_decodes hdec
        have hless : stream.total < i.stream.total := hless (List.cons_ne_nil b piece)
        dsimp only
        rw [hfeed]
        exact ih ⟨hdec', hend', Nat.le_trans h.given_le hgrows⟩ (Nat.lt_of_lt_of_le hless (by omega))

def Holds (i : Inflater) (data : Bytes) : Prop :=
  ∃ result, i.LeadsTo result ∧ data = result.toList.drop i.given

theorem read_spec {size : Nat} (h0 : 0 < size) {i : Inflater} {data : Bytes} (h : i.Holds data) :
    ∃ bytes i' rest, i.read size = .ok (bytes, i') ∧ data = bytes ++ rest ∧ i'.Holds rest ∧
      bytes.length ≤ size ∧ (bytes = [] → data = []) := by
  obtain ⟨result, hleads, rfl⟩ := h
  obtain ⟨i', hfill, hleads', hgiven, hfull⟩ :=
    fill_spec (i.given + size) (i.stream.total + 1) hleads (Nat.lt_succ_self _)
  have hle : i.given ≤ i'.decoder.output.toList.length := by
    simpa [hgiven] using hleads'.given_le
  obtain ⟨count, hcount⟩ : ∃ count, min (i.given + size) i'.decoder.output.size = i.given + count :=
    ⟨_, (Nat.add_sub_cancel' (Nat.le_min.mpr ⟨by omega, by simpa using hle⟩)).symm⟩
  have hstop : i.given + count ≤ i'.decoder.output.toList.length := by
    rw [← hcount, Array.length_toList]
    exact Nat.min_le_right _ _
  -- the bytes given are a part of the result, since the output is a first part of it
  have hbytes : (i'.decoder.output.extract i.given (i.given + count)).toList =
      (result.toList.drop i.given).take count := by
    obtain ⟨tail, htail⟩ := hleads'.decodes.isPrefix
    rw [Array.toList_extract, List.extract_eq_take_drop, Nat.add_sub_cancel_left, ← htail,
      List.drop_append_of_le_length hle, List.take_append_of_le_length]
    rw [List.length_drop]
    omega
  refine ⟨(result.toList.drop i.given).take count, { i' with given := i.given + count },
    result.toList.drop (i.given + count), ?_, ?_, ⟨result, ⟨hleads'.decodes, hleads'.ended, ?_⟩, rfl⟩,
    ?_, ?_⟩
  · rw [read, hfill]
    dsimp only
    rw [hgiven, hcount, hbytes]
  · rw [← List.drop_drop, List.take_append_drop]
  · simpa using hstop
  · exact Nat.le_trans (List.length_take_le _ _) (by omega)
  · intro hnil
    obtain hz | hz := List.take_eq_nil_iff.mp hnil
    · obtain hw | rfl := hfull
      · omega
      · rw [List.drop_eq_nil_iff, Array.length_toList]
        omega
    · exact hz

theorem holds_ofStream {stream : Stream} {data : Bytes} {complete : Bool}
    (h : inflate stream.flatten = .ok ⟨data, complete⟩) : Inflater.Holds { stream } data := by
  have hd := decodes_of_inflate h
  refine ⟨data.toArray, ⟨hd, fun hnil => ?_, Nat.zero_le _⟩, rfl⟩
  rw [show stream.flatten = [] from hnil] at hd
  generalize data.toArray = result at hd
  cases hd with
  | stop => rfl
  | step hs => cases hs

end Inflater

/-- The bytes stand for the data: they are the data, or a finished stream of compressed data. -/
def Codec.Encodes (bytes data : Bytes) : Codec → Prop
  | plain => bytes = data
  | deflate => Deflate.inflate bytes = .ok ⟨data, true⟩

/-- The data can be read off the bytes: these are the data, or compressed data, finished or not,
that give the data as far as they can be decoded. -/
def Codec.Yields (bytes data : Bytes) : Codec → Prop
  | plain => bytes = data
  | deflate => ∃ complete, Deflate.inflate bytes = .ok ⟨data, complete⟩

theorem Codec.Encodes.yields {codec : Codec} {bytes data : Bytes} (h : codec.Encodes bytes data) :
    codec.Yields bytes data := by
  cases codec with
  | plain => exact h
  | deflate => exact ⟨true, h⟩

def Codec.seal (data : Bytes) : Codec → Bytes
  | plain => data
  | deflate => Deflate.compress data

theorem Codec.encodes_seal (codec : Codec) (data : Bytes) :
    codec.Encodes (codec.seal data) data := by
  cases codec with
  | plain => rfl
  | deflate => exact Deflate.inflate_compress data

def Archiver.pack (codec : Codec) (records : List Record) : Bytes :=
  codec.seal (Record.encodeAll records)

theorem Archiver.encodes_pack (codec : Codec) (records : List Record) :
    codec.Encodes (pack codec records) (Record.encodeAll records) := codec.encodes_seal _

namespace Reader

def Holds (data : Bytes) : Reader → Prop
  | plain stream => stream.flatten = data
  | deflate inflater => inflater.Holds data

theorem read_spec {size : Nat} (h0 : 0 < size) {r : Reader} {data : Bytes} (h : r.Holds data) :
    ∃ bytes r' rest, r.read size = .ok (bytes, r') ∧ data = bytes ++ rest ∧ r'.Holds rest ∧
      bytes.length ≤ size ∧ (bytes = [] → data = []) := by
  cases r with
  | plain stream =>
    obtain ⟨hsplit, hlen, hend⟩ := Stream.read_spec h0 stream
    obtain rfl : stream.flatten = data := h
    exact ⟨_, _, _, rfl, hsplit, rfl, hlen, hend⟩
  | deflate inflater =>
    obtain ⟨bytes, i', rest, hread, hspec⟩ := Inflater.read_spec h0 h
    exact ⟨bytes, .deflate i', rest, by rw [read, hread], hspec⟩

/-- The next bytes are collected, in however many reads. -/
theorem collect_spec (fuel : Nat) (before : Bytes) {data more : Bytes} {r : Reader}
    (h : r.Holds (data ++ more)) (hf : data.length ≤ fuel) :
    ∃ r', r.collect data.length fuel before = .ok (some (before ++ data), r') ∧ r'.Holds more := by
  induction fuel generalizing before data r with
  | zero =>
    obtain rfl := List.eq_nil_of_length_eq_zero (Nat.le_zero.mp hf)
    exact ⟨r, by simp [collect], h⟩
  | succ fuel ih =>
    cases data with
    | nil => exact ⟨r, by simp [collect], h⟩
    | cons b data =>
      obtain ⟨bytes, r₁, rest, hread, hsplit, h₁, hlen, hend⟩ :=
        read_spec (Nat.succ_pos data.length) h
      have hne : bytes ≠ [] := fun hnil => by simpa using hend hnil
      -- what is read is the first part of what is wanted
      obtain ⟨left, hleft⟩ : bytes <+: b :: data :=
        List.prefix_of_prefix_length_le ⟨rest, hsplit.symm⟩ ⟨more, rfl⟩ hlen
      obtain rfl : rest = left ++ more := by
        rw [← hleft, List.append_assoc] at hsplit
        exact (List.append_cancel_left hsplit).symm
      have hcount : data.length + 1 - bytes.length = left.length := by
        rw [← List.length_cons (a := b), ← hleft, List.length_append]
        omega
      have hpos : 0 < bytes.length := List.length_pos_iff.mpr hne
      rw [List.length_cons] at hf
      obtain ⟨r', hcollect, h'⟩ := ih (before ++ bytes) h₁ (by omega)
      refine ⟨r', ?_, h'⟩
      rw [List.length_cons, collect, hread]
      cases bytes with
      | nil => exact (hne rfl).elim
      | cons c bytes =>
        dsimp only
        rw [hcount, hcollect, List.append_assoc, hleft]

theorem readExact_of_holds {data more : Bytes} {r : Reader} (h : r.Holds (data ++ more)) :
    ∃ r', r.readExact data.length = .ok (some data, r') ∧ r'.Holds more := by
  rw [readExact, if_neg (by omega)]
  exact collect_spec data.length [] h (Nat.le_refl _)

/-- Where fewer bytes are left than are wanted, none are given. -/
theorem collect_short (fuel : Nat) {size : Nat} (before : Bytes) {data : Bytes} {r : Reader}
    (h : r.Holds data) (hs : data.length < size) :
    ∃ r', r.collect size fuel before = .ok (none, r') := by
  obtain ⟨size, rfl⟩ : ∃ n, size = n + 1 := ⟨size - 1, by omega⟩
  induction fuel generalizing size before data r with
  | zero => exact ⟨r, rfl⟩
  | succ fuel ih =>
    obtain ⟨bytes, r₁, rest, hread, rfl, h₁, -⟩ := read_spec (Nat.succ_pos size) h
    rw [List.length_append] at hs
    rw [collect, hread]
    cases bytes with
    | nil => exact ⟨r₁, rfl⟩
    | cons b bytes =>
      obtain ⟨left, hleft⟩ : ∃ n, size + 1 - (b :: bytes).length = n + 1 :=
        ⟨size - (b :: bytes).length, by omega⟩
      dsimp only
      rw [hleft]
      exact ih (before ++ b :: bytes) h₁ left (by omega)

theorem readExact_short {size : Int} {data : Bytes} {r : Reader} (h : r.Holds data)
    (hs : (data.length : Int) < size) : ∃ r', r.readExact size = .ok (none, r') := by
  rw [readExact, if_neg (by omega)]
  exact collect_short _ [] h (by omega)

def negativeLength (size : Int) : Fault :=
  .invalidArchive ("negative record length ".toList ++ Text.ofInt size)

theorem readExact_negative {size : Int} (h : size < 0) (r : Reader) :
    r.readExact size = .error (negativeLength size) := by
  rw [readExact, if_pos h]
  rfl

theorem holds_ofStream {codec : Codec} {stream : Stream} {data : Bytes}
    (h : codec.Yields stream.flatten data) : (ofStream codec stream).Holds data := by
  cases codec with
  | plain => exact h
  | deflate =>
    obtain ⟨complete, h⟩ := h
    exact Inflater.holds_ofStream h

theorem length_le_bound {codec : Codec} {stream : Stream} {data : Bytes}
    (h : codec.Yields stream.flatten data) : data.length ≤ (ofStream codec stream).bound := by
  cases codec with
  | plain =>
    obtain rfl : stream.flatten = data := h
    exact Nat.le_refl _
  | deflate =>
    obtain ⟨complete, h⟩ := h
    have hle := (Deflate.decodes_of_inflate h).size_le
    rw [Deflate.Source.size_append] at hle
    have hnone : ({} : Deflate.Source).size = 0 := rfl
    simp only [ofStream, bound, Stream.total]
    rw [hnone, List.size_toArray, Array.size_empty] at hle
    omega

end Reader

namespace Record

def layout (path content : Bytes) : Bytes :=
  encodeLength path.length ++ (path ++ (encodeLength content.length ++ content))

theorem encode_eq (r : Record) : r.encode = layout (Utf8.encode r.path) r.content := by
  simp only [encode, layout, List.append_assoc]

/-- The lengths of a record fit into four bytes and their sign. -/
structure Storable (r : Record) : Prop where
  path_lt : (Utf8.encode r.path).length < 0x80000000
  content_lt : r.content.length < 0x80000000

theorem length_le_encodeAll (records : List Record) :
    records.length ≤ (encodeAll records).length := by
  induction records with
  | nil => exact Nat.zero_le _
  | cons r records ih =>
    have hr : 4 ≤ r.encode.length := by
      simp only [encode, List.length_append, length_encodeLength]
      omega
    rw [encodeAll_cons, List.length_append, List.length_cons]
    omega

end Record

namespace Scan

def undecodablePath (e : Utf8.DecodeError) : Fault :=
  .invalidArchive ("record path is not UTF-8 (".toList ++ e.message ++ [')'])

/-- How reading ends at bytes that begin with no record: within a length, the path or the content,
at a length below zero, or after a whole record whose path is no text. -/
inductive Ends : Bytes → Ending → Prop
  | header {rest : Bytes} (h : rest.length < 4) : Ends rest .clean
  | negativePath {header more : Bytes} (hl : header.length = 4)
      (h : Record.decodeLength header < 0) :
      Ends (header ++ more) (.wrong (Reader.negativeLength (Record.decodeLength header)))
  | path {header rest : Bytes} (hl : header.length = 4)
      (h : (rest.length : Int) < Record.decodeLength header) : Ends (header ++ rest) .truncated
  | size {path rest : Bytes} (hp : path.length < 0x80000000) (h : rest.length < 4) :
      Ends (Record.encodeLength path.length ++ (path ++ rest)) .truncated
  | negativeSize {path size more : Bytes} (hp : path.length < 0x80000000) (hl : size.length = 4)
      (h : Record.decodeLength size < 0) :
      Ends (Record.encodeLength path.length ++ (path ++ (size ++ more)))
        (.wrong (Reader.negativeLength (Record.decodeLength size)))
  | content {path size rest : Bytes} (hp : path.length < 0x80000000) (hl : size.length = 4)
      (h : (rest.length : Int) < Record.decodeLength size) :
      Ends (Record.encodeLength path.length ++ (path ++ (size ++ rest))) .truncated
  | undecodable {path content more : Bytes} {e : Utf8.DecodeError} (hp : path.length < 0x80000000)
      (hc : content.length < 0x80000000) (h : Utf8.decode path = .error e) :
      Ends (Record.layout path content ++ more) (.wrong (undecodablePath e))

section

variable {r : Reader}

theorem readExact_length {header more : Bytes} (h : r.Holds (header ++ more))
    (hl : header.length = 4) : ∃ r', r.readExact 4 = .ok (some header, r') ∧ r'.Holds more := by
  have hread := Reader.readExact_of_holds h
  rwa [hl] at hread

theorem readExact_field {field more : Bytes} (hf : field.length < 0x80000000)
    (h : r.Holds (Record.encodeLength field.length ++ (field ++ more))) :
    ∃ r₁ r₂, r.readExact 4 = .ok (some (Record.encodeLength field.length), r₁) ∧
      r₁.readExact (Record.decodeLength (Record.encodeLength field.length)) =
        .ok (some field, r₂) ∧ r₂.Holds more := by
  obtain ⟨r₁, hlength, h₁⟩ := readExact_length h (Record.length_encodeLength _)
  obtain ⟨r₂, hfield, h₂⟩ := Reader.readExact_of_holds h₁
  rw [← Record.decodeLength_encodeLength hf] at hfield
  exact ⟨r₁, r₂, hlength, hfield, h₂⟩

theorem next_of_holds {record : Record} (hs : record.Storable) {more : Bytes}
    (h : r.Holds (record.encode ++ more)) :
    ∃ r', next r = .ok (record, r') ∧ r'.Holds more := by
  simp only [Record.encode_eq, Record.layout, List.append_assoc] at h
  obtain ⟨r₁, r₂, hlength, hpath, h₂⟩ := readExact_field hs.path_lt h
  obtain ⟨r₃, r₄, hsize, hcontent, h₄⟩ := readExact_field hs.content_lt h₂
  exact ⟨r₄, by simp only [next, hlength, hpath, hsize, hcontent, Utf8.decode_encode], h₄⟩

theorem next_of_ends {data : Bytes} {ending : Ending} (he : Ends data ending) (h : r.Holds data) :
    next r = .error ending := by
  cases he with
  | header hshort =>
    obtain ⟨r₁, hlength⟩ : ∃ r₁, r.readExact 4 = .ok (none, r₁) :=
      Reader.readExact_short h (by omega)
    simp only [next, hlength]
  | negativePath hl hneg =>
    obtain ⟨r₁, hlength, -⟩ := readExact_length h hl
    simp only [next, hlength, Reader.readExact_negative hneg]
  | path hl hshort =>
    obtain ⟨r₁, hlength, h₁⟩ := readExact_length h hl
    obtain ⟨r₂, hpath⟩ := Reader.readExact_short h₁ hshort
    simp only [next, hlength, hpath]
  | size hp hshort =>
    obtain ⟨r₁, r₂, hlength, hpath, h₂⟩ := readExact_field hp h
    obtain ⟨r₃, hsize⟩ : ∃ r₃, r₂.readExact 4 = .ok (none, r₃) :=
      Reader.readExact_short h₂ (by omega)
    simp only [next, hlength, hpath, hsize]
  | negativeSize hp hl hneg =>
    obtain ⟨r₁, r₂, hlength, hpath, h₂⟩ := readExact_field hp h
    obtain ⟨r₃, hsize, -⟩ := readExact_length h₂ hl
    simp only [next, hlength, hpath, hsize, Reader.readExact_negative hneg]
  | content hp hl hshort =>
    obtain ⟨r₁, r₂, hlength, hpath, h₂⟩ := readExact_field hp h
    obtain ⟨r₃, hsize, h₃⟩ := readExact_length h₂ hl
    obtain ⟨r₄, hcontent⟩ := Reader.readExact_short h₃ hshort
    simp only [next, hlength, hpath, hsize, hcontent]
  | undecodable hp hc hbad =>
    simp only [Record.layout, List.append_assoc] at h
    obtain ⟨r₁, r₂, hlength, hpath, h₂⟩ := readExact_field hp h
    obtain ⟨r₃, r₄, hsize, hcontent, -⟩ := readExact_field hc h₂
    simp only [next, hlength, hpath, hsize, hcontent, hbad]
    rfl

/-- The records that come before a place where reading ends. -/
theorem fromReader_of_holds {records : List Record} (hs : ∀ r ∈ records, r.Storable) {rest : Bytes}
    {ending : Ending} (he : Ends rest ending) (fuel : Nat) (before : List Record)
    (h : r.Holds (Record.encodeAll records ++ rest)) (hf : records.length < fuel) :
    fromReader fuel before r = ⟨before.reverse ++ records, ending⟩ := by
  obtain ⟨fuel, rfl⟩ : ∃ n, fuel = n + 1 := ⟨fuel - 1, by omega⟩
  induction records generalizing fuel before r with
  | nil => rw [fromReader, next_of_ends he h, List.append_nil]
  | cons record records ih =>
    rw [Record.encodeAll_cons, List.append_assoc] at h
    obtain ⟨r', hnext, h'⟩ := next_of_holds (hs record (List.mem_cons_self ..)) h
    rw [List.length_cons] at hf
    obtain ⟨fuel, rfl⟩ : ∃ n, fuel = n + 1 := ⟨fuel - 1, by omega⟩
    rw [fromReader, hnext]
    dsimp only
    rw [ih (fun r hr => hs r (List.mem_cons_of_mem _ hr)) (record :: before) h' fuel (by omega)]
    simp

end

theorem ofStream_eq {codec : Codec} {stream : Stream} {records : List Record} {rest : Bytes}
    {ending : Ending} (h : codec.Yields stream.flatten (Record.encodeAll records ++ rest))
    (hs : ∀ r ∈ records, r.Storable) (he : Ends rest ending) :
    ofStream codec stream = ⟨records, ending⟩ := by
  have hlen : records.length ≤ (Reader.ofStream codec stream).bound := by
    have hbound := Reader.length_le_bound h
    have hrecords := Record.length_le_encodeAll records
    rw [List.length_append] at hbound
    omega
  exact fromReader_of_holds hs he _ [] (Reader.holds_ofStream h) (Nat.lt_succ_of_le hlen)

theorem ofStream_pack {codec : Codec} {stream : Stream} {records : List Record}
    (hs : ∀ r ∈ records, r.Storable) (h : stream.flatten = Archiver.pack codec records) :
    ofStream codec stream = ⟨records, .clean⟩ := by
  have hpack := Archiver.encodes_pack codec records
  rw [← h, ← List.append_nil (Record.encodeAll records)] at hpack
  exact ofStream_eq hpack.yields hs (.header (by decide))

end Scan

end Rollout
