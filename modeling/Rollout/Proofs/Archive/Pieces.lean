import Rollout.Proofs.Archive.Compressed

namespace Rollout

namespace Stream

/-- Asked for so many bytes, one time after the other, the stream gives these bytes and leaves that
stream. -/
inductive Answers : Stream → List (Nat × Bytes) → Stream → Prop
  | nil {s : Stream} : Answers s [] s
  | cons {s s' : Stream} {size : Nat} {answers : List (Nat × Bytes)}
      (rest : Answers (s.read size).2 answers s') :
      Answers s ((size, (s.read size).1) :: answers) s'

/-- Whatever a stream is asked for and gives, there are pieces that give the same. -/
theorem answers_pieces (answers : List (Nat × Bytes)) (tail : Stream)
    (h : ∀ a ∈ answers, a.2 ≠ [] ∧ a.2.length ≤ a.1) :
    Answers (answers.map Prod.snd ++ tail) answers tail := by
  induction answers with
  | nil => exact .nil
  | cons a answers ih =>
    obtain ⟨⟨hne, hle⟩, hrest⟩ := List.forall_mem_cons.mp h
    obtain ⟨size, piece⟩ := a
    have hread : read size (piece :: (answers.map Prod.snd ++ tail)) =
        (piece, answers.map Prod.snd ++ tail) := by
      cases piece with
      | nil => exact (hne rfl).elim
      | cons b piece => simp [read, List.take_of_length_le hle, List.drop_of_length_le hle]
    have hcons : Answers (piece :: (answers.map Prod.snd ++ tail))
        ((size, (read size (piece :: (answers.map Prod.snd ++ tail))).1) :: answers) tail := by
      apply Answers.cons
      rw [hread]
      exact ih hrest
    rwa [hread] at hcons

end Stream

namespace Inflater

inductive Fills (wanted : Nat) : Inflater → Except Fault Inflater → Prop
  | enough {i : Inflater} (h : wanted ≤ i.decoder.output.size ∨ i.decoder.isDone) :
      Fills wanted i (.ok i)
  | ended {i : Inflater} {stream : Stream}
      (h : ¬ (wanted ≤ i.decoder.output.size ∨ i.decoder.isDone))
      (read : i.stream.read portion = ([], stream)) : Fills wanted i (.ok { i with stream })
  | wrong {i : Inflater} {piece : Bytes} {stream : Stream} {c : Deflate.Corruption}
      (h : ¬ (wanted ≤ i.decoder.output.size ∨ i.decoder.isDone))
      (read : i.stream.read portion = (piece, stream)) (ne : piece ≠ [])
      (feed : i.decoder.feed piece = .error c) : Fills wanted i (.error (corrupt c))
  | more {i : Inflater} {piece : Bytes} {stream : Stream} {decoder : Deflate.Decoder}
      {result : Except Fault Inflater}
      (h : ¬ (wanted ≤ i.decoder.output.size ∨ i.decoder.isDone))
      (read : i.stream.read portion = (piece, stream)) (ne : piece ≠ [])
      (feed : i.decoder.feed piece = .ok decoder)
      (rest : Fills wanted { i with stream, decoder } result) : Fills wanted i result

/-- Every piece that is decoded is taken from the input. -/
theorem fills_fill (wanted : Nat) {pieces : Nat} {i : Inflater} (h : i.stream.total < pieces) :
    Fills wanted i (i.fill wanted pieces) := by
  induction pieces generalizing i with
  | zero => omega
  | succ pieces ih =>
    rw [fill]
    split_ifs with hstop
    · exact .enough (by simpa using hstop)
    · have hmore : ¬ (wanted ≤ i.decoder.output.size ∨ i.decoder.isDone) := by simpa using hstop
      have hless (hne : (i.stream.read portion).1 ≠ []) := Stream.total_read_lt hne (by decide)
      cases hread : i.stream.read portion with
      | mk piece stream =>
        rw [hread] at hless
        cases piece with
        | nil => exact .ended hmore hread
        | cons b piece =>
          have hne : b :: piece ≠ [] := List.cons_ne_nil b piece
          dsimp only
          cases hfeed : i.decoder.feed (b :: piece) with
          | error c => exact .wrong hmore hread hne hfeed
          | ok decoder =>
            have htotal : stream.total < i.stream.total := hless hne
            have hfewer : stream.total < pieces := by omega
            exact .more hmore hread hne hfeed (ih hfewer)

end Inflater

namespace Reader

inductive Collects : Nat → Bytes → Reader → Except Fault (Option Bytes × Reader) → Prop
  | full {before : Bytes} {r : Reader} : Collects 0 before r (.ok (some before, r))
  | wrong {size : Nat} {before : Bytes} {r : Reader} {e : Fault}
      (read : r.read (size + 1) = .error e) : Collects (size + 1) before r (.error e)
  | ended {size : Nat} {before : Bytes} {r r' : Reader}
      (read : r.read (size + 1) = .ok ([], r')) : Collects (size + 1) before r (.ok (none, r'))
  | more {size : Nat} {before bytes : Bytes} {r r' : Reader}
      {result : Except Fault (Option Bytes × Reader)}
      (read : r.read (size + 1) = .ok (bytes, r')) (ne : bytes ≠ [])
      (rest : Collects (size + 1 - bytes.length) (before ++ bytes) r' result) :
      Collects (size + 1) before r result

/-- Every read that gives bytes leaves fewer to collect. -/
theorem collects_collect {size fuel : Nat} (h : size ≤ fuel) (before : Bytes) (r : Reader) :
    Collects size before r (r.collect size fuel before) := by
  induction fuel generalizing size before r with
  | zero =>
    obtain rfl := Nat.le_zero.mp h
    exact .full
  | succ fuel ih =>
    cases size with
    | zero => exact .full
    | succ size =>
      rw [collect]
      cases hread : r.read (size + 1) with
      | error e => exact .wrong hread
      | ok answer =>
        obtain ⟨bytes, r'⟩ := answer
        cases bytes with
        | nil => exact .ended hread
        | cons b bytes =>
          refine .more hread (List.cons_ne_nil b bytes) (ih ?_ _ _)
          rw [List.length_cons]
          omega

end Reader

namespace Scan

inductive Scans : List Record → Reader → Scan → Prop
  | ended {before : List Record} {r : Reader} {ending : Ending} (next : next r = .error ending) :
      Scans before r ⟨before.reverse, ending⟩
  | more {before : List Record} {r r' : Reader} {record : Record} {result : Scan}
      (next : next r = .ok (record, r')) (rest : Scans (record :: before) r' result) :
      Scans before r result

theorem scans_fromReader {r : Reader} {records : List Record} (hs : ∀ r ∈ records, r.Storable)
    {rest : Bytes} {ending : Ending} (he : Ends rest ending) (before : List Record)
    (h : r.Holds (Record.encodeAll records ++ rest)) :
    Scans before r ⟨before.reverse ++ records, ending⟩ := by
  induction records generalizing before r with
  | nil =>
    rw [List.append_nil]
    exact .ended (next_of_ends he h)
  | cons record records ih =>
    obtain ⟨hrecord, hrecords⟩ := List.forall_mem_cons.mp hs
    rw [Record.encodeAll_cons, List.append_assoc] at h
    obtain ⟨r', hnext, h'⟩ := next_of_holds hrecord h
    have hrest := ih hrecords (record :: before) h'
    rw [List.reverse_cons, List.append_assoc] at hrest
    exact .more hnext hrest

/-- The stream is read to an end, and as one piece with the same bytes is read. -/
structure ReadsAsWhole (codec : Codec) (stream : Stream) : Prop where
  ends : Scans [] (Reader.ofStream codec stream) (ofStream codec stream)
  same : ofStream codec stream = ofStream codec [stream.flatten]

theorem readsAsWhole {codec : Codec} {stream : Stream} {data : Bytes}
    (h : codec.Yields stream.flatten data) : ReadsAsWhole codec stream := by
  obtain ⟨records, rest, hsplit⟩ := exists_splits data
  obtain ⟨ending, he⟩ := hsplit.ends
  constructor
  · rw [hsplit.ofStream_eq he h]
    have hholds := Reader.holds_ofStream h
    rw [hsplit.eq] at hholds
    exact scans_fromReader hsplit.storable he [] hholds
  · have hwhole : codec.Yields [stream.flatten].flatten data := by rwa [List.flatten_singleton]
    exact ofStream_eq_of_yields h hwhole

/-- In whatever pieces an archive arrives, it gives the records, and comes to the end, that it has in
one piece: a plain archive always, and a compressed one when there is nothing wrong with its data,
be they complete, broken off or followed by others. The reading comes to an end in all its loops.
And streams in pieces are all there are: what a stream gives at one time after the other can be the
pieces. -/
theorem ofStream_any_pieces (stream : Stream) :
    ReadsAsWhole .plain stream ∧
      (∀ data complete, Deflate.inflate stream.flatten = .ok ⟨data, complete⟩ →
        ReadsAsWhole .deflate stream) ∧
      (∀ (r : Reader) (size : Nat) (before : Bytes),
        Reader.Collects size before r (r.collect size size before)) ∧
      (∀ (i : Inflater) (wanted : Nat),
        i.Fills wanted (i.fill wanted (i.stream.total + 1))) ∧
      ∀ (answers : List (Nat × Bytes)) (tail : Stream),
        (∀ a ∈ answers, a.2 ≠ [] ∧ a.2.length ≤ a.1) →
        Stream.Answers (answers.map Prod.snd ++ tail) answers tail := by
  refine ⟨readsAsWhole rfl, fun data complete h => readsAsWhole ⟨complete, h⟩,
    fun r size before => ?_, fun i wanted => ?_, Stream.answers_pieces⟩
  · exact Reader.collects_collect (Nat.le_refl size) before r
  · exact Inflater.fills_fill wanted (Nat.lt_succ_self _)

/-- A stored block of twenty bytes that breaks off after ten, in three pieces. -/
theorem ofStream_any_pieces_torn :
    Deflate.inflate [[1, 20], [0, 0xEB, 0xFF, 1, 0], [0, 0, 120, 1, 0, 0, 0, 5]].flatten =
        .ok ⟨[1, 0, 0, 0, 120, 1, 0, 0, 0, 5], false⟩ ∧
      ofStream .deflate [[1, 20], [0, 0xEB, 0xFF, 1, 0], [0, 0, 120, 1, 0, 0, 0, 5]] =
        ofStream .deflate [[1, 20, 0, 0xEB, 0xFF, 1, 0, 0, 0, 120, 1, 0, 0, 0, 5]] := by
  have h : Deflate.inflate [[1, 20], [0, 0xEB, 0xFF, 1, 0], [0, 0, 120, 1, 0, 0, 0, 5]].flatten =
      .ok ⟨[1, 0, 0, 0, 120, 1, 0, 0, 0, 5], false⟩ := by rfl
  obtain ⟨-, hdeflate, -⟩ :=
    ofStream_any_pieces [[1, 20], [0, 0xEB, 0xFF, 1, 0], [0, 0, 120, 1, 0, 0, 0, 5]]
  exact ⟨h, (hdeflate _ _ h).same⟩

end Scan

end Rollout
