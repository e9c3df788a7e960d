import Mathlib.Data.List.Forall2
import Rollout.Proofs.Archive.Scan
import Rollout.Proofs.FileSystem.Files

namespace Rollout

open Location

namespace Record

variable {r : Record} {rs : List Record}

theorem storable_iff : r.Storable ↔ r.pieces.2 = none := by
  unfold pieces
  dsimp only
  split_ifs with hp hc
  · exact iff_of_false (fun h => absurd h.path_lt (by omega)) nofun
  · exact iff_of_false (fun h => absurd h.content_lt (by omega)) nofun
  · exact iff_of_true ⟨by omega, by omega⟩ rfl

theorem Storable.flatten_pieces (h : r.Storable) : r.pieces.1.flatten = r.encode := by
  have hp := h.path_lt
  have hc := h.content_lt
  unfold pieces
  dsimp only
  rw [if_neg (by omega), if_neg (by omega)]
  simp [encode]

theorem flatten_flatMap_pieces (h : ∀ r ∈ rs, r.Storable) :
    (rs.flatMap fun r => r.pieces.1).flatten = encodeAll rs := by
  induction rs with
  | nil => rfl
  | cons r rs ih =>
    rw [List.forall_mem_cons] at h
    rw [List.flatMap_cons, List.flatten_append, h.1.flatten_pieces, ih h.2, encodeAll_cons]

theorem storable_of_forall₂ {ι : Type} {R : ι → Record → Prop} {xs : List ι}
    (h : List.Forall₂ (fun x r => R x r ∧ r.Storable) xs rs) : ∀ r ∈ rs, r.Storable :=
  ((List.forall₂_and_left _ _).mp (h.flip.imp fun _ _ hr => And.symm hr)).1

/-- Some bytes of a record that cannot be stored are written if its content is too long. -/
theorem content_of_pieces (hr : ¬ r.Storable) (h : r.pieces.1.flatten ≠ []) :
    0x80000000 ≤ r.content.length := by
  unfold pieces at h
  dsimp only at h
  split_ifs at h with hp hc
  · exact absurd rfl h
  · exact hc
  · exact absurd ⟨by omega, by omega⟩ hr

end Record

variable {σ τ : Type}

namespace Coder

def output (coder : Coder σ) : σ → List Bytes → Bytes
  | s, [] => coder.close s
  | s, piece :: rest => (coder.feed s piece).1 ++ coder.output (coder.feed s piece).2 rest

/-- What is given out is a finished stream of compressed data, in whichever pieces the data come. -/
def Compresses (coder : Coder σ) : Prop :=
  ∀ pieces, Deflate.inflate (coder.output coder.start pieces) = .ok ⟨pieces.flatten, true⟩

theorem output_plain (pieces : List Bytes) : plain.output () pieces = pieces.flatten := by
  induction pieces with
  | nil => rfl
  | cons piece rest ih =>
    rw [output, List.flatten_cons, ← ih]
    rfl

theorem output_deflate (before pieces : List Bytes) :
    deflate.output before pieces =
      Deflate.compress (before.reverse.flatten ++ pieces.flatten) := by
  induction pieces generalizing before with
  | nil =>
    rw [List.flatten_nil, List.append_nil]
    rfl
  | cons piece rest ih =>
    refine (ih (piece :: before)).trans ?_
    rw [List.reverse_cons, List.flatten_append, List.flatten_singleton, List.flatten_cons,
      List.append_assoc]

theorem compresses_deflate : deflate.Compresses := by
  intro pieces
  exact (output_deflate [] pieces).symm ▸ Deflate.inflate_compress _

end Coder

theorem readFile_cases (path : Text) (w : World) :
    (∃ content, readFile path w = .ok content w) ∨ ∃ e, readFile path w = .error e w := by
  have hstate := readFile_state path w
  cases h : readFile path w with
  | ok content w' =>
    obtain rfl := (finalState_of_ok h).symm.trans hstate
    exact .inl ⟨content, rfl⟩
  | error e w' =>
    obtain rfl := (finalState_of_error h).symm.trans hstate
    exact .inr ⟨e, rfl⟩

namespace Archiver

def IsRecordOf (a : Archiver) (w : World) (path : Text) (r : Record) : Prop :=
  readFile path w = .ok r.content w ∧ r.path = a.relativePath w path

/-- Why no more files are taken: there are none, the next cannot be read, or a length of its record
is too large. Of that record there is what comes before the length. -/
inductive StopsAt (a : Archiver) (w : World) : List Text → Bytes → Option Fault → Prop
  | finished : StopsAt a w [] [] none
  | unread {path rest e} (hread : readFile path w = .error e w) :
      StopsAt a w (path :: rest) [] (some e)
  | unstorable {path rest r} (hr : a.IsRecordOf w path r) (hs : ¬ r.Storable) :
      StopsAt a w (path :: rest) r.pieces.1.flatten (some .badLength)

/-- The records are those of the files before the first that cannot be read, or whose record cannot
be stored, and the fault is what is wrong with that one. Each file is looked at in one of the
worlds. -/
def CollectedIn (a : Archiver) (worlds : World → Prop) (files : List Text) (records : List Record)
    (torn : Bytes) (fault : Option Fault) : Prop :=
  ∃ before after, files = before ++ after ∧
    List.Forall₂ (fun path r => (∃ w, worlds w ∧ a.IsRecordOf w path r) ∧ r.Storable) before
      records ∧
    ∃ w, worlds w ∧ a.StopsAt w after torn fault

def Collected (a : Archiver) (w : World) : List Text → List Record → Bytes → Option Fault → Prop :=
  a.CollectedIn (· = w)

section

variable {a : Archiver} {worlds worlds' : World → Prop} {w : World} {path : Text}
  {files : List Text} {r : Record} {records records' : List Record} {torn torn' : Bytes}
  {fault fault' : Option Fault}

theorem IsRecordOf.unique {r' : Record} (h : a.IsRecordOf w path r) (h' : a.IsRecordOf w path r') :
    r = r' := by
  obtain ⟨path', content⟩ := r
  obtain ⟨hread, rfl⟩ := h
  obtain ⟨path', content'⟩ := r'
  obtain ⟨hread', rfl⟩ := h'
  cases hread.symm.trans hread'
  rfl

theorem IsRecordOf.not_stopsAt (hr : a.IsRecordOf w path r) (hs : r.Storable) :
    ¬ a.StopsAt w (path :: files) torn fault := by
  intro h
  cases h with
  | unread hread => cases hr.1.symm.trans hread
  | unstorable hr' hs' => exact hs' (hr.unique hr' ▸ hs)

theorem StopsAt.unique (h : a.StopsAt w files torn fault) (h' : a.StopsAt w files torn' fault') :
    torn = torn' ∧ fault = fault' := by
  cases h with
  | finished =>
    cases h'
    exact ⟨rfl, rfl⟩
  | unread hread =>
    cases h' with
    | unread hread' =>
      cases hread.symm.trans hread'
      exact ⟨rfl, rfl⟩
    | unstorable hr' hs' => cases hread.symm.trans hr'.1
  | unstorable hr hs =>
    cases h' with
    | unread hread' => cases hr.1.symm.trans hread'
    | unstorable hr' hs' => exact ⟨by rw [hr.unique hr'], rfl⟩

theorem StopsAt.torn_eq_nil (h : a.StopsAt w files torn fault)
    (hsmall : ∀ path ∈ files, ∀ content, readFile path w = .ok content w →
      content.length < 0x80000000) : torn = [] := by
  cases h with
  | finished => rfl
  | unread hread => rfl
  | unstorable hr hs =>
    by_contra hne
    exact (hsmall _ (by simp) _ hr.1).not_ge (Record.content_of_pieces hs hne)

theorem CollectedIn.mono (hw : ∀ w, worlds w → worlds' w)
    (h : a.CollectedIn worlds files records torn fault) :
    a.CollectedIn worlds' files records torn fault := by
  obtain ⟨before, after, hsplit, hrecords, w, h, hstop⟩ := h
  exact ⟨before, after, hsplit,
    hrecords.imp fun _ _ ⟨⟨w, h, hr⟩, hs⟩ => ⟨⟨w, hw w h, hr⟩, hs⟩, w, hw w h, hstop⟩

theorem CollectedIn.stop (hw : worlds w) (h : a.StopsAt w files torn fault) :
    a.CollectedIn worlds files [] torn fault := ⟨[], files, rfl, .nil, w, hw, h⟩

theorem CollectedIn.cons (hw : worlds w) (hr : a.IsRecordOf w path r) (hs : r.Storable)
    (h : a.CollectedIn worlds files records torn fault) :
    a.CollectedIn worlds (path :: files) (r :: records) torn fault := by
  obtain ⟨before, after, rfl, hrecords, hstop⟩ := h
  exact ⟨path :: before, after, rfl, .cons ⟨⟨w, hw, hr⟩, hs⟩ hrecords, hstop⟩

theorem CollectedIn.storable (h : a.CollectedIn worlds files records torn fault) :
    ∀ r ∈ records, r.Storable := by
  obtain ⟨before, after, -, hrecords, -⟩ := h
  exact Record.storable_of_forall₂ hrecords

theorem CollectedIn.of_nil (h : a.CollectedIn worlds [] records torn fault) :
    records = [] ∧ torn = [] ∧ fault = none := by
  obtain ⟨before, after, hsplit, hrecords, w, -, hstop⟩ := h
  obtain ⟨rfl, rfl⟩ := List.append_eq_nil_iff.mp hsplit.symm
  cases hrecords
  cases hstop
  exact ⟨rfl, rfl, rfl⟩

/-- The first file has a record, or ends the collection. -/
theorem CollectedIn.of_cons (h : a.CollectedIn worlds (path :: files) records torn fault) :
    ∃ w, worlds w ∧
      ((∃ r rest, records = r :: rest ∧ a.IsRecordOf w path r ∧ r.Storable ∧
        a.CollectedIn worlds files rest torn fault) ∨
      records = [] ∧ a.StopsAt w (path :: files) torn fault) := by
  obtain ⟨before, after, hsplit, hrecords, w, hw, hstop⟩ := h
  cases hrecords with
  | nil =>
    obtain rfl : path :: files = after := hsplit
    exact ⟨w, hw, .inr ⟨rfl, hstop⟩⟩
  | cons hr hrecords =>
    cases hsplit
    obtain ⟨⟨w₁, hw₁, hr⟩, hs⟩ := hr
    exact ⟨w₁, hw₁, .inl ⟨_, _, rfl, hr, hs, _, after, rfl, hrecords, w, hw, hstop⟩⟩

/-- There is one way to collect. -/
theorem Collected.unique (h : a.Collected w files records torn fault)
    (h' : a.Collected w files records' torn' fault') :
    records = records' ∧ torn = torn' ∧ fault = fault' := by
  induction files generalizing records records' with
  | nil =>
    obtain ⟨rfl, rfl, rfl⟩ := CollectedIn.of_nil h
    obtain ⟨rfl, rfl, rfl⟩ := CollectedIn.of_nil h'
    exact ⟨rfl, rfl, rfl⟩
  | cons path files ih =>
    obtain ⟨_, rfl, ⟨r, rest, rfl, hr, hs, h⟩ | ⟨rfl, hstop⟩⟩ := CollectedIn.of_cons h
    · obtain ⟨_, rfl, ⟨r', rest', rfl, hr', -, h'⟩ | ⟨rfl, hstop⟩⟩ := CollectedIn.of_cons h'
      · obtain ⟨rfl, hrest⟩ := ih h h'
        exact ⟨by rw [hr.unique hr'], hrest⟩
      · exact absurd hstop (hr.not_stopsAt hs)
    · obtain ⟨_, rfl, ⟨r', rest', rfl, hr', hs', -⟩ | ⟨rfl, hstop'⟩⟩ := CollectedIn.of_cons h'
      · exact absurd hstop (hr'.not_stopsAt hs')
      · exact ⟨rfl, hstop.unique hstop'⟩

/-- What is collected does not depend on the codec. -/
theorem Collected.ofCodec {codec : Codec}
    (h : { a with codec }.Collected w files records torn fault) :
    a.Collected w files records torn fault := by
  obtain ⟨before, after, hsplit, hrecords, w', hw, hstop⟩ := h
  refine ⟨before, after, hsplit, hrecords, w', hw, ?_⟩
  cases hstop with
  | finished => exact .finished
  | unread hread => exact .unread hread
  | unstorable hr hs => exact .unstorable hr hs

theorem Collected.torn_eq_nil (h : a.Collected w files records torn fault)
    (hsmall : ∀ path ∈ files, ∀ content, readFile path w = .ok content w →
      content.length < 0x80000000) : torn = [] := by
  obtain ⟨before, after, rfl, -, _, rfl, hstop⟩ := h
  exact hstop.torn_eq_nil fun path hpath => hsmall path (List.mem_append_right before hpath)

theorem CollectedIn.eq_map {ι : Type} {xs : List ι} {file : ι → Text} {record : ι → Record}
    (h : a.CollectedIn worlds (xs.map file) records torn fault)
    (hr : ∀ x ∈ xs, (record x).Storable ∧ ∀ w, worlds w → a.IsRecordOf w (file x) (record x)) :
    records = xs.map record ∧ torn = [] ∧ fault = none := by
  induction xs generalizing records with
  | nil => exact h.of_nil
  | cons x xs ih =>
    rw [List.forall_mem_cons] at hr
    obtain ⟨⟨hs, hx⟩, hxs⟩ := hr
    obtain ⟨w, hw, ⟨r, rest, rfl, hr, -, h⟩ | ⟨rfl, hstop⟩⟩ := h.of_cons
    · obtain ⟨rfl, hrest⟩ := ih h hxs
      exact ⟨by rw [hr.unique (hx w hw), List.map_cons], hrest⟩
    · exact absurd hstop ((hx w hw).not_stopsAt hs)

end

/-- A stream takes all it is given. Its state tells what it has taken and the world it is in. -/
def Takes (put : τ → Bytes → Action World τ) (world : τ → World) (taken : τ → Bytes) : Prop :=
  ∀ t piece, ∃ t', put t piece (world t) = .ok t' (world t') ∧ taken t' = taken t ++ piece

section

variable {put : τ → Bytes → Action World τ} {world : τ → World}
  {taken : τ → Bytes} (ht : Takes put world taken)

include ht

theorem putPieces_spec (coder : Coder σ) (s : σ) (t : τ) (pieces : List Bytes) :
    ∃ s' t', putPieces coder put s t pieces (world t) = .ok (s', t') (world t') ∧
      ∀ more, taken t' ++ coder.output s' more = taken t ++ coder.output s (pieces ++ more) := by
  induction pieces generalizing s t with
  | nil => exact ⟨s, t, rfl, fun _ => rfl⟩
  | cons piece rest ih =>
    obtain ⟨t₁, hput, htaken⟩ := ht t (coder.feed s piece).1
    obtain ⟨s', t', hrest, hout⟩ := ih (coder.feed s piece).2 t₁
    refine ⟨s', t', ?_, fun more => ?_⟩
    · rw [putPieces, bind_of_ok hput]
      exact hrest
    · rw [hout, htaken, List.cons_append, Coder.output, List.append_assoc]

/-- Whatever becomes of the files, the records of those before the first that ends the collection
have gone through the coder, each as it was when its turn came, and what there is of the next. -/
theorem putFiles_spec (coder : Coder σ) (a : Archiver) (s : σ) (t : τ) (files : List Text) :
    ∃ s' t' records torn fault,
      a.putFiles coder put s t files (world t) = .ok (s', t', fault) (world t') ∧
      (∀ more, taken t' ++ coder.output s' more =
        taken t ++ coder.output s ((records.flatMap fun r => r.pieces.1) ++ torn ++ more)) ∧
      a.CollectedIn (fun w => ∃ t, world t = w) files records torn.flatten fault := by
  induction files generalizing s t with
  | nil => exact ⟨s, t, [], [], none, rfl, fun _ => rfl, .stop ⟨t, rfl⟩ .finished⟩
  | cons path files ih =>
    rw [putFiles]
    obtain ⟨content, hread⟩ | ⟨e, hread⟩ := readFile_cases path (world t)
    · let r : Record := ⟨a.relativePath (world t) path, content⟩
      have hrecord : a.recordOf path (world t) = .ok r (world t) := by
        rw [recordOf, get_bind, bind_of_ok hread]
        rfl
      have hr : a.IsRecordOf (world t) path r := ⟨hread, rfl⟩
      obtain ⟨s₁, t₁, hpieces, hout₁⟩ := putPieces_spec ht coder s t r.pieces.1
      rw [bind_of_ok (attempt_eq_ok.mpr hrecord)]
      dsimp only
      rw [bind_of_ok hpieces]
      cases hfault : r.pieces.2 with
      | none =>
        obtain ⟨s', t', records, torn, fault, hrest, hout, hcollected⟩ := ih s₁ t₁
        refine ⟨s', t', r :: records, torn, fault, hrest, fun more => ?_,
          hcollected.cons ⟨t, rfl⟩ hr (Record.storable_iff.mpr hfault)⟩
        rw [hout, hout₁, List.flatMap_cons, List.append_assoc, List.append_assoc,
          List.append_assoc]
      | some e =>
        obtain rfl := Record.fault_of_pieces hfault
        have hs : ¬ r.Storable := fun hs => by
          cases (Record.storable_iff.mp hs).symm.trans hfault
        exact ⟨s₁, t₁, [], r.pieces.1, some .badLength, rfl, hout₁,
          .stop ⟨t, rfl⟩ (.unstorable hr hs)⟩
    · have hrecord : a.recordOf path (world t) = .error e (world t) := by
        rw [recordOf, get_bind, bind_of_error hread]
      rw [bind_of_ok (attempt_eq_error.mpr hrecord)]
      exact ⟨s, t, [], [], some e, rfl, fun _ => rfl, .stop ⟨t, rfl⟩ (.unread hread)⟩

theorem writeThrough_spec (coder : Coder σ) (a : Archiver) (t : τ) (files : List Text) :
    ∃ t' records torn fault pieces,
      a.writeThrough coder put t files (world t) = .ok (t', fault) (world t') ∧
      taken t' = taken t ++ coder.output coder.start pieces ∧
      pieces.flatten = Record.encodeAll records ++ torn ∧
      a.CollectedIn (fun w => ∃ t, world t = w) files records torn fault := by
  obtain ⟨s, t₁, records, torn, fault, hfiles, hout, hcollected⟩ :=
    putFiles_spec ht coder a coder.start t files
  obtain ⟨t', hput, htaken⟩ := ht t₁ (coder.close s)
  refine ⟨t', records, torn.flatten, fault, _, ?_, htaken.trans (hout []), ?_, hcollected⟩
  · rw [writeThrough, bind_of_ok hfiles]
    exact bind_of_ok hput
  · rw [List.append_nil, List.flatten_append, Record.flatten_flatMap_pieces hcollected.storable]

theorem writeTo_spec {a : Archiver} (hl : a.codec = .deflate → Deflate.isLevel a.level) (t : τ)
    (files : List Text) :
    ∃ t' records torn fault,
      a.writeTo put t files (world t) = .ok (t', fault) (world t') ∧
      taken t' = taken t ++ a.codec.seal (Record.encodeAll records ++ torn) ∧
      a.CollectedIn (fun w => ∃ t, world t = w) files records torn fault := by
  cases hcodec : a.codec with
  | plain =>
    obtain ⟨t', records, torn, fault, pieces, hwrite, htaken, hpieces, hcollected⟩ :=
      writeThrough_spec ht .plain a t files
    refine ⟨t', records, torn, fault, ?_, ?_, hcollected⟩
    · rw [writeTo, hcodec]
      exact hwrite
    · rw [htaken, ← hpieces]
      exact congrArg _ (Coder.output_plain _)
  | deflate =>
    obtain ⟨t', records, torn, fault, pieces, hwrite, htaken, hpieces, hcollected⟩ :=
      writeThrough_spec ht .deflate a t files
    refine ⟨t', records, torn, fault, ?_, ?_, hcollected⟩
    · rw [writeTo, hcodec]
      exact (if_pos (hl hcodec)).symm ▸ hwrite
    · rw [htaken, ← hpieces]
      exact congrArg _ (Coder.output_deflate [] _)

end

theorem takes_keep (w : World) :
    Takes keep (fun _ => w) fun pieces => pieces.reverse.flatten :=
  fun pieces piece => ⟨piece :: pieces, rfl, by simp⟩

theorem write_spec {a : Archiver} (hl : a.codec = .deflate → Deflate.isLevel a.level)
    (files : List Text) (w : World) :
    ∃ records torn fault,
      a.write files w = .ok (a.codec.seal (Record.encodeAll records ++ torn), fault) w ∧
      a.Collected w files records torn fault := by
  obtain ⟨pieces, records, torn, fault, hwrite, hpieces, hcollected⟩ :=
    writeTo_spec (takes_keep w) hl [] files
  refine ⟨records, torn, fault, (bind_of_ok hwrite).trans ?_,
    hcollected.mono fun _ ⟨_, hw⟩ => hw.symm⟩
  exact congrArg (fun bytes => EStateM.Result.ok (bytes, fault) w) hpieces

theorem writeThrough_compresses {coder : Coder σ} (hc : coder.Compresses) (a : Archiver)
    (files : List Text) (w : World) :
    ∃ pieces records torn fault,
      a.writeThrough coder keep [] files w = .ok (pieces, fault) w ∧
      Deflate.inflate pieces.reverse.flatten = .ok ⟨Record.encodeAll records ++ torn, true⟩ ∧
      a.Collected w files records torn fault := by
  obtain ⟨pieces, records, torn, fault, fed, hwrite, hpieces, hfed, hcollected⟩ :=
    writeThrough_spec (takes_keep w) coder a [] files
  refine ⟨pieces, records, torn, fault, hwrite, ?_, hcollected.mono fun _ ⟨_, hw⟩ => hw.symm⟩
  rw [hpieces, ← hfed]
  exact hc fed

end Archiver

def World.showing (w : World) (path : Text) (content : Bytes) : World :=
  { w with tree := w.tree.insert (spot w.current path) (.file content) }

structure World.Writable (w : World) (path : Text) : Prop where
  notDenied : w.isDenied path = false
  noNull : '\x00' ∉ path
  write_eq (content : Bytes) :
    w.tree.write w.current path content = .ok (w.tree.insert (spot w.current path) (.file content))

namespace World.Writable

variable {w : World} {path : Text}

theorem of_writeFile_eq_ok {content : Bytes} {w' : World} (h : writeFile path content w = .ok () w') :
    w.Writable path ∧ w' = w.showing path content := by
  obtain ⟨hdenied, hnull, tree, htree, rfl⟩ := writeFile_eq_ok.mp h
  obtain ⟨hpath, hslash, hwalk, hfree, rfl⟩ := Tree.write_eq_ok.mp htree
  exact ⟨⟨hdenied, hnull, fun _ => Tree.write_eq_ok.mpr ⟨hpath, hslash, hwalk, hfree, rfl⟩⟩, rfl⟩

theorem notDirectory (h : w.Writable path) : w.tree.get? (spot w.current path) ≠ some .directory :=
  (Tree.write_eq_ok.mp (h.write_eq [])).2.2.2.1

theorem writeFile_eq (h : w.Writable path) (content : Bytes) :
    writeFile path content w = .ok () (w.showing path content) :=
  writeFile_eq_ok.mpr ⟨h.notDenied, h.noNull, _, h.write_eq content, rfl⟩

theorem writeFile_showing (h : w.Writable path) (old content : Bytes) :
    writeFile path content (w.showing path old) = .ok () (w.showing path content) :=
  writeFile_eq_ok.mpr ⟨h.notDenied, h.noNull, _, Tree.write_insert (h.write_eq content) old, rfl⟩

end World.Writable

namespace Archiver

variable {a : Archiver} {w w' : World} {target : Text} {files : List Text}

theorem takes_putFile (h : w.Writable target) :
    Takes (putFile target) (fun b => w.showing target b.written) Buffered.content := by
  intro b piece
  refine ⟨b.put w.host.bufferBytes piece, ?_, Buffered.content_put _ b piece⟩
  exact (get_bind _ _).trans (bind_of_ok (h.writeFile_showing b.written _))

/-- An archive that is written to a file holds the records of the files before the first that ends
the collection. Each of the files is read while the target shows something. -/
theorem create_spec (h : w.Writable target) (hl : a.codec = .deflate → Deflate.isLevel a.level)
    (files : List Text) :
    ∃ records torn fault,
      a.create target files w =
        (let w' := w.showing target (a.codec.seal (Record.encodeAll records ++ torn))
        match fault with
          | none => .ok () w'
          | some e => .error e w') ∧
      a.CollectedIn (fun w' => ∃ shown, w.showing target shown = w') files records torn fault := by
  obtain ⟨b, records, torn, fault, hwrite, hcontent, hcollected⟩ :=
    writeTo_spec (takes_putFile h) hl {} files
  refine ⟨records, torn, fault, ?_, hcollected.mono fun _ ⟨b, hb⟩ => ⟨b.written, hb⟩⟩
  have hcontent : b.content = a.codec.seal (Record.encodeAll records ++ torn) := hcontent
  rw [create, bind_of_ok (h.writeFile_eq []), bind_of_ok hwrite]
  refine (bind_of_ok (h.writeFile_showing b.written b.content)).trans ?_
  rw [hcontent]
  cases fault <;> rfl

theorem create_badLevel (h : w.Writable target) (hc : a.codec = .deflate)
    (hl : ¬ Deflate.isLevel a.level) (files : List Text) :
    a.create target files w = .error .badLevel (w.showing target []) := by
  have hwrite : a.writeTo (putFile target) {} files (w.showing target []) =
      .ok ({}, some .badLevel) (w.showing target []) := by
    rw [writeTo, hc]
    exact (if_neg hl).symm ▸ rfl
  rw [create, bind_of_ok (h.writeFile_eq []), bind_of_ok hwrite]
  exact bind_of_ok (h.writeFile_showing [] [])

/-- What a successful creation has done: it has read all files and written their archive to the
target. -/
theorem of_create_eq_ok (h : a.create target files w = .ok () w') :
    w.Writable target ∧
      (a.codec = .deflate → Deflate.isLevel a.level) ∧
      ∃ records,
        List.Forall₂ (fun path r => (∃ shown, a.IsRecordOf (w.showing target shown) path r) ∧
          r.Storable) files records ∧
        w' = w.showing target (pack a.codec records) := by
  obtain ⟨⟨⟩, w₁, hempty, -⟩ := bind_eq_ok.mp h
  obtain ⟨hw, -⟩ := World.Writable.of_writeFile_eq_ok hempty
  have hl : a.codec = .deflate → Deflate.isLevel a.level := by
    intro hc
    by_contra hl
    cases h.symm.trans (create_badLevel hw hc hl files)
  obtain ⟨records, torn, fault, hcreate, before, after, rfl, hrecords, _, -, hstop⟩ :=
    create_spec hw hl files
  cases hstop with
  | finished =>
    cases h.symm.trans hcreate
    refine ⟨hw, hl, records, ?_, by rw [List.append_nil, pack]⟩
    rw [List.append_nil]
    exact hrecords.imp fun _ _ ⟨⟨_, ⟨shown, hshown⟩, hr⟩, hs⟩ => ⟨⟨shown, hshown ▸ hr⟩, hs⟩
  | unread => cases h.symm.trans hcreate
  | unstorable => cases h.symm.trans hcreate

end Archiver

end Rollout
