import Rollout.Proofs.Archive.Grammar
import Rollout.Proofs.Archive.Writing

namespace Rollout

theorem Scan.ofStream_eq_of_yields {codec codec' : Codec} {stream stream' : Stream} {data : Bytes}
    (h : codec.Yields stream.flatten data) (h' : codec'.Yields stream'.flatten data) :
    ofStream codec stream = ofStream codec' stream' := by
  obtain ⟨records, rest, hsplit⟩ := exists_splits data
  obtain ⟨ending, he⟩ := hsplit.ends
  rw [hsplit.ofStream_eq he h, hsplit.ofStream_eq he h']

theorem Scan.ofStream_congr {codec codec' : Codec} {stream stream' : Stream} {data : Bytes}
    (h : codec.Encodes stream.flatten data) (h' : codec'.Encodes stream'.flatten data) :
    ofStream codec stream = ofStream codec' stream' := ofStream_eq_of_yields h.yields h'.yields

/-- An archive in its compressed form is the plain one, compressed. The same fault is met in both,
and whether or not there is one, what has been written is complete: it inflates to the records of
the files before the first that cannot be read, and to no part of another unless that is of a file
whose length is too large for four bytes. And a finished stream, of any compressor, is read as the
plain archive is that it inflates to. -/
theorem Archiver.deflate_refines_plain (a : Archiver) (hl : Deflate.isLevel a.level)
    (files : List Text) (w : World) :
    (∃ records torn fault bytes,
      { a with codec := .plain }.write files w = .ok (Record.encodeAll records ++ torn, fault) w ∧
      { a with codec := .deflate }.write files w = .ok (bytes, fault) w ∧
      Deflate.inflate bytes = .ok ⟨Record.encodeAll records ++ torn, true⟩ ∧
      a.Collected w files records torn fault ∧
      ((∀ path ∈ files, ∀ content, readFile path w = .ok content w →
        content.length < 0x80000000) → torn = [])) ∧
    ∀ (x : Bytes) (plain deflated : Stream), plain.flatten = x →
      Deflate.inflate deflated.flatten = .ok ⟨x, true⟩ →
      Scan.ofStream .deflate deflated = Scan.ofStream .plain plain := by
  constructor
  · obtain ⟨records, torn, fault, hplain, hcollected⟩ :=
      write_spec (a := { a with codec := .plain }) nofun files w
    obtain ⟨records', torn', fault', hdeflate, hcollected'⟩ :=
      write_spec (a := { a with codec := .deflate }) (fun _ => hl) files w
    obtain ⟨rfl, rfl, rfl⟩ := hcollected.ofCodec.unique hcollected'.ofCodec
    exact ⟨records, torn, fault, _, hplain, hdeflate, Codec.encodes_seal .deflate _,
      hcollected.ofCodec, hcollected.ofCodec.torn_eq_nil⟩
  · intro x plain deflated hplain hdeflated
    exact Scan.ofStream_congr hdeflated hplain

def twoFiles : World where
  tree := (Tree.empty.insert ["x".toList] (.file [5])).insert ["y".toList] (.file [])

/-- A missing file between two others. -/
theorem Archiver.deflate_refines_plain_missing :
    Deflate.isLevel 9 ∧
      ∃ bytes, Archiver.write { codec := .deflate, level := 9 }
          ["/x".toList, "/gone".toList, "/y".toList] twoFiles =
        .ok (bytes, some (.refused .noSuchFile "/gone".toList)) twoFiles ∧
        Deflate.inflate bytes = .ok ⟨[1, 0, 0, 0, 120, 1, 0, 0, 0, 5], true⟩ := by
  refine ⟨by decide, ?_⟩
  have hwritten : Archiver.write { level := 9 } ["/x".toList, "/gone".toList, "/y".toList]
      twoFiles = .ok ([1, 0, 0, 0, 120, 1, 0, 0, 0, 5],
        some (.refused .noSuchFile "/gone".toList)) twoFiles := rfl
  obtain ⟨⟨records, torn, fault, bytes, hplain, hdeflate, hinflate, -⟩, -⟩ :=
    deflate_refines_plain { level := 9 } (by decide) ["/x".toList, "/gone".toList, "/y".toList]
      twoFiles
  obtain ⟨hbytes, rfl⟩ :
      Record.encodeAll records ++ torn = [1, 0, 0, 0, 120, 1, 0, 0, 0, 5] ∧
        fault = some (.refused .noSuchFile "/gone".toList) := by
    simpa using hplain.symm.trans hwritten
  rw [hbytes] at hinflate
  exact ⟨bytes, hdeflate, hinflate⟩

end Rollout
