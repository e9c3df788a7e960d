import Rollout.Proofs.Archive.RoundTrip
import Rollout.Proofs.Archive.Compressed
import Rollout.Proofs.VersionPassing

namespace Rollout

open Text

namespace Archiver

variable {a : Archiver} {target : Text} {files : List Text} {w w' : World}

theorem create_insert (h : a.create target files w = .ok () w') (old : Bytes) :
    a.create target files { w with tree := w.tree.insert (spot w.current target) (.file old) } =
      .ok () w' := by
  obtain ⟨hw, -⟩ := of_create_eq_ok h
  have hempty : writeFile target [] (w.showing target old) = writeFile target [] w :=
    (hw.writeFile_showing old []).trans (hw.writeFile_eq []).symm
  exact (bind_of_eq hempty _).trans h

/-- The record of a file in the archive of a target: it holds what was in the file, unless that is
the target itself. -/
def Captures (a : Archiver) (w : World) (target file : Text) (r : Record) : Prop :=
  r.path = a.relativePath w file ∧
    (spot w.current file ≠ spot w.current target → readFile file w = .ok r.content w)

/-- An archive that has been created holds all listed files in their order, each but the target as
it was before, and is read back as such. The target has changed and nothing else has, and what it
held before is not in the archive: had it been anything else, the outcome would be the same. -/
theorem create_captures (h : a.create target files w = .ok () w') :
    (∃ records,
      List.Forall₂ (a.Captures w target) files records ∧
      readFile target w' = .ok (pack a.codec records) w' ∧
      Scan.ofStream a.codec (Stream.ofBytes portion (pack a.codec records)) =
        ⟨records, .clean⟩) ∧
    SameButTree w w' ∧
    (∀ l, l ≠ spot w.current target → w'.tree.get? l = w.tree.get? l) ∧
    ∀ old, a.create target files
        { w with tree := w.tree.insert (spot w.current target) (.file old) } = .ok () w' := by
  obtain ⟨hw, -, records, hrecords, rfl⟩ := of_create_eq_ok h
  have hfree := hw.notDirectory
  refine ⟨⟨records, hrecords.imp fun file r hr => ?_, ?_, ?_⟩, rfl,
    fun l hl => Tree.get?_insert_of_ne _ hl _, create_insert h⟩
  · obtain ⟨⟨shown, hread, hrel⟩, -⟩ := hr
    obtain ⟨hdenied, hnull, hread, -⟩ := readFile_eq_ok.mp hread
    exact ⟨hrel, fun hne =>
      readFile_eq_ok.mpr ⟨hdenied, hnull, Tree.read_of_insert_file hfree hne hread, rfl⟩⟩
  · obtain ⟨hpath, -, hwalk, -⟩ := Tree.write_eq_ok.mp (hw.write_eq [])
    have hne : spot w.current target ≠ [] := fun hnil => hfree (by rw [hnil]; rfl)
    refine readFile_eq_ok.mpr ⟨hw.notDenied, hw.noNull, ?_, rfl⟩
    refine Tree.read_eq_ok.mpr (Tree.find_eq_ok.mpr ⟨hpath, ?_, Tree.get?_insert_self _ hne _⟩)
    exact Tree.walk_mono hwalk fun k hk => (Tree.get?_insert_file_eq_directory hfree _ k).mpr hk
  · exact Scan.ofStream_pack (Record.storable_of_forall₂ hrecords)
      (Stream.flatten_ofBytes (by decide) _)

def heldAfter (path : Text) (act : Action World Unit) (w : World) : Option Bytes :=
  match act w with
  | .ok _ w' => (w'.tree.read w'.current path).toOption
  | .error _ _ => none

theorem exists_of_heldAfter {path : Text} {act : Action World Unit} {content : Bytes}
    (h : heldAfter path act w = some content) :
    ∃ w', act w = .ok () w' ∧ w'.tree.read w'.current path = .ok content := by
  unfold heldAfter at h
  cases hact : act w with
  | error e w' => simp [hact] at h
  | ok _ w' =>
    rw [hact] at h
    dsimp only at h
    cases hread : w'.tree.read w'.current path with
    | error r => simp [hread, Except.toOption] at h
    | ok held =>
      rw [hread] at h
      cases h
      exact ⟨w', rfl, hread⟩

def listedTarget : Bytes := [1, 0, 0, 0, 121, 0, 0, 0, 0, 1, 0, 0, 0, 120, 0, 0, 0, 0]

/-- Two files of which the second is the target. -/
theorem create_captures_listed :
    ∃ w' records, create {} "/x".toList ["/y".toList, "/x".toList] twoFiles = .ok () w' ∧
      List.Forall₂ (Captures {} twoFiles "/x".toList) ["/y".toList, "/x".toList] records ∧
      readFile "/x".toList w' = .ok (pack .plain records) w' ∧
      pack .plain records = listedTarget ∧ w'.tree.get? ["y".toList] = some (.file []) := by
  have hheld : heldAfter "/x".toList (create {} "/x".toList ["/y".toList, "/x".toList]) twoFiles =
      some listedTarget := by decide +kernel
  obtain ⟨w', hcreate, hlisted⟩ := exists_of_heldAfter hheld
  obtain ⟨⟨records, hrecords, hread, -⟩, -, hkept, -⟩ := create_captures hcreate
  have hpack := (readFile_eq_ok.mp hread).2.2.1
  refine ⟨w', records, hcreate, hrecords, hread, ?_, hkept ["y".toList] (by decide)⟩
  exact Except.ok.inj (hpack.symm.trans hlisted)

/-- A target that is listed holds a byte before, and its record in the archive holds none. -/
theorem create_forgets_target :
    readFile "/x".toList twoFiles = .ok [5] twoFiles ∧
      ∃ w', create {} "/x".toList ["/y".toList, "/x".toList] twoFiles = .ok () w' ∧
        readFile "/x".toList w' = .ok listedTarget w' ∧
        ¬ List.Forall₂ (IsRecordOf {} twoFiles) ["/y".toList, "/x".toList]
          (Scan.ofStream .plain (Stream.ofBytes portion listedTarget)).records := by
  have hread : readFile "/x".toList twoFiles = .ok [5] twoFiles := rfl
  have hheld : heldAfter "/x".toList (create {} "/x".toList ["/y".toList, "/x".toList]) twoFiles =
      some listedTarget := by decide +kernel
  obtain ⟨w', hcreate, hlisted⟩ := exists_of_heldAfter hheld
  obtain ⟨hw, -, _, -, rfl⟩ := of_create_eq_ok hcreate
  refine ⟨hread, _, hcreate, readFile_eq_ok.mpr ⟨hw.notDenied, hw.noNull, hlisted, rfl⟩,
    fun hrecords => ?_⟩
  have hscan : (Scan.ofStream .plain (Stream.ofBytes portion listedTarget)).records =
      [⟨"y".toList, []⟩, ⟨"x".toList, []⟩] := by decide +kernel
  rw [hscan] at hrecords
  obtain - | ⟨-, - | ⟨hx, -⟩⟩ := hrecords
  cases hread.symm.trans hx.1

end Archiver

end Rollout
