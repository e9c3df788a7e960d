import Rollout.Proofs.FileSystem.Access
import Rollout.Resource

namespace Rollout

open Text

theorem read_of_isFile {w : World} {path : Text} (h : w.isFile path = true) :
    ∃ content, w.tree.read w.current path = .ok content := by
  unfold World.isFile World.node? at h
  cases hfind : w.tree.find w.current path with
  | error r =>
    rw [hfind] at h
    cases h
  | ok node =>
    cases node with
    | directory =>
      rw [hfind] at h
      cases h
    | file content =>
      refine ⟨content, ?_⟩
      rw [Tree.read, hfind]

namespace Resources

/-- A name leads to something that the system does not open, for a reason that it gives with a
path. -/
inductive Withheld (w : World) (name : Text) : Resources → Refusal → (path : Text) → Prop
  | deniedFile {root : Text} (isFile : w.isFile (Path.join root name) = true)
      (denied : w.isDenied (Path.join root name) = true) :
      Withheld w name (.directory root) .denied (Path.join root name)
  | deniedContent {home : Text} {files : Tree} {content : Bytes}
      (known : w.packages.lookup home = some files) (noNull : '\x00' ∉ name)
      (isFile : packaged w home files name = .ok (.file content))
      (denied : w.isDenied (packagedPath w home name) = true) :
      Withheld w name (.package home) .denied (packagedPath w home name)
  | longName {home : Text} {files : Tree} (known : w.packages.lookup home = some files)
      (noNull : '\x00' ∉ name) (long : packaged w home files name = .error .nameTooLong) :
      Withheld w name (.package home) .nameTooLong (packagedPath w home name)

variable {r : Resources} {w w' : World} {name path : Text} {e : Fault} {reason : Refusal}

theorem read_package (w : World) (home name : Text) :
    read (.package home) name w =
      match w.packages.lookup home with
      | none => .error (.unknownPackage home) w
      | some files =>
        match readPackaged w home files name with
        | .ok content => .ok content w
        | .error e => .error e w := by
  rw [read, get_bind]
  cases w.packages.lookup home with
  | none => rfl
  | some files =>
    dsimp only
    cases readPackaged w home files name <;> rfl

theorem read_directory (w : World) (root name : Text) :
    read (.directory root) name w =
      if w.isFile (Path.join root name) then readFile (Path.join root name) w
      else .error (.missingResource name (some root)) w := by
  change (if w.isFile (Path.join root name) then readFile _ else throw _ : Action World Bytes) w = _
  split <;> rfl

theorem read_memory (w : World) (items : List (Text × Bytes)) (name : Text) :
    read (.memory items) name w =
      match items.lookup name with
      | some content => .ok content w
      | none => .error (.missingResource name (some "<memory>".toList)) w := by
  rw [read]
  cases items.lookup name <;> rfl

theorem Withheld.read (h : r.Withheld w name reason path) :
    r.read name w = .error (.refused reason path) w := by
  cases h with
  | deniedFile isFile denied => rw [read_directory, if_pos isFile, readFile_eq, if_pos denied]
  | deniedContent known noNull isFile denied =>
    rw [read_package, known]
    dsimp only
    rw [readPackaged, if_neg (by simpa using noNull), isFile]
    dsimp only
    rw [if_pos denied]
  | longName known noNull long =>
    rw [read_package, known]
    dsimp only
    rw [readPackaged, if_neg (by simpa using noNull), long]

theorem readPackaged_error {home : Text} {files : Tree} (known : w.packages.lookup home = some files)
    (h : readPackaged w home files name = .error e) :
    e = .missingResource name (some home) ∨
      ∃ reason path, Withheld w name (.package home) reason path ∧ e = .refused reason path := by
  unfold readPackaged at h
  split at h
  · cases h
    exact .inl rfl
  · next noNull =>
    replace noNull : '\x00' ∉ name := by simpa using noNull
    split at h
    · next isFile =>
      split at h
      · next denied =>
        cases h
        exact .inr ⟨_, _, .deniedContent known noNull isFile denied, rfl⟩
      · cases h
    · next long =>
      cases h
      exact .inr ⟨_, _, .longName known noNull long, rfl⟩
    · cases h
      exact .inl rfl

/-- Why a name gives nothing. -/
theorem read_error (h : r.read name w = .error e w') :
    (e = .nullByte ∨ (∃ home, e = .unknownPackage home) ∨
      ∃ location, e = .missingResource name location) ∨
    ∃ reason path, r.Withheld w name reason path ∧ e = .refused reason path := by
  cases r with
  | directory root =>
    rw [read_directory] at h
    split at h
    · next isFile =>
      obtain ⟨content, hread⟩ := read_of_isFile isFile
      rw [readFile_eq, hread] at h
      split_ifs at h with denied
      · cases h
        exact .inr ⟨_, _, .deniedFile isFile denied, rfl⟩
      · cases h
        exact .inl (.inl rfl)
    · cases h
      exact .inl (.inr (.inr ⟨_, rfl⟩))
  | package home =>
    rw [read_package] at h
    split at h
    · cases h
      exact .inl (.inr (.inl ⟨_, rfl⟩))
    · next files known =>
      cases hread : readPackaged w home files name with
      | ok content =>
        rw [hread] at h
        cases h
      | error e₁ =>
        rw [hread] at h
        cases h
        exact (readPackaged_error known hread).imp_left fun hmissing => .inr (.inr ⟨_, hmissing⟩)
  | memory items =>
    rw [read_memory] at h
    split at h
    · cases h
    · cases h
      exact .inl (.inr (.inr ⟨_, rfl⟩))

theorem readText_error (h : r.readText name w = .error e w') :
    (∃ error, e = .undecodable error) ∨ r.read name w = .error e w' := by
  obtain hread | ⟨content, w₁, -, hdecode⟩ := bind_eq_error.mp h
  · exact .inr hread
  · cases hd : r.decode content with
    | ok t =>
      rw [hd] at hdecode
      cases hdecode
    | error error =>
      rw [hd] at hdecode
      cases hdecode
      exact .inl ⟨_, rfl⟩

end Resources

end Rollout
