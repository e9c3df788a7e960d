import Rollout.Interpreter.Builtin
import Rollout.Proofs.FileSystem.Access

namespace Rollout

open Text

variable {σ α β : Type}

def mapEnd (f : σ → σ) : EStateM.Result Fault σ α → EStateM.Result Fault σ α
  | .ok x s => .ok x (f s)
  | .error e s => .error e (f s)

def World.after (w : World) (j : Journal) : World := { w with journal := j ++ w.journal }

/-- What the action does does not depend on what the journal holds. -/
def Oblivious (a : Action World α) : Prop :=
  ∀ w j, a (w.after j) = mapEnd (World.after · j) (a w)

theorem oblivious_pure (x : α) : Oblivious (pure x : Action World α) := fun _ _ => rfl

theorem oblivious_throw (e : Fault) : Oblivious (throw e : Action World α) := fun _ _ => rfl

theorem oblivious_get_bind {f : World → Action World β}
    (h : ∀ w j, f (w.after j) (w.after j) = mapEnd (World.after · j) (f w w)) :
    Oblivious (get >>= f) := h

theorem oblivious_read_bind {f : World → Action World β} (hf : ∀ w j, f (w.after j) = f w)
    (h : ∀ w, Oblivious (f w)) : Oblivious (get >>= f) :=
  oblivious_get_bind fun w j => by rw [hf, h w w j]

theorem oblivious_modify {f : World → World} (h : ∀ w j, f (w.after j) = (f w).after j) :
    Oblivious (modify f : Action World Unit) :=
  fun w j => congrArg (EStateM.Result.ok ()) (h w j)

theorem Oblivious.bind {a : Action World α} {f : α → Action World β} (ha : Oblivious a)
    (hf : ∀ x, Oblivious (f x)) : Oblivious (a >>= f) := by
  intro w j
  have hw := ha w j
  cases h : a w with
  | ok x w' =>
    rw [h] at hw
    rw [bind_of_ok h, bind_of_ok hw]
    exact hf x w' j
  | error e w' =>
    rw [h] at hw
    rw [bind_of_error h, bind_of_error hw]
    rfl

theorem Oblivious.attempt {a : Action World α} (ha : Oblivious a) : Oblivious (attempt a) := by
  intro w j
  have hw := ha w j
  unfold Rollout.attempt
  cases h : a w <;> rw [hw, h] <;> rfl

theorem Oblivious.tryCatch {a : Action World α} {f : Fault → Action World α} (ha : Oblivious a)
    (hf : ∀ e, Oblivious (f e)) : Oblivious (tryCatch a f) := by
  intro w j
  have hw := ha w j
  cases h : a w with
  | ok x w' =>
    rw [h] at hw
    rw [tryCatch_of_ok h, tryCatch_of_ok hw]
    rfl
  | error e w' =>
    rw [h] at hw
    rw [tryCatch_of_error h, tryCatch_of_error hw]
    exact hf e w' j

theorem record_oblivious (e : Entry) : Oblivious (record e) := by
  refine oblivious_modify fun w j => ?_
  simp only [World.after, List.append_assoc]

theorem log_oblivious (level : Level) (channel : Channel) (t : Text) :
    Oblivious (log level channel t) := record_oblivious _

theorem readFile_oblivious (path : Text) : Oblivious (readFile path) := by
  intro w j
  have hw : (w.after j).isDenied path = w.isDenied path := rfl
  have hr : (w.after j).tree.read (w.after j).current path = w.tree.read w.current path := rfl
  rw [readFile_eq, readFile_eq, hw, hr]
  split_ifs
  · rfl
  · rfl
  · cases w.tree.read w.current path <;> rfl

theorem writeFile_oblivious (path : Text) (content : Bytes) :
    Oblivious (writeFile path content) := by
  intro w j
  have hw : (w.after j).isDenied path = w.isDenied path := rfl
  have hr : (w.after j).tree.write (w.after j).current path content =
    w.tree.write w.current path content := rfl
  rw [writeFile_eq, writeFile_eq, hw, hr]
  split_ifs
  · rfl
  · rfl
  · cases w.tree.write w.current path content <;> rfl

theorem removePath_oblivious (path : Text) : Oblivious (removePath path) := by
  intro w j
  have hw : (w.after j).isDenied path = w.isDenied path := rfl
  have hr : (w.after j).tree.erase (w.after j).current path = w.tree.erase w.current path := rfl
  rw [removePath_eq, removePath_eq, hw, hr]
  split_ifs
  · rfl
  · rfl
  · obtain ⟨tree, _ | r⟩ := w.tree.erase w.current path <;> rfl

theorem makeDirectory_oblivious (path : Text) : Oblivious (makeDirectory path) := by
  intro w j
  have hr : (w.after j).tree.makeDirectory (w.after j).current path =
    w.tree.makeDirectory w.current path := rfl
  rw [makeDirectory_eq, makeDirectory_eq, hr]
  split_ifs
  · rfl
  · cases w.tree.makeDirectory w.current path <;> rfl

theorem settleDirectory_oblivious (path : Text) : Oblivious (settleDirectory path) := by
  refine (makeDirectory_oblivious path).tryCatch fun e => ?_
  split
  · refine oblivious_read_bind (fun _ _ => rfl) fun w => ?_
    split
    · exact oblivious_pure _
    · exact oblivious_throw _
  · exact oblivious_throw _

theorem makeDirectoriesWithin_oblivious (depth : Nat) (path : Text) :
    Oblivious (makeDirectoriesWithin depth path) := by
  induction depth generalizing path with
  | zero => exact settleDirectory_oblivious path
  | succ depth ih =>
    unfold makeDirectoriesWithin
    dsimp only
    refine oblivious_read_bind (fun _ _ => rfl) fun w => ?_
    split
    · refine Oblivious.bind ((ih _).tryCatch fun e => ?_) fun _ => ?_
      · split
        · exact oblivious_pure _
        · exact oblivious_throw _
      · split
        · exact oblivious_pure _
        · exact settleDirectory_oblivious path
    · exact settleDirectory_oblivious path

theorem makeDirectories_oblivious (path : Text) : Oblivious (makeDirectories path) := by
  refine oblivious_read_bind (fun _ _ => rfl) fun w => ?_
  split
  · exact (oblivious_throw _).bind fun _ => makeDirectoriesWithin_oblivious _ _
  · exact makeDirectoriesWithin_oblivious _ _

namespace Archiver

theorem recordOf_oblivious (a : Archiver) (path : Text) : Oblivious (a.recordOf path) :=
  oblivious_read_bind (fun _ _ => rfl) fun _ =>
    (readFile_oblivious path).bind fun _ => oblivious_pure _

section

variable {τ : Type} {put : τ → Bytes → Action World τ} (h : ∀ t piece, Oblivious (put t piece))

include h

theorem putPieces_oblivious (coder : Coder σ) (s : σ) (t : τ) (pieces : List Bytes) :
    Oblivious (putPieces coder put s t pieces) := by
  induction pieces generalizing s t with
  | nil => exact oblivious_pure _
  | cons piece rest ih => exact (h t _).bind fun _ => ih _ _

theorem putFiles_oblivious (coder : Coder σ) (a : Archiver) (s : σ) (t : τ) (files : List Text) :
    Oblivious (a.putFiles coder put s t files) := by
  induction files generalizing s t with
  | nil => exact oblivious_pure _
  | cons path rest ih =>
    refine (a.recordOf_oblivious path).attempt.bind fun read => ?_
    cases read with
    | error e => exact oblivious_pure _
    | ok record =>
      refine (putPieces_oblivious h coder s t _).bind fun _ => ?_
      cases record.pieces.2 with
      | some e => exact oblivious_pure _
      | none => exact ih _ _

theorem writeThrough_oblivious (coder : Coder σ) (a : Archiver) (t : τ) (files : List Text) :
    Oblivious (a.writeThrough coder put t files) :=
  (putFiles_oblivious h coder a coder.start t files).bind fun _ =>
    (h _ _).bind fun _ => oblivious_pure _

theorem writeTo_oblivious (a : Archiver) (t : τ) (files : List Text) :
    Oblivious (a.writeTo put t files) := by
  unfold writeTo
  cases a.codec with
  | plain => exact writeThrough_oblivious h .plain a t files
  | deflate =>
    dsimp only
    split
    · exact writeThrough_oblivious h .deflate a t files
    · exact oblivious_pure _

end

theorem create_oblivious (a : Archiver) (target : Text) (files : List Text) :
    Oblivious (a.create target files) := by
  have hput (b : Buffered) (piece : Bytes) : Oblivious (putFile target b piece) :=
    oblivious_read_bind (fun _ _ => rfl) fun _ =>
      (writeFile_oblivious target _).bind fun _ => oblivious_pure _
  refine (writeFile_oblivious target []).bind fun _ =>
    (writeTo_oblivious hput a {} files).bind fun x => ?_
  refine (writeFile_oblivious target x.1.content).bind fun _ => ?_
  split
  · exact oblivious_pure _
  · exact oblivious_throw _

theorem extractRecord_oblivious (directory : Text) (r : Record) :
    Oblivious (extractRecord directory r) := by
  unfold extractRecord
  dsimp only
  have h : Oblivious (do
      writeFile (Path.joinAll directory (Path.parts r.path)) r.content
      log .debug .archive ("Extracted ".toList ++ r.path ++ " (".toList ++
        ofNat r.content.length ++ " bytes)".toList)) :=
    (writeFile_oblivious _ _).bind fun _ => log_oblivious _ _ _
  split
  · exact (makeDirectories_oblivious _).bind fun _ => h
  · exact h

theorem extractRecords_oblivious (directory : Text) (rs : List Record) :
    Oblivious (extractRecords directory rs) := by
  induction rs with
  | nil => exact oblivious_pure _
  | cons r rest ih => exact (extractRecord_oblivious directory r).bind fun _ => ih

theorem extract_oblivious (a : Archiver) (stream : Stream) (directory : Text) :
    Oblivious (a.extract stream directory) := by
  refine (extractRecords_oblivious directory _).bind fun _ => ?_
  unfold finish
  split
  · exact oblivious_pure _
  · exact log_oblivious _ _ _
  · exact oblivious_throw _

end Archiver

theorem Resources.read_oblivious (r : Resources) (name : Text) : Oblivious (r.read name) := by
  cases r with
  | directory root =>
    refine oblivious_read_bind (fun _ _ => rfl) fun w => ?_
    split
    · exact readFile_oblivious _
    · exact oblivious_throw _
  | package home =>
    refine oblivious_read_bind (fun _ _ => rfl) fun w => ?_
    split
    · exact oblivious_throw _
    · split
      · exact oblivious_pure _
      · exact oblivious_throw _
  | memory items =>
    simp only [Resources.read]
    split
    · exact oblivious_pure _
    · exact oblivious_throw _

theorem Resources.readText_oblivious (r : Resources) (name : Text) :
    Oblivious (r.readText name) := by
  refine (r.read_oblivious name).bind fun content => ?_
  split
  · exact oblivious_pure _
  · exact oblivious_throw _

theorem memoized_oblivious (d : Derived) {compute : Action World (Option Text)}
    (h : Oblivious compute) : Oblivious (memoized d compute) := by
  refine oblivious_read_bind (fun _ _ => rfl) fun w => ?_
  split
  · exact oblivious_pure _
  · refine h.bind fun value => ?_
    exact (oblivious_modify fun _ _ => rfl).bind fun _ => oblivious_pure _

theorem memoized_read_oblivious (d : Derived) {f : World → Option Text}
    (hf : ∀ w j, f (w.after j) = f w) :
    Oblivious (memoized d (do let w ← get; pure (f w))) :=
  memoized_oblivious d (oblivious_read_bind (fun w j => by rw [hf]) fun _ => oblivious_pure _)

theorem World.nearestMarked_after (w : World) (j : Journal) (depth : Nat) (directory : Text) :
    (w.after j).nearestMarked depth directory = w.nearestMarked depth directory := by
  induction depth generalizing directory with
  | zero => rfl
  | succ depth ih =>
    simp only [nearestMarked, ih]
    rfl

theorem needDirectory_oblivious (needed : Bool) : Oblivious (needDirectory needed) := by
  refine oblivious_read_bind (fun _ _ => rfl) fun w => ?_
  split
  · exact oblivious_throw _
  · exact oblivious_pure _

theorem Derived.value_oblivious (d : Derived) : Oblivious d.value := by
  have platform : Oblivious platformTagValue := memoized_read_oblivious _ fun _ _ => rfl
  have windows : Oblivious windowsDirectoryValue := memoized_read_oblivious _ fun _ _ => rfl
  have runtime : Oblivious runtimeDirectoryValue :=
    memoized_oblivious _ (oblivious_read_bind (fun _ _ => rfl) fun _ =>
      (needDirectory_oblivious _).bind fun _ => oblivious_pure _)
  cases d with
  | solutionDirectory =>
    refine memoized_oblivious _ ((needDirectory_oblivious _).bind fun _ => ?_)
    refine oblivious_read_bind (fun w j => ?_) fun _ => oblivious_pure _
    exact congrArg (fun r => (pure r : Action World (Option Text)))
      (w.nearestMarked_after j _ _)
  | platformTag => exact platform
  | programFiles =>
    refine memoized_oblivious _ (platform.bind fun tag => ?_)
    refine oblivious_read_bind (fun _ _ => rfl) fun w => ?_
    split
    · split
      · exact oblivious_pure _
      · exact oblivious_pure _
    · exact oblivious_pure _
  | windowsDirectory => exact windows
  | systemDirectory =>
    refine memoized_oblivious _ (windows.bind fun root => ?_)
    split
    · exact oblivious_pure _
    · exact oblivious_pure _
  | runtimeDirectory => exact runtime
  | nativeCompiler => exact memoized_oblivious _ (runtime.bind fun _ => oblivious_pure _)

namespace Script

theorem valueOf_oblivious (vs : Variables) (name : Text) :
    Oblivious (valueOf vs Derived.lookup name) := by
  unfold valueOf
  split
  · exact oblivious_pure _
  · split
    · exact oblivious_pure _
    · split
      · next compute h =>
        obtain ⟨d, -, rfl⟩ := Option.map_eq_some_iff.mp h
        refine d.value_oblivious.bind fun value => ?_
        split
        · exact oblivious_pure _
        · exact oblivious_throw _
      · split
        · exact oblivious_pure _
        · exact oblivious_throw _

theorem resolve_oblivious (vs : Variables) (line : Text) :
    Oblivious (resolve vs Derived.lookup line) := by
  unfold resolve
  induction occurrences macroAt 0 line with
  | nil => exact oblivious_pure _
  | cons piece rest ih =>
    cases piece with
    | plain c => exact ih.bind fun _ => oblivious_pure _
    | found name =>
      exact (valueOf_oblivious vs name).bind fun _ => ih.bind fun _ => oblivious_pure _

end Script

theorem launch_oblivious (path arguments : Text) (directory : Option Text) (captured : Bool)
    (timeout : Option Int) :
    Oblivious (launch path arguments directory captured timeout) := by
  refine oblivious_read_bind (fun _ _ => rfl) fun w => ?_
  refine (log_oblivious _ _ _).bind fun _ => (record_oblivious _).bind fun _ => ?_
  split
  · exact oblivious_throw _
  · exact oblivious_throw _
  · refine (oblivious_modify fun _ _ => rfl).bind fun _ => ?_
    dsimp only
    split
    · split
      · exact (oblivious_throw _).bind fun _ => oblivious_pure _
      · exact oblivious_pure _
    · exact oblivious_pure _

theorem killByPath_oblivious (path : Text) : Oblivious (killByPath path) := by
  refine oblivious_get_bind fun w j => ?_
  have hp : (w.after j).processes = w.processes := rfl
  rw [hp]
  cases findProcess (lower (processName path)) w.processes with
  | none => rfl
  | some found =>
    obtain ⟨before, p, after⟩ := found
    dsimp only
    by_cases hd : p.fate = .denied
    · rw [if_pos hd, if_pos hd]
      rfl
    · rw [if_neg hd, if_neg hd]
      have h : Oblivious (do
          record (.killed p.pid)
          log .debug .processes
            ("Killed process ".toList ++ p.name.getD [] ++ " (pid ".toList ++ ofInt p.pid ++ [')'])
          pure true : Action World Bool) :=
        (record_oblivious _).bind fun _ => (log_oblivious _ _ _).bind fun _ => oblivious_pure _
      exact h { w with processes := before ++ after } j

namespace Service

theorem control_oblivious (verb name : Text) : Oblivious (control verb name) := by
  refine (record_oblivious _).bind fun _ => oblivious_get_bind fun w j => ?_
  have hr : (w.after j).replies = w.replies := rfl
  rw [hr]
  cases w.replies with
  | nil => rfl
  | cons reply rest =>
    have h : Oblivious (if reply.code = 0 then pure (reply.output name)
        else throw (.serviceOperation name (some (trim (reply.output name))))) := by
      split
      · exact oblivious_pure _
      · exact oblivious_throw _
    exact h { w with replies := rest } j

theorem pause_oblivious (time : Duration) : Oblivious (pause time) :=
  (record_oblivious _).bind fun _ => oblivious_modify fun _ _ => rfl

theorem state_oblivious (name : Text) : Oblivious (state name) :=
  (control_oblivious _ name).bind fun _ => oblivious_pure _

theorem awaitState_oblivious (poll : Duration) (name wanted : Text) (deadline : Option Rat)
    (queries : Nat) : Oblivious (awaitState poll name wanted deadline queries) := by
  induction queries with
  | zero => exact oblivious_throw _
  | succ queries ih =>
    refine (state_oblivious name).bind fun found => ?_
    split
    · exact oblivious_pure _
    · refine oblivious_read_bind (fun _ _ => rfl) fun w => ?_
      cases deadline with
      | none => exact (pause_oblivious poll).bind fun _ => ih
      | some d =>
        dsimp only
        split
        · exact oblivious_throw _
        · exact (pause_oblivious poll).bind fun _ => ih

theorem waitFor_oblivious (poll : Duration) (name wanted : Text) (timeout : Option Rat) :
    Oblivious (waitFor poll name wanted timeout) :=
  oblivious_read_bind (fun _ _ => rfl) fun _ => awaitState_oblivious _ _ _ _ _

theorem start_oblivious (poll : Duration) (name : Text) (timeout : Option Rat) :
    Oblivious (start poll name timeout) :=
  (log_oblivious _ _ _).bind fun _ =>
    (control_oblivious _ _).bind fun _ => waitFor_oblivious _ _ _ _

theorem stop_oblivious (poll : Duration) (name : Text) (timeout : Option Rat) :
    Oblivious (stop poll name timeout) :=
  (log_oblivious _ _ _).bind fun _ =>
    (control_oblivious _ _).bind fun _ => waitFor_oblivious _ _ _ _

end Service

namespace Metadata

theorem probe_oblivious (path : Text) : Oblivious (probe path) := by
  refine (readFile_oblivious path).bind fun content => ?_
  split
  · exact oblivious_pure _
  · split
    · exact oblivious_pure _
    · exact (log_oblivious _ _ _).bind fun _ => oblivious_pure _

theorem readMarked_oblivious (path : Text) : Oblivious (readMarked path) := by
  refine (readFile_oblivious path).bind fun content => ?_
  split
  · exact oblivious_pure _
  · exact oblivious_throw _

theorem pass_oblivious (source target : Text) : Oblivious (pass source target) := by
  refine oblivious_read_bind (fun _ _ => rfl) fun w => ?_
  dsimp only
  have h : Oblivious (do
      let sourceText ← readMarked (Path.join source projectFile)
      let targetText ← readMarked (Path.join target projectFile)
      writeFile (Path.join target projectFile) (Utf8.encode (passText sourceText targetText))
      pure (firstVersion assemblyVersionAt sourceText, firstVersion fileVersionAt sourceText)) := by
    refine (readMarked_oblivious _).bind fun _ => (readMarked_oblivious _).bind fun _ => ?_
    exact (writeFile_oblivious _ _).bind fun _ => oblivious_pure _
  split
  · refine (oblivious_throw _).bind fun _ => ?_
    split
    · exact (oblivious_throw _).bind fun _ => h
    · exact h
  · split
    · exact (oblivious_throw _).bind fun _ => h
    · exact h

end Metadata

theorem Builtin.installedVersion_oblivious (settings : Settings) (path : Text) :
    Oblivious (Builtin.installedVersion settings path) := by
  unfold Builtin.installedVersion
  split
  · refine (Metadata.probe_oblivious path).bind fun found => ?_
    dsimp only
    split
    · exact oblivious_pure _
    · exact oblivious_pure _
  · refine (oblivious_pure _).bind fun found => ?_
    dsimp only
    split
    · exact oblivious_pure _
    · exact oblivious_pure _

end Rollout
