import Rollout.Interpreter.Builtin
import Rollout.Proofs.FileSystem.Access

namespace Rollout

open Text

namespace Entry

def isTerminal : Entry → Bool
  | success | failure _ => true
  | _ => false

def ignored? : Entry → Option Flag
  | log .warning .interpreter text =>
    Flag.all.find? fun f => startsWith text ("Ignoring ".toList ++ (Status.ofFlag f).describe)
  | _ => none

/-- Entries that tell of no failure and of no end. -/
def IsNeutral (e : Entry) : Prop := e.isTerminal = false ∧ e.ignored? = none

end Entry

structure Evolves (w w' : World) : Prop where
  current : w'.current = w.current
  denied : w'.denied = w.denied
  journal : ∃ es, w'.journal = w.journal ++ es ∧ ∀ e ∈ es, e.IsNeutral

theorem evolves_of_eq {w w' : World} (hc : w'.current = w.current) (hd : w'.denied = w.denied)
    (hj : w'.journal = w.journal) : Evolves w w' := ⟨hc, hd, [], by simp [hj]⟩

instance : IsPreorder World Evolves where
  refl _ := evolves_of_eq rfl rfl rfl
  trans := by
    rintro u v w ⟨hc, hd, es, hj, hn⟩ ⟨hc', hd', es', hj', hn'⟩
    refine ⟨hc'.trans hc, hd'.trans hd, es ++ es', by rw [hj', hj, List.append_assoc], ?_⟩
    intro e he
    obtain h | h := List.mem_append.mp he
    · exact hn e h
    · exact hn' e h

theorem Obeys.evolves {α : Type} {a : Action World α} (h : Obeys SameButTree a) :
    Obeys Evolves a := by
  refine h.mono fun w w' hw => ?_
  rw [hw]
  exact evolves_of_eq rfl rfl rfl

theorem record_evolves {e : Entry} (h : e.IsNeutral) : Obeys Evolves (record e) :=
  obeys_modify fun _ => ⟨rfl, rfl, [e], rfl, by simpa using h⟩

theorem log_evolves (level : Level) (channel : Channel) (h : channel ≠ .interpreter) (t : Text) :
    Obeys Evolves (log level channel t) := by
  refine record_evolves ⟨rfl, ?_⟩
  cases channel with
  | interpreter => exact absurd rfl h
  | _ => cases level <;> rfl

namespace Archiver

theorem recordOf_evolves (a : Archiver) (path : Text) : Obeys Evolves (a.recordOf path) :=
  obeys_get.bind fun _ => (readFile_obeys path).bind fun _ => obeys_pure _

section

variable {σ τ : Type} {put : τ → Bytes → Action World τ} (h : ∀ t piece, Obeys Evolves (put t piece))

include h

theorem putPieces_evolves (coder : Coder σ) (s : σ) (t : τ) (pieces : List Bytes) :
    Obeys Evolves (putPieces coder put s t pieces) := by
  induction pieces generalizing s t with
  | nil => exact obeys_pure _
  | cons piece rest ih => exact (h t _).bind fun _ => ih _ _

theorem putFiles_evolves (coder : Coder σ) (a : Archiver) (s : σ) (t : τ) (files : List Text) :
    Obeys Evolves (a.putFiles coder put s t files) := by
  induction files generalizing s t with
  | nil => exact obeys_pure _
  | cons path rest ih =>
    refine (a.recordOf_evolves path).attempt.bind fun read => ?_
    cases read with
    | error e => exact obeys_pure _
    | ok record =>
      refine (putPieces_evolves h coder s t _).bind fun _ => ?_
      cases record.pieces.2 with
      | some e => exact obeys_pure _
      | none => exact ih _ _

theorem writeThrough_evolves (coder : Coder σ) (a : Archiver) (t : τ) (files : List Text) :
    Obeys Evolves (a.writeThrough coder put t files) :=
  (putFiles_evolves h coder a coder.start t files).bind fun _ => (h _ _).bind fun _ => obeys_pure _

theorem writeTo_evolves (a : Archiver) (t : τ) (files : List Text) :
    Obeys Evolves (a.writeTo put t files) := by
  unfold writeTo
  cases a.codec with
  | plain => exact writeThrough_evolves h .plain a t files
  | deflate =>
    dsimp only
    split
    · exact writeThrough_evolves h .deflate a t files
    · exact obeys_pure _

end

theorem create_evolves (a : Archiver) (target : Text) (files : List Text) :
    Obeys Evolves (a.create target files) := by
  have hwrite (content : Bytes) : Obeys Evolves (writeFile target content) :=
    (writeFile_sameButTree target content).evolves
  have hput (b : Buffered) (piece : Bytes) : Obeys Evolves (putFile target b piece) :=
    obeys_get.bind fun _ => (hwrite _).bind fun _ => obeys_pure _
  refine (hwrite []).bind fun _ => (writeTo_evolves hput a {} files).bind fun x => ?_
  refine (hwrite x.1.content).bind fun _ => ?_
  split
  · exact obeys_pure _
  · exact obeys_throw _

theorem extractRecord_evolves (directory : Text) (r : Record) :
    Obeys Evolves (extractRecord directory r) := by
  unfold extractRecord
  dsimp only
  have hwrite := writeFile_sameButTree (Path.joinAll directory (Path.parts r.path)) r.content
  have h := hwrite.evolves.bind
    fun _ => log_evolves .debug .archive nofun
      ("Extracted ".toList ++ r.path ++ " (".toList ++ ofNat r.content.length ++ " bytes)".toList)
  split
  · exact (makeDirectories_sameButTree _).evolves.bind fun _ => h
  · exact h

theorem extractRecords_evolves (directory : Text) (rs : List Record) :
    Obeys Evolves (extractRecords directory rs) := by
  induction rs with
  | nil => exact obeys_pure _
  | cons r rest ih => exact (extractRecord_evolves directory r).bind fun _ => ih

theorem finish_evolves (ending : Ending) : Obeys Evolves (finish ending) := by
  cases ending with
  | clean => exact obeys_pure _
  | truncated => exact log_evolves .debug .archive nofun _
  | wrong e => exact obeys_throw _

theorem extract_evolves (a : Archiver) (stream : Stream) (directory : Text) :
    Obeys Evolves (a.extract stream directory) :=
  (extractRecords_evolves directory _).bind fun _ => finish_evolves _

end Archiver

theorem Resources.read_evolves (r : Resources) (name : Text) : Obeys Evolves (r.read name) := by
  cases r with
  | directory root =>
    refine obeys_get.bind fun w => ?_
    split
    · exact readFile_obeys _
    · exact obeys_throw _
  | package home =>
    refine obeys_get.bind fun w => ?_
    split
    · exact obeys_throw _
    · split
      · exact obeys_pure _
      · exact obeys_throw _
  | memory items =>
    simp only [Resources.read]
    split
    · exact obeys_pure _
    · exact obeys_throw _

theorem Resources.readText_evolves (r : Resources) (name : Text) :
    Obeys Evolves (r.readText name) := by
  refine (r.read_evolves name).bind fun content => ?_
  split
  · exact obeys_pure _
  · exact obeys_throw _

section

-- What macros do besides reading is to keep the values they have computed.
variable {R : World → World → Prop} [IsPreorder World R]

theorem memoized_obeys (hm : ∀ w memo, R w { w with memo }) (d : Derived)
    {compute : Action World (Option Text)} (h : Obeys R compute) :
    Obeys R (memoized d compute) := by
  refine obeys_get.bind fun w => ?_
  split
  · exact obeys_pure _
  · refine h.bind fun value => ?_
    exact Obeys.bind (obeys_modify fun _ => hm _ _) fun _ => obeys_pure _

theorem needDirectory_obeys (needed : Bool) : Obeys R (needDirectory needed) := by
  refine obeys_get.bind fun w => ?_
  split
  · exact obeys_throw _
  · exact obeys_pure _

theorem Derived.value_obeys (hm : ∀ w memo, R w { w with memo }) (d : Derived) :
    Obeys R d.value := by
  have platform : Obeys R platformTagValue :=
    memoized_obeys hm _ (obeys_get.bind fun _ => obeys_pure _)
  have windows : Obeys R windowsDirectoryValue :=
    memoized_obeys hm _ (obeys_get.bind fun _ => obeys_pure _)
  have runtime : Obeys R runtimeDirectoryValue :=
    memoized_obeys hm _ (obeys_get.bind fun _ => (needDirectory_obeys _).bind fun _ => obeys_pure _)
  cases d with
  | solutionDirectory =>
    exact memoized_obeys hm _ ((needDirectory_obeys _).bind fun _ =>
      obeys_get.bind fun _ => obeys_pure _)
  | platformTag => exact platform
  | programFiles =>
    refine memoized_obeys hm _ (platform.bind fun tag => obeys_get.bind fun w => ?_)
    split
    · split
      · exact obeys_pure _
      · exact obeys_pure _
    · exact obeys_pure _
  | windowsDirectory => exact windows
  | systemDirectory =>
    refine memoized_obeys hm _ (windows.bind fun root => ?_)
    split
    · exact obeys_pure _
    · exact obeys_pure _
  | runtimeDirectory => exact runtime
  | nativeCompiler => exact memoized_obeys hm _ (runtime.bind fun _ => obeys_pure _)

namespace Script

theorem valueOf_obeys (hm : ∀ w memo, R w { w with memo }) (vs : Variables) (name : Text) :
    Obeys R (valueOf vs Derived.lookup name) := by
  unfold valueOf
  split
  · exact obeys_pure _
  · split
    · exact obeys_pure _
    · split
      · next compute h =>
        obtain ⟨d, -, rfl⟩ := Option.map_eq_some_iff.mp h
        refine (d.value_obeys hm).bind fun value => ?_
        split
        · exact obeys_pure _
        · exact obeys_throw _
      · split
        · exact obeys_pure _
        · exact obeys_throw _

theorem resolve_obeys (hm : ∀ w memo, R w { w with memo }) (vs : Variables) (line : Text) :
    Obeys R (resolve vs Derived.lookup line) := by
  unfold resolve
  induction occurrences macroAt 0 line with
  | nil => exact obeys_pure _
  | cons piece rest ih =>
    cases piece with
    | plain c => exact ih.bind fun _ => obeys_pure _
    | found name =>
      exact (valueOf_obeys hm vs name).bind fun _ => ih.bind fun _ => obeys_pure _

end Script

end

theorem Script.valueOf_evolves (vs : Variables) (name : Text) :
    Obeys Evolves (valueOf vs Derived.lookup name) :=
  valueOf_obeys (fun _ _ => evolves_of_eq rfl rfl rfl) vs name

theorem Script.resolve_evolves (vs : Variables) (line : Text) :
    Obeys Evolves (resolve vs Derived.lookup line) :=
  resolve_obeys (fun _ _ => evolves_of_eq rfl rfl rfl) vs line

theorem launch_evolves (path arguments : Text) (directory : Option Text) (captured : Bool)
    (timeout : Option Int) : Obeys Evolves (launch path arguments directory captured timeout) := by
  refine obeys_get.bind fun w => (log_evolves .debug .processes nofun _).bind fun _ => ?_
  refine (record_evolves ⟨rfl, rfl⟩).bind fun _ => ?_
  split
  · exact obeys_throw _
  · exact obeys_throw _
  · refine Obeys.bind (obeys_modify fun _ => evolves_of_eq rfl rfl rfl) fun _ => ?_
    dsimp only
    split
    · split
      · exact (obeys_throw _).bind fun _ => obeys_pure _
      · exact obeys_pure _
    · exact obeys_pure _

theorem killByPath_evolves (path : Text) : Obeys Evolves (killByPath path) := by
  refine obeys_get_bind fun w => ?_
  split
  · exact obeys_pure _ w
  · next before p after _ =>
    have h : ObeysAt Evolves (do
        set { w with processes := before ++ after }
        record (.killed p.pid)
        log .debug .processes
          ("Killed process ".toList ++ p.name.getD [] ++ " (pid ".toList ++ ofInt p.pid ++ [')'])
        pure true : Action World Bool) w := by
      refine ObeysAt.bind (obeysAt_set (evolves_of_eq rfl rfl rfl)) fun _ w' _ => ?_
      refine Obeys.bind (record_evolves ⟨rfl, rfl⟩) (fun _ => ?_) w'
      exact (log_evolves .debug .processes nofun _).bind fun _ => obeys_pure _
    dsimp only
    split
    · exact obeys_throw _ w
    · exact h

namespace Service

theorem control_evolves (verb name : Text) : Obeys Evolves (control verb name) := by
  refine (record_evolves ⟨rfl, rfl⟩).bind fun _ => obeys_get_bind fun w => ?_
  split
  · exact obeys_throw _ w
  · refine ObeysAt.bind (obeysAt_set (evolves_of_eq rfl rfl rfl)) fun _ w' _ => ?_
    split
    · exact obeys_pure _ w'
    · exact obeys_throw _ w'

theorem pause_evolves (time : Duration) : Obeys Evolves (pause time) :=
  Obeys.bind (record_evolves ⟨rfl, rfl⟩) fun _ => obeys_modify fun _ => evolves_of_eq rfl rfl rfl

theorem state_evolves (name : Text) : Obeys Evolves (state name) :=
  (control_evolves _ name).bind fun _ => obeys_pure _

theorem awaitState_evolves (poll : Duration) (name wanted : Text) (deadline : Option Rat)
    (queries : Nat) : Obeys Evolves (awaitState poll name wanted deadline queries) := by
  induction queries with
  | zero => exact obeys_throw _
  | succ queries ih =>
    refine (state_evolves name).bind fun found => ?_
    split
    · exact obeys_pure _
    · refine obeys_get.bind fun w => ?_
      cases deadline with
      | none => exact (pause_evolves poll).bind fun _ => ih
      | some d =>
        dsimp only
        split
        · exact obeys_throw _
        · exact (pause_evolves poll).bind fun _ => ih

theorem waitFor_evolves (poll : Duration) (name wanted : Text) (timeout : Option Rat) :
    Obeys Evolves (waitFor poll name wanted timeout) :=
  obeys_get.bind fun _ => awaitState_evolves _ _ _ _ _

theorem start_evolves (poll : Duration) (name : Text) (timeout : Option Rat) :
    Obeys Evolves (start poll name timeout) :=
  (log_evolves .debug .services nofun _).bind fun _ =>
    (control_evolves _ _).bind fun _ => waitFor_evolves _ _ _ _

theorem stop_evolves (poll : Duration) (name : Text) (timeout : Option Rat) :
    Obeys Evolves (stop poll name timeout) :=
  (log_evolves .debug .services nofun _).bind fun _ =>
    (control_evolves _ _).bind fun _ => waitFor_evolves _ _ _ _

end Service

namespace Metadata

theorem probe_obeys {R : World → World → Prop} [IsPreorder World R]
    (hl : ∀ t, Obeys R (log .debug .versions t)) (path : Text) : Obeys R (probe path) := by
  refine (readFile_obeys path).bind fun content => ?_
  split
  · exact obeys_pure _
  · split
    · exact obeys_pure _
    · exact (hl _).bind fun _ => obeys_pure _

theorem readMarked_evolves (path : Text) : Obeys Evolves (readMarked path) := by
  refine (readFile_obeys path).bind fun content => ?_
  split
  · exact obeys_pure _
  · exact obeys_throw _

theorem pass_evolves (source target : Text) : Obeys Evolves (pass source target) := by
  refine obeys_get.bind fun w => ?_
  dsimp only
  have h : Obeys Evolves (do
      let sourceText ← readMarked (Path.join source projectFile)
      let targetText ← readMarked (Path.join target projectFile)
      writeFile (Path.join target projectFile) (Utf8.encode (passText sourceText targetText))
      pure (firstVersion assemblyVersionAt sourceText, firstVersion fileVersionAt sourceText)) := by
    refine (readMarked_evolves _).bind fun _ => (readMarked_evolves _).bind fun _ => ?_
    exact (writeFile_sameButTree _ _).evolves.bind fun _ => obeys_pure _
  split
  · refine (obeys_throw _).bind fun _ => ?_
    split
    · exact (obeys_throw _).bind fun _ => h
    · exact h
  · split
    · exact (obeys_throw _).bind fun _ => h
    · exact h

end Metadata

theorem Builtin.installedVersion_obeys {R : World → World → Prop} [IsPreorder World R]
    (hl : ∀ t, Obeys R (log .debug .versions t)) (settings : Settings) (path : Text) :
    Obeys R (Builtin.installedVersion settings path) := by
  unfold Builtin.installedVersion
  split
  · refine (Metadata.probe_obeys hl path).bind fun found => ?_
    dsimp only
    split
    · exact obeys_pure _
    · exact obeys_pure _
  · refine (obeys_pure _).bind fun found => ?_
    dsimp only
    split
    · exact obeys_pure _
    · exact obeys_pure _

theorem Builtin.installedVersion_evolves (settings : Settings) (path : Text) :
    Obeys Evolves (Builtin.installedVersion settings path) :=
  installedVersion_obeys (log_evolves .debug .versions nofun) settings path

end Rollout
