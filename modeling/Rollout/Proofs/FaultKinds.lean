import Rollout.Proofs.Lockstep
import Rollout.Proofs.FileSystem.Access

namespace Rollout

open Text Script

/-- The fault is an answer of the system: something is not there, or not allowed. -/
def Fault.isRefusal : Fault → Bool
  | .refused .. | .lostDirectory | .missingMetadata _ | .killDenied .. | .missingResource .. => true
  | _ => false

def Fault.isInternal : Fault → Bool
  | .script _ | .serviceOperation .. | .nestedTooDeep => true
  | _ => false

def Internal (e : Fault) : Prop := e.isInternal = true

/-- If the fault is a refusal, what is refused is an operation on a path. -/
def OfPath (e : Fault) : Prop := e.isRefusal = true → ∃ reason path, e = .refused reason path

theorem ofPath_refused (reason : Refusal) (path : Text) : OfPath (.refused reason path) :=
  fun _ => ⟨reason, path, rfl⟩

theorem Throws.tryCatch {σ α : Type} {P Q : Fault → Prop} {a : Action σ α}
    {f : Fault → Action σ α} (ha : Throws P a) (hf : ∀ e, P e → Throws Q (f e)) :
    Throws Q (tryCatch a f) := by
  intro s e s' h
  cases has : a s with
  | ok x s₁ =>
    rw [tryCatch_of_ok has] at h
    cases h
  | error e₁ s₁ =>
    rw [tryCatch_of_error has] at h
    exact hf e₁ (ha s e₁ s₁ has) s₁ e s' h

theorem throws_modify {σ : Type} {P : Fault → Prop} (f : σ → σ) :
    Throws P (modify f : Action σ Unit) := nofun

theorem throws_set {σ : Type} {P : Fault → Prop} (s : σ) : Throws P (set s : Action σ Unit) := nofun

theorem record_throws {P : Fault → Prop} (e : Entry) : Throws P (record e) := throws_modify _

theorem log_throws {P : Fault → Prop} (level : Level) (channel : Channel) (t : Text) :
    Throws P (log level channel t) := record_throws _

theorem onWorld_throws {α : Type} {P : Fault → Prop} {a : Action World α} (h : Throws P a) :
    Throws P (onWorld a) := by
  intro s e s' hs
  obtain ⟨w, hw, -⟩ := onWorld_eq_error hs
  exact h _ _ _ hw

structure AdmitsFiles (P : Fault → Prop) : Prop where
  refused : ∀ reason path, P (.refused reason path)
  nullByte : P .nullByte
  badLevel : P .badLevel
  badLength : P .badLength
  invalidArchive : ∀ detail, P (.invalidArchive detail)

theorem ofPath_admitsFiles : AdmitsFiles OfPath :=
  ⟨ofPath_refused, nofun, nofun, nofun, fun _ => nofun⟩

variable {P : Fault → Prop}

theorem guardPath_throws (hP : AdmitsFiles P) (path : Text) : Throws P (guardPath path) := by
  intro w e w' h
  rw [guardPath_eq] at h
  split_ifs at h <;> cases h
  · exact hP.refused _ _
  · exact hP.nullByte

theorem readFile_throws (hP : AdmitsFiles P) (path : Text) : Throws P (readFile path) := by
  refine (guardPath_throws hP path).bind fun _ => throws_get.bind fun w => ?_
  split
  · exact throws_pure _
  · exact throws_throw (hP.refused _ _)

theorem writeFile_throws (hP : AdmitsFiles P) (path : Text) (content : Bytes) :
    Throws P (writeFile path content) := by
  refine (guardPath_throws hP path).bind fun _ => throws_get.bind fun w => ?_
  split
  · exact throws_set _
  · exact throws_throw (hP.refused _ _)

theorem removePath_throws (hP : AdmitsFiles P) (path : Text) : Throws P (removePath path) := by
  refine (guardPath_throws hP path).bind fun _ => throws_get.bind fun w =>
    (throws_set _).bind fun _ => ?_
  split
  · exact throws_pure _
  · exact throws_throw (hP.refused _ _)

theorem makeDirectory_throws (hP : AdmitsFiles P) (path : Text) : Throws P (makeDirectory path) := by
  intro w e w' h
  rw [makeDirectory_eq] at h
  split_ifs at h
  · cases h
    exact hP.nullByte
  · cases hmake : w.tree.makeDirectory w.current path with
    | ok tree => simp [hmake] at h
    | error r =>
      rw [hmake] at h
      cases h
      exact hP.refused _ _

theorem settleDirectory_throws (hP : AdmitsFiles P) (path : Text) :
    Throws P (settleDirectory path) := by
  refine (makeDirectory_throws hP path).tryCatch fun e he => ?_
  cases e with
  | refused reason path =>
    refine throws_get.bind fun w => ?_
    split
    · exact throws_pure _
    · exact throws_throw he
  | _ => exact throws_throw he

theorem makeDirectoriesWithin_throws (hP : AdmitsFiles P) (depth : Nat) (path : Text) :
    Throws P (makeDirectoriesWithin depth path) := by
  induction depth generalizing path with
  | zero => exact settleDirectory_throws hP path
  | succ depth ih =>
    refine throws_get.bind fun w => ?_
    dsimp only
    split
    · refine Throws.bind ?_ fun _ => ?_
      · refine (ih _).tryCatch fun e he => ?_
        split
        · exact throws_pure _
        · exact throws_throw he
      · split
        · exact throws_pure _
        · exact settleDirectory_throws hP path
    · exact settleDirectory_throws hP path

theorem makeDirectories_throws (hP : AdmitsFiles P) (path : Text) :
    Throws P (makeDirectories path) := by
  intro w e w' h
  rw [makeDirectories_eq] at h
  split_ifs at h
  · cases h
    exact hP.refused _ _
  · exact makeDirectoriesWithin_throws hP _ _ _ _ _ h

def IsCorrupt (e : Fault) : Prop := ∃ detail, e = .invalidArchive detail

theorem Inflater.fill_error {wanted pieces : Nat} {i : Inflater} {e : Fault}
    (h : i.fill wanted pieces = .error e) : IsCorrupt e := by
  fun_induction fill wanted pieces i with
  | case1 => cases h
  | case2 => cases h
  | case3 => cases h
  | case4 =>
    cases h
    exact ⟨_, rfl⟩
  | case5 _ _ _ _ _ _ _ _ _ ih => exact ih h

theorem Inflater.read_error {size : Nat} {i : Inflater} {e : Fault} (h : i.read size = .error e) :
    IsCorrupt e := by
  unfold read at h
  split at h
  · next hfill =>
    cases h
    exact fill_error hfill
  · cases h

theorem Reader.read_error {size : Nat} {r : Reader} {e : Fault} (h : r.read size = .error e) :
    IsCorrupt e := by
  unfold read at h
  split at h
  · cases h
  · split at h
    · next hread =>
      cases h
      exact Inflater.read_error hread
    · cases h

theorem Reader.collect_error {size fuel : Nat} {before : Bytes} {r : Reader} {e : Fault}
    (h : r.collect size fuel before = .error e) : IsCorrupt e := by
  fun_induction collect size fuel before r with
  | case1 => cases h
  | case2 => cases h
  | case3 size fuel before r e' hread =>
    cases h
    exact read_error hread
  | case4 => cases h
  | case5 _ _ _ _ _ _ _ _ ih => exact ih h

theorem Reader.readExact_error {size : Int} {r : Reader} {e : Fault}
    (h : r.readExact size = .error e) : IsCorrupt e := by
  unfold readExact at h
  split at h
  · cases h
    exact ⟨_, rfl⟩
  · exact collect_error h

theorem Scan.next_wrong {r : Reader} {e : Fault} (h : next r = .error (.wrong e)) : IsCorrupt e := by
  unfold next at h
  repeat' split at h
  all_goals cases h
  all_goals first | exact ⟨_, rfl⟩ | exact Reader.readExact_error ‹_›

theorem Scan.ofStream_wrong {codec : Codec} {stream : Stream} {e : Fault}
    (h : (ofStream codec stream).ending = .wrong e) : IsCorrupt e := by
  unfold ofStream at h
  dsimp only at h
  generalize (Reader.ofStream codec stream).bound + 1 = fuel at h
  generalize Reader.ofStream codec stream = r at h
  generalize [] = before at h
  fun_induction fromReader fuel before r with
  | case1 => cases h
  | case2 fuel before r ending hnext =>
    cases h
    exact next_wrong hnext
  | case3 fuel before r record r' hnext ih => exact ih h

/-- Every fault is of one kind, whether the action ends with it or returns it. -/
def Tells {α : Type} (P : Fault → Prop) (told : α → Option Fault) (a : Action World α) : Prop :=
  Throws P a ∧ ∀ w x w' e, a w = .ok x w' → told x = some e → P e

section

variable {α β : Type} {told : α → Option Fault} {told' : β → Option Fault}

theorem tells_pure {x : α} (h : ∀ e, told x = some e → P e) : Tells P told (pure x) := by
  refine ⟨throws_pure x, ?_⟩
  rintro w _ w' e ⟨⟩ he
  exact h e he

theorem Tells.bind {a : Action World α} {f : α → Action World β} (ha : Tells P told a)
    (hf : ∀ x, (∀ e, told x = some e → P e) → Tells P told' (f x)) : Tells P told' (a >>= f) := by
  constructor
  · intro w e w' h
    obtain h | ⟨x, w₁, hx, h⟩ := bind_eq_error.mp h
    · exact ha.1 w e w' h
    · exact (hf x fun e he => ha.2 w x w₁ e hx he).1 w₁ e w' h
  · intro w y w' e h he
    obtain ⟨x, w₁, hx, h⟩ := bind_eq_ok.mp h
    exact (hf x fun e he => ha.2 w x w₁ e hx he).2 w₁ y w' e h he

theorem Throws.tells {a : Action World α} (h : Throws P a) : Tells P (fun _ => none) a :=
  ⟨h, fun _ _ _ _ _ he => nomatch he⟩

theorem Throws.tells_attempt {a : Action World α} (h : Throws P a) :
    Tells P (fun x => match x with | .error e => some e | .ok _ => none) (attempt a) := by
  constructor
  · intro w e w' he
    unfold attempt at he
    cases hw : a w <;> simp [hw] at he
  · rintro w (e | x) w' _ hx ⟨⟩
    exact h w e w' (attempt_eq_error.mp hx)

end

namespace Archiver

theorem recordOf_throws (hP : AdmitsFiles P) (a : Archiver) (path : Text) :
    Throws P (a.recordOf path) :=
  throws_get.bind fun _ => (readFile_throws hP path).bind fun _ => throws_pure _

section

variable {σ τ : Type} {put : τ → Bytes → Action World τ} (hP : AdmitsFiles P)
  (hput : ∀ t piece, Throws P (put t piece))

include hput

theorem putPieces_throws (coder : Coder σ) (s : σ) (t : τ) (pieces : List Bytes) :
    Throws P (putPieces coder put s t pieces) := by
  induction pieces generalizing s t with
  | nil => exact throws_pure _
  | cons piece rest ih => exact (hput t _).bind fun _ => ih _ _

include hP

theorem putFiles_tells (coder : Coder σ) (a : Archiver) (s : σ) (t : τ) (files : List Text) :
    Tells P (fun x => x.2.2) (a.putFiles coder put s t files) := by
  induction files generalizing s t with
  | nil => exact tells_pure nofun
  | cons path rest ih =>
    refine (recordOf_throws hP a path).tells_attempt.bind fun read hread => ?_
    cases read with
    | error e =>
      refine tells_pure ?_
      rintro _ ⟨⟩
      exact hread e rfl
    | ok record =>
      refine (putPieces_throws hput coder s t _).tells.bind fun _ _ => ?_
      cases hfault : record.pieces.2 with
      | some e =>
        refine tells_pure ?_
        rintro _ ⟨⟩
        rw [Record.fault_of_pieces hfault]
        exact hP.badLength
      | none => exact ih _ _

theorem writeThrough_tells (coder : Coder σ) (a : Archiver) (t : τ) (files : List Text) :
    Tells P Prod.snd (a.writeThrough coder put t files) :=
  (putFiles_tells hP hput coder a coder.start t files).bind fun _ hfault =>
    (hput _ _).tells.bind fun _ _ => tells_pure hfault

theorem writeTo_tells (a : Archiver) (t : τ) (files : List Text) :
    Tells P Prod.snd (a.writeTo put t files) := by
  unfold writeTo
  cases a.codec with
  | plain => exact writeThrough_tells hP hput .plain a t files
  | deflate =>
    dsimp only
    split
    · exact writeThrough_tells hP hput .deflate a t files
    · refine tells_pure ?_
      rintro _ ⟨⟩
      exact hP.badLevel

end

theorem create_throws (hP : AdmitsFiles P) (a : Archiver) (target : Text) (files : List Text) :
    Throws P (a.create target files) := by
  have hput (b : Buffered) (piece : Bytes) : Throws P (putFile target b piece) :=
    throws_get.bind fun _ => (writeFile_throws hP target _).bind fun _ => throws_pure _
  have hcreate : Tells P (fun _ => none) (a.create target files) := by
    refine (writeFile_throws hP target []).tells.bind fun _ _ =>
      (writeTo_tells hP hput a {} files).bind fun x hfault =>
      (writeFile_throws hP target x.1.content).tells.bind fun _ _ => ?_
    split
    · exact tells_pure nofun
    · next e he => exact (throws_throw (hfault e he)).tells
  exact hcreate.1

theorem extractRecord_throws (hP : AdmitsFiles P) (directory : Text) (r : Record) :
    Throws P (extractRecord directory r) := by
  unfold extractRecord
  dsimp only
  split
  · exact (makeDirectories_throws hP _).bind fun _ => (writeFile_throws hP _ _).bind fun _ =>
      log_throws _ _ _
  · exact (writeFile_throws hP _ _).bind fun _ => log_throws _ _ _

theorem extract_throws (hP : AdmitsFiles P) (a : Archiver) (stream : Stream) (directory : Text) :
    Throws P (a.extract stream directory) := by
  have hrecords (rs : List Record) : Throws P (extractRecords directory rs) := by
    induction rs with
    | nil => exact throws_pure _
    | cons r rest ih => exact (extractRecord_throws hP directory r).bind fun _ => ih
  refine (hrecords _).bind fun _ => ?_
  cases hending : (Scan.ofStream a.codec stream).ending with
  | clean => exact throws_pure _
  | truncated => exact log_throws _ _ _
  | wrong e =>
    obtain ⟨detail, rfl⟩ := Scan.ofStream_wrong hending
    exact throws_throw (hP.invalidArchive detail)

end Archiver

theorem throw_located_throws {α : Type} (cause : Cause) :
    Throws Internal (do throw (← located cause) : Action Session α) := by
  rintro s e s' ⟨⟩
  rfl

namespace Service

theorem control_throws (verb name : Text) :
    Throws Internal (control verb name) := by
  refine (record_throws _).bind fun _ => throws_get.bind fun w => ?_
  split
  · exact throws_throw rfl
  · refine (throws_set _).bind fun _ => ?_
    split
    · exact throws_pure _
    · exact throws_throw rfl

theorem awaitState_throws (poll : Duration) (name wanted : Text)
    (deadline : Option Rat) (queries : Nat) :
    Throws Internal (awaitState poll name wanted deadline queries) := by
  induction queries with
  | zero => exact throws_throw rfl
  | succ queries ih =>
    refine ((control_throws _ _).bind fun _ => throws_pure _).bind fun found => ?_
    split
    · exact throws_pure _
    · refine throws_get.bind fun w => ?_
      dsimp only
      split_ifs
      · exact throws_throw rfl
      · exact ((record_throws _).bind fun _ => throws_modify _).bind fun _ => ih

theorem start_throws (poll : Duration) (name : Text)
    (timeout : Option Rat) : Throws Internal (start poll name timeout) :=
  (log_throws _ _ _).bind fun _ => (control_throws _ _).bind fun _ =>
    throws_get.bind fun _ => awaitState_throws _ _ _ _ _

theorem stop_throws (poll : Duration) (name : Text)
    (timeout : Option Rat) : Throws Internal (stop poll name timeout) :=
  (log_throws _ _ _).bind fun _ => (control_throws _ _).bind fun _ =>
    throws_get.bind fun _ => awaitState_throws _ _ _ _ _

end Service

end Rollout
