import Rollout.Proofs.Endings
import Rollout.Proofs.Exchange
import Rollout.Proofs.FaultKinds
import Rollout.Proofs.Resource
import Rollout.Proofs.Substitution

namespace Rollout

open Text Script Interpreter

section

variable {settings : Settings} {e : Fault} {w : World}

def World.start (w : World) (path arguments : Text) (directory : Option Text)
    (timeout : Option Int) : Start :=
  { call := callOf w.host.platform path arguments
    directory
    timeout
    current := w.current
    tree := w.tree }

theorem launch_error {path arguments : Text} {directory : Option Text} {captured : Bool}
    {timeout : Option Int} {w' : World}
    (h : launch path arguments directory captured timeout w = .error e w') :
    e = .nullByte ∨ (∃ limit, e = .script { cause := .processTimeout path limit }) ∨
      ∃ reason refused, e = .refused reason refused ∧
        w.programs (w.start path arguments directory timeout) = .refused reason refused := by
  unfold launch at h
  rw [get_bind] at h
  refine (Throws.bind (log_throws _ _ _) fun _ => (record_throws _).bind fun _ => ?_ :
    Throws (fun e => e = .nullByte ∨ (∃ limit, e = .script { cause := .processTimeout path limit }) ∨
      ∃ reason refused, e = .refused reason refused ∧
        w.programs (w.start path arguments directory timeout) = .refused reason refused) _) _ _ _ h
  rw [World.start]
  split
  · next reason refused hrefused => exact throws_throw (.inr (.inr ⟨_, _, rfl, hrefused⟩))
  · exact throws_throw (.inl rfl)
  · next exited _ =>
    refine (throws_modify _).bind fun _ => ?_
    have hrest {P : Fault → Prop} (o : Outcome) : Throws P (pure o : Action World Outcome) :=
      throws_pure _
    dsimp only
    split
    · split
      · exact (throws_throw (.inr (.inl ⟨_, rfl⟩))).bind fun _ => hrest _
      · exact hrest _
    · exact hrest _

theorem StandsFor.agrees {vs : Variables} {name : Text} {r : Except Fault (Option Text)}
    {w w' : World} (h : StandsFor vs Derived.lookup name w r w') : Derived.Agrees w w' := by
  cases h with
  | derived free unstored known computed =>
    obtain ⟨d, -, rfl⟩ := Option.map_eq_some_iff.mp known
    exact (Derived.value_eq_ok computed).2.2
  | broken free unstored known failed =>
    obtain ⟨d, -, rfl⟩ := Option.map_eq_some_iff.mp known
    obtain ⟨-, -, rfl⟩ := Derived.value_eq_error failed
    exact .refl _
  | _ => exact .refl _

theorem Substitutes.agrees {vs : Variables} {ps : List (Piece Char Text)} {t : Text} {w w' : World}
    (h : Substitutes vs Derived.lookup ps w t w') : Derived.Agrees w w' := by
  induction h with
  | nil => exact .refl _
  | plain _ ih => exact ih
  | found value _ ih => exact value.agrees.trans ih

theorem Derived.ofName?_eq_some {name : Text} {d : Derived} :
    ofName? name = some d ↔ name = d.name := by
  constructor
  · intro h
    exact (by simpa using List.find?_some h : d.name = name).symm
  · rintro rfl
    cases d <;> rfl

/-- A derived value of which a text has the macro, and which needs the directory that is lost. All
macros before it have values. -/
def Stranded (vs : Variables) (text : Text) (w : World) : Prop :=
  ∃ before d after t w', pieces text = before ++ .found (Derived.name d) :: after ∧
    Substitutes vs Derived.lookup before w t w' ∧ d.fails w = true

theorem resolve_error {vs : Variables} {text : Text} {w' : World}
    (h : resolve vs Derived.lookup text w = .error e w') :
    (∃ name, e = unresolved name) ∨ e = .lostDirectory ∧ Stranded vs text w := by
  obtain ⟨before, name, after, t, w₁, hpieces, hbefore, hname⟩ := substitute_eq_error.mp h
  obtain ⟨-, rfl⟩ | hbroken := valueOf_eq_error.mp hname
  · exact .inl ⟨name, rfl⟩
  · cases hbroken with
    | broken free unstored known failed =>
      obtain ⟨d, hd, rfl⟩ := Option.map_eq_some_iff.mp known
      obtain ⟨hfails, rfl, -⟩ := Derived.value_eq_error failed
      rw [Derived.ofName?_eq_some.mp hd] at hpieces
      refine .inr ⟨rfl, before, d, after, t, w₁, hpieces, hbefore, ?_⟩
      rw [← hbefore.agrees.2.2, hfails]

theorem Stranded.resolve {vs : Variables} {text : Text} (h : Stranded vs text w) :
    ∃ w', resolve vs Derived.lookup text w = .error .lostDirectory w' := by
  obtain ⟨before, d, after, t, w₁, hpieces, hbefore, hfails⟩ := h
  refine ⟨w₁, substitute_eq_error.mpr ⟨before, d.name, after, t, w₁, hpieces, hbefore, ?_⟩⟩
  refine valueOf_eq_error.mpr (.inr (.broken ?_ ?_ (Option.map_eq_some_iff.mpr
    ⟨d, Derived.ofName?_eq_some.mpr rfl, rfl⟩) (Derived.value_of_fails ?_)))
  · rw [← isReserved_iff]
    cases d <;> decide
  · rw [← ofName?_eq_none]
    cases d <;> rfl
  · rw [hbefore.agrees.2.2, hfails]

theorem packing_throws {P : Fault → Prop} (hP : AdmitsFiles P) (source target text : Text) :
    Throws P (Builtin.packing source target text) :=
  (makeDirectories_throws hP _).bind fun _ => throws_get.bind fun _ =>
    Archiver.create_throws hP _ _ _

theorem killByPath_denied (path : Text) :
    Throws (fun e => ∃ name pid, e = .killDenied name pid) (killByPath path) := by
  refine throws_get.bind fun w => ?_
  split
  · exact throws_pure _
  · next before p after _ =>
    have hkill (e : Entry) (level : Level) (t : Text) {P : Fault → Prop} : Throws P (do
        set { w with processes := before ++ after }
        record e
        log level .processes t
        pure true : Action World Bool) :=
      (throws_set _).bind fun _ => (record_throws _).bind fun _ => (log_throws _ _ _).bind fun _ =>
        throws_pure _
    dsimp only
    split
    · exact (throws_throw ⟨_, _, rfl⟩).bind fun _ => hkill _ _ _
    · exact hkill _ _ _

theorem readMarked_eq_ok {path t : Text} {w' : World} :
    Metadata.readMarked path w = .ok t w' ↔
      w' = w ∧ ∃ content, readFile path w = .ok content w ∧ Utf8.decodeMarked content = .ok t := by
  constructor
  · intro h
    obtain ⟨content, w₁, hread, hdecode⟩ := bind_eq_ok.1 h
    obtain ⟨-, -, -, rfl⟩ := readFile_eq_ok.mp hread
    cases hd : Utf8.decodeMarked content with
    | ok t' =>
      rw [hd] at hdecode
      cases hdecode
      exact ⟨rfl, content, hread, hd⟩
    | error e₁ =>
      rw [hd] at hdecode
      cases hdecode
  · rintro ⟨rfl, content, hread, hd⟩
    refine (bind_of_ok hread).trans ?_
    rw [hd]
    rfl

/-- A file that can be read can be replaced. -/
theorem writeFile_of_readFile {path : Text} {content : Bytes}
    (h : readFile path w = .ok content w) (hp : endsWith path ['/'] = false) (new : Bytes) :
    writeFile path new w =
      .ok () { w with tree := w.tree.insert (spot w.current path) (.file new) } := by
  obtain ⟨hdenied, hnull, hread, -⟩ := readFile_eq_ok.mp h
  have hfind : w.tree.find w.current path = .ok (.file content) := by
    unfold Tree.read at hread
    split at hread
    · cases hread
    · cases hread
    · next found =>
      cases hread
      exact found
  obtain ⟨hne, hwalk, hget⟩ := Tree.find_eq_ok.mp hfind
  rw [writeFile_eq, if_neg (by simp [hdenied]), if_neg (by simpa using hnull), Tree.write,
    if_neg (by simpa using hne), if_neg (by simp [hp]), hwalk]
  dsimp only
  rw [if_neg (by simp [Tree.isDirectory, hget])]

theorem pass_eq {source target : Text}
    (hs : w.isFile (Path.join source Metadata.projectFile) = true)
    (ht : w.isFile (Path.join target Metadata.projectFile) = true) :
    Metadata.pass source target w = (do
      let sourceText ← Metadata.readMarked (Path.join source Metadata.projectFile)
      let targetText ← Metadata.readMarked (Path.join target Metadata.projectFile)
      writeFile (Path.join target Metadata.projectFile)
        (Utf8.encode (Metadata.passText sourceText targetText))
      pure (Metadata.firstVersion Metadata.assemblyVersionAt sourceText,
        Metadata.firstVersion Metadata.fileVersionAt sourceText) : Action World (Text × Text)) w := by
  rw [Metadata.pass, get_bind, hs, ht]
  rfl

theorem probe_error_iff {path : Text} :
    (∃ w', Metadata.probe path w = .error e w') ↔ ∃ w', readFile path w = .error e w' := by
  refine ⟨fun ⟨w', h⟩ => ?_, fun ⟨w', h⟩ => ⟨w', bind_of_error h⟩⟩
  cases hread : readFile path w with
  | error e₁ w₁ =>
    cases (bind_of_error hread).symm.trans h
    exact ⟨w', rfl⟩
  | ok content w₁ =>
    refine ((?_ : Throws (fun _ => False) _) _ _ _ ((bind_of_ok hread).symm.trans h)).elim
    split
    · exact throws_pure _
    · split
      · exact throws_pure _
      · exact (log_throws _ _ _).bind fun _ => throws_pure _

theorem installedVersion_error_iff {path : Text} :
    (∃ w', Builtin.installedVersion settings path w = .error e w') ↔
      settings.probe = .declared ∧ ∃ w', readFile path w = .error e w' := by
  unfold Builtin.installedVersion
  cases settings.probe with
  | table versions =>
    refine ⟨fun ⟨w', h⟩ => ?_, fun ⟨h, _⟩ => by cases h⟩
    refine ((?_ : Throws (fun _ => False) _) _ _ _ h).elim
    refine (throws_pure _).bind fun found => ?_
    dsimp only
    split <;> exact throws_pure _
  | declared =>
    rw [← probe_error_iff]
    constructor
    · rintro ⟨w', h⟩
      cases hprobe : Metadata.probe path w with
      | error e₁ w₁ =>
        cases (bind_of_error hprobe).symm.trans h
        exact ⟨rfl, w', rfl⟩
      | ok found w₁ =>
        refine ((?_ : Throws (fun _ => False) _) _ _ _ ((bind_of_ok hprobe).symm.trans h)).elim
        dsimp only
        split <;> exact throws_pure _
    · rintro ⟨-, w', h⟩
      exact ⟨w', bind_of_error h⟩

end

/-- What a run asks of the system. Paths that are deleted and programs that are killed may have more
of them to come. -/
inductive Request
  | script (name : Text)
  | listing (name : Text)
  | packing (source target text : Text)
  | archive (name : Text)
  | extracting (data : Bytes) (target : Text)
  | deleting (flag : Flag) (path : Text) (rest : List Text)
  | killing (path : Text) (rest : List Text)
  | passing (source target : Text)
  | probing (path : Text)
  | starting (path arguments : Text)
  | resolving (text : Text)
  deriving DecidableEq, Repr

namespace Request

def Meets (settings : Settings) (s : Session) (e : Fault) (w : World) : Request → Prop
  | script name | listing name => settings.resources.readText name s.world = .error e w
  | packing source target text => Builtin.packing source target text s.world = .error e w
  | archive name => settings.resources.read name s.world = .error e w
  | extracting data target =>
    Archiver.extract { codec := .deflate } (Stream.ofBytes portion data) target s.world = .error e w
  | deleting _ path _ => removePath path s.world = .error e w
  | killing path _ => killByPath path s.world = .error e w
  | passing source target => Metadata.pass source target s.world = .error e w
  | probing path =>
    s.world.isFile path = true ∧ Builtin.installedVersion settings path s.world = .error e w
  | starting path arguments =>
    launch (unquote path) arguments (some settings.directory) s.store.redirectOutput
      (some s.store.processTimeout) s.world = .error e w
  | resolving text => resolve s.store Derived.lookup text s.world = .error e w

def flag? : Request → Fault → Option Flag
  | script _, .missingResource .. => some .fileNotFound
  | listing _, .missingResource .. => some .fileNotFound
  | packing .., .refused .noSuchFile _ => some .fileNotFound
  | packing .., .refused .. => some .fileAccessDenied
  | archive _, .missingResource .. => some .fileNotFound
  | extracting .., .refused .. => some .fileAccessDenied
  | deleting flag .., .refused .. => some flag
  | killing .., .killDenied .. => some .fileAccessDenied
  | passing .., .missingMetadata _ => some .fileNotFound
  | passing .., .refused .noSuchFile _ => some .fileNotFound
  | starting .., .refused .noSuchFile _ => some .fileNotFound
  | starting .., .refused .denied _ => some .fileAccessDenied
  | _, _ => none

def message (e : Fault) : Request → Text
  | starting path _ => "Cannot start '".toList ++ path ++ "': ".toList ++ e.message
  | _ => e.message

def after (settings : Settings) : Request → Action Session Flow
  | deleting _ _ rest => Builtin.delete settings rest
  | killing _ rest => Builtin.kill rest
  | _ => pure .next

def answered (settings : Settings) (e : Fault) (q : Request) : Action Session Flow :=
  match q.flag? e with
  | some flag => unlessExit (fail flag (some (q.message e)) none) (q.after settings)
  | none => throw e

def Fails (settings : Settings) (s : Session) (e : Fault) (q : Request) : Prop :=
  q.flag? e = none ∧ ∃ w, q.Meets settings s e w

/-- The request meets a refusal that is let out. -/
def Exposed (settings : Settings) (s : Session) (e : Fault) : Request → Prop
  | script name | listing name | archive name =>
    ∃ reason path, settings.resources.Withheld s.world name reason path ∧ e = .refused reason path
  | passing source target =>
    let sourceFile := Path.join source Metadata.projectFile
    let targetFile := Path.join target Metadata.projectFile
    s.world.isFile sourceFile = true ∧ s.world.isFile targetFile = true ∧
      (s.world.isDenied sourceFile = true ∧ e = .refused .denied sourceFile ∨
        (∃ t, Metadata.readMarked sourceFile s.world = .ok t s.world) ∧
          s.world.isDenied targetFile = true ∧ e = .refused .denied targetFile)
  | probing path =>
    settings.probe = .declared ∧ s.world.isFile path = true ∧ s.world.isDenied path = true ∧
      e = .refused .denied path
  | starting path arguments =>
    ∃ reason refused,
      s.world.programs (s.world.start (unquote path) arguments (some settings.directory)
        (some s.store.processTimeout)) = .refused reason refused ∧
      reason ≠ .noSuchFile ∧ reason ≠ .denied ∧ e = .refused reason refused
  | resolving text => e = .lostDirectory ∧ Stranded s.store text s.world
  | _ => False

end Request

end Rollout
