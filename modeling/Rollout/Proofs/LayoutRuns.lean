import Rollout.Proofs.Layout
import Rollout.Proofs.Provision

namespace Rollout.Layout

open Text Script Interpreter

inductive SameMessage (L : Text → Text → Prop) : Option Text → Option Text → Prop
  | refl (m : Option Text) : SameMessage L m m
  | error (cause : Cause) (script : Option Text) {line line' : Option Text}
      (lines : Option.Rel L line line') :
      SameMessage L (some (ScriptError.message ⟨cause, line, script⟩))
        (some (ScriptError.message ⟨cause, line', script⟩))

structure SameReport (L : Text → Text → Prop) (d d' : Diagnostics) : Prop where
  script : d'.script = d.script
  line : Option.Rel L d.line d'.line
  status : d'.status = d.status
  message : SameMessage L d.message d'.message
  exitCode : d'.exitCode = d.exitCode

/-- Two entries of the journal that differ in the line that they show. -/
inductive SameEntry (L : Text → Text → Prop) : Entry → Entry → Prop
  | refl (e : Entry) : SameEntry L e e
  | began (script : Text) {line line' : Text} (lines : L line line') :
      SameEntry L (.log .debug .interpreter (script ++ ": ".toList ++ line))
        (.log .debug .interpreter (script ++ ": ".toList ++ line'))
  | ignored {s t : Session} (flag : Flag) (script : t.script = s.script)
      (lines : Option.Rel L s.line t.line) : SameEntry L (s.warning flag) (t.warning flag)
  | failed {d d' : Diagnostics} (report : SameReport L d d') :
      SameEntry L (.log .error .interpreter ("Script failed: ".toList ++ d.describe))
        (.log .error .interpreter ("Script failed: ".toList ++ d'.describe))
  | failure {d d' : Diagnostics} (report : SameReport L d d') :
      SameEntry L (.failure d) (.failure d')

inductive SameFault (L : Text → Text → Prop) : Fault → Fault → Prop
  | refl (e : Fault) : SameFault L e e
  | error (cause : Cause) (script : Option Text) {line line' : Option Text}
      (lines : Option.Rel L line line') :
      SameFault L (.script ⟨cause, line, script⟩) (.script ⟨cause, line', script⟩)

/-- Two sessions that differ in the lines that they show. How deep scripts are nested is compared
apart from this. -/
structure Alike (L : Text → Text → Prop) (s t : Session) : Prop where
  store : t.store = s.store
  status : t.status = s.status
  failed : t.failed = s.failed
  script : t.script = s.script
  line : Option.Rel L s.line t.line
  diagnostics : Option.Rel (SameReport L) s.diagnostics t.diagnostics
  world : t.world = { s.world with journal := t.world.journal }
  journal : List.Forall₂ (SameEntry L) s.world.journal t.world.journal

inductive SameEnd (L : Text → Text → Prop) :
    EStateM.Result Fault Session Bool → EStateM.Result Fault Session Bool → Prop
  | ok {result : Bool} {s t : Session} (alike : Alike L s t) (depth : t.depth = s.depth) :
      SameEnd L (.ok result s) (.ok result t)
  | error {e : Fault} {s t : Session} (alike : Alike L s t) (depth : t.depth = s.depth) :
      SameEnd L (.error e s) (.error e t)

section

variable {L : Text → Text → Prop} {s t : Session}

theorem sameEntries_refl (es : Journal) : List.Forall₂ (SameEntry L) es es :=
  List.forall₂_same.mpr fun e _ => .refl e

theorem rel_refl {α : Type} {S : α → α → Prop} (refl : ∀ x, S x x) (o : Option α) :
    Option.Rel S o o := by
  cases o with
  | none => exact .none
  | some x => exact .some (refl x)

theorem Alike.refl (refl : ∀ line, L line line) (s : Session) : Alike L s s where
  store := rfl
  status := rfl
  failed := rfl
  script := rfl
  line := rel_refl refl _
  diagnostics := rel_refl (fun _ => ⟨rfl, rel_refl refl _, rfl, .refl _, rfl⟩) _
  world := rfl
  journal := sameEntries_refl _

theorem Alike.world_with (h : Alike L s t) (j : Journal) :
    { t.world with journal := j } = { s.world with journal := j } :=
  congrArg (fun w : World => { w with journal := j }) h.world

theorem Alike.begin (h : Alike L s t) (script : Text) {line line' : Text} (hline : L line line') :
    Alike L (s.begin ⟨script, line⟩) (t.begin ⟨script, line'⟩) where
  store := h.store
  status := h.status
  failed := h.failed
  script := rfl
  line := .some hline
  diagnostics := h.diagnostics
  world := h.world_with _
  journal := List.rel_append h.journal (.cons (.began script hline) .nil)

theorem Alike.endedBy (h : Alike L s t) {d d' : Diagnostics} (hd : SameReport L d d') :
    Alike L (s.endedBy d) (t.endedBy d') where
  store := h.store
  status := hd.status
  failed := rfl
  script := h.script
  line := h.line
  diagnostics := .some hd
  world := h.world_with _
  journal := List.rel_append h.journal (.cons (.failed hd) (.cons (.failure hd) .nil))

theorem Alike.fail (h : Alike L s t) (flag : Flag) (message : Option Text) (exitCode : Option Int) :
    ∃ flow s' t', Rollout.fail flag message exitCode s = .ok flow s' ∧
      Rollout.fail flag message exitCode t = .ok flow t' ∧ Alike L s' t' := by
  have hstatus : t.status.add flag = s.status.add flag := by rw [h.status]
  cases hs : s.store.ignoreErrors with
  | true =>
    have ht : t.store.ignoreErrors = true := by rw [h.store, hs]
    refine ⟨_, _, _, fail_of_ignoring hs flag message exitCode,
      fail_of_ignoring ht flag message exitCode, ?_⟩
    exact ⟨h.store, hstatus, h.failed, h.script, h.line, h.diagnostics, h.world_with _,
      List.rel_append h.journal (.cons (.ignored flag h.script h.line) .nil)⟩
  | false =>
    have ht : t.store.ignoreErrors = false := by rw [h.store, hs]
    refine ⟨_, _, _, fail_of_strict hs flag message exitCode,
      fail_of_strict ht flag message exitCode, ?_⟩
    exact h.endedBy ⟨h.script, h.line, hstatus, .refl _, rfl⟩

theorem alike_steady (refl : ∀ line, L line line) : Steady (Alike L) (SameFault L) where
  alike_refl := .refl
  alike_located {s t} h cause := by
    rw [h.script]
    exact .error cause s.script h.line
  world {s t} h := by
    refine ⟨t.world.journal, h.world, fun w es => ?_⟩
    exact ⟨h.store, h.status, h.failed, h.script, h.line, h.diagnostics, rfl,
      List.rel_append h.journal (sameEntries_refl es)⟩
  place h _ _ :=
    ⟨h.store, h.status, h.failed, rfl, rel_refl refl _, h.diagnostics, h.world, h.journal⟩
  depth h _ _ :=
    ⟨h.store, h.status, h.failed, h.script, h.line, h.diagnostics, h.world, h.journal⟩
  store h := h.store
  update h _ :=
    ⟨rfl, h.status, h.failed, h.script, h.line, h.diagnostics, h.world, h.journal⟩
  fail h := h.fail

/-- Runs that differ in the lines that they show. -/
def relining (L : Text → Text → Prop) (refl : ∀ line, L line line) : Coupling :=
  (alike_steady refl).coupling (fun _ => False) fun _ => False

theorem exchanges_relining (refl : ∀ line, L line line)
    (code : ∀ line line', L line line' → SameCode line line') :
    (relining L refl).Exchanges L where
  code h := code _ _ h
  begins h _ _ hst script := Alike.begin hst script h

theorem Alike.concluded (h : Alike L s t) (hd : t.depth = s.depth) :
    Alike L s.concluded t.concluded := by
  unfold Session.concluded
  rw [hd, h.failed, h.status]
  split
  · exact ⟨h.store, h.status, h.failed, h.script, h.line, h.diagnostics, h.world_with _,
      List.rel_append h.journal (sameEntries_refl _)⟩
  · exact h

theorem Alike.errorReport (h : Alike L s t) (cause : Cause) (script : Option Text)
    {line line' : Option Text} (lines : Option.Rel L line line') :
    SameReport L (s.errorReport ⟨cause, line, script⟩) (t.errorReport ⟨cause, line', script⟩) where
  script := h.script
  line := h.line
  status := by rw [Session.errorReport, Session.errorReport, h.status]
  message := .error cause script lines
  exitCode := rfl

/-- Runs whose lines may stand for each other end in the same way. -/
theorem sameEnd_of_follows {settings settings' : Settings} {limit : Nat} {names : List Text}
    (refl : ∀ line, L line line) (code : ∀ line line', L line line' → SameCode line line')
    (h : (relining L refl).Follows L settings settings' limit names s.renewed) :
    SameEnd L (run settings limit names s) (run settings' limit names s) := by
  rw [run_eq, run_eq]
  cases limit with
  | zero => exact .error (.refl refl _) rfl
  | succ limit =>
    have hcoupled := h.coupled_scripts (exchanges_relining refl code) (.inl rfl)
      (Alike.refl refl s.renewed)
    rw [runScripts_eq, runScripts_eq]
    generalize untilExit (runNamed settings (levels settings limit)) names
      s.renewed.deepened = r at hcoupled
    generalize untilExit (runNamed settings' (levels settings' limit)) names
      s.renewed.deepened = r' at hcoupled
    cases hcoupled with
    | @ok flow s₁ t₁ step hs ht =>
      have hdepth : t₁.raised.depth = s₁.raised.depth :=
        (Session.depth_raised ht).trans (Session.depth_raised hs).symm
      have hraised : Alike L s₁.raised t₁.raised := (relining L refl).inStep_depth step _ _
      have hends := hraised.concluded hdepth
      dsimp only [surfaced]
      rw [hends.failed, hends.status]
      exact .ok hends (by rw [Session.depth_concluded, Session.depth_concluded, hdepth])
    | @error e e' s₁ t₁ alike step hs ht =>
      have hdepth : t₁.raised.depth = s₁.raised.depth :=
        (Session.depth_raised ht).trans (Session.depth_raised hs).symm
      have hraised : Alike L s₁.raised t₁.raised := (relining L refl).inStep_depth step _ _
      cases alike with
      | error cause script lines =>
        exact .ok (hraised.endedBy (hraised.errorReport cause script lines)) hdepth
      | refl e =>
        cases e with
        | script error =>
          exact .ok (hraised.endedBy (hraised.errorReport _ _ (rel_refl refl _))) hdepth
        | _ => exact .error hraised hdepth
    | parted _ apart _ _ => exact apart.elim
    | first yields => exact yields.elim
    | second yields => exact yields.elim

end

theorem eq_of_rel {α : Type} {S : α → α → Prop} (hS : ∀ x y, S x y → y = x) {o o' : Option α}
    (h : Option.Rel S o o') : o' = o := by
  cases h with
  | none => rfl
  | some h => rw [hS _ _ h]

theorem line_eq {line line' : Option Text} (h : Option.Rel Eq line line') : line' = line :=
  eq_of_rel (fun _ _ => Eq.symm) h

theorem SameMessage.eq {m m' : Option Text} (h : SameMessage Eq m m') : m' = m := by
  cases h with
  | refl => rfl
  | error cause script lines => rw [line_eq lines]

theorem SameReport.eq {d d' : Diagnostics} (h : SameReport Eq d d') : d' = d := by
  calc d' = ⟨d'.script, d'.line, d'.status, d'.message, d'.exitCode⟩ := rfl
    _ = d := by rw [h.script, line_eq h.line, h.status, h.message.eq, h.exitCode]

theorem SameEntry.eq {e e' : Entry} (h : SameEntry Eq e e') : e' = e := by
  cases h with
  | refl => rfl
  | began script lines => rw [lines]
  | ignored flag script lines => rw [Session.warning, Session.warning, script, line_eq lines]
  | failed report => rw [report.eq]
  | failure report => rw [report.eq]

theorem Alike.eq {s t : Session} (h : Alike Eq s t) (hd : t.depth = s.depth) : t = s := by
  have hdiagnostics : t.diagnostics = s.diagnostics :=
    eq_of_rel (fun _ _ => SameReport.eq) h.diagnostics
  have hjournal : t.world.journal = s.world.journal := by
    have hsame := h.journal.imp fun _ _ he => (SameEntry.eq he).symm
    rw [List.forall₂_eq_eq_eq] at hsame
    exact hsame.symm
  have hworld : t.world = s.world := by rw [h.world, hjournal]
  calc t = ⟨t.store, t.script, t.line, t.depth, t.status, t.failed, t.diagnostics, t.world⟩ := rfl
    _ = s := by
      rw [h.store, h.script, line_eq h.line, hd, h.status, h.failed, hdiagnostics, hworld]

theorem SameEnd.eq {x y : EStateM.Result Fault Session Bool} (h : SameEnd Eq x y) : y = x := by
  cases h with
  | ok alike depth => rw [alike.eq depth]
  | error alike depth => rw [alike.eq depth]

/-- The layout of scripts does not matter, as long as file lists and archives are not taken from the
texts that differ in it. Scripts that differ in blanks at the ends of lines, carriage returns before
line feeds included, and in lines that are not executed are run in the same way. When they differ in
comments after code as well, nothing differs but the text of a line where it is shown. -/
theorem run_relaid (settings : Settings) (r : Resources) (limit : Nat) (names : List Text)
    (s : Session) :
    (AnswersAlike Relaid settings r limit names s.renewed →
      run { settings with resources := r } limit names s = run settings limit names s) ∧
    (AnswersAlike Annotated settings r limit names s.renewed →
      SameEnd SameCode (run settings limit names s)
        (run { settings with resources := r } limit names s)) ∧
    ∀ before after : Text, Relaid (before ++ '\n' :: after) (before ++ '\r' :: '\n' :: after) := by
  refine ⟨fun h => ?_, fun h => ?_, relaid_carriage⟩
  · have hfollows : (relining Eq fun _ => rfl).Follows Eq settings { settings with resources := r }
        limit names s.renewed := by
      refine h.follows (fun _ => trivial) fun t t' ht => ?_
      rw [Relaid.activeLines_eq ht]
      exact List.forall₂_same.mpr fun _ _ => rfl
    refine (sameEnd_of_follows (fun _ => rfl) ?_ hfollows).eq
    rintro line _ rfl
    exact rfl
  · have hfollows : (relining SameCode fun _ => rfl).Follows SameCode settings
        { settings with resources := r } limit names s.renewed :=
      h.follows (fun _ => trivial) fun t t' ht => Annotated.sameCode ht
    exact sameEnd_of_follows (fun _ => rfl) (fun _ _ => id) hfollows

def single (t : Text) : Resources := .memory [("s".toList, Utf8.encode t)]

theorem readText_single (t name : Text) (w : World) :
    (single t).readText name w =
      if name = "s".toList then .ok t w
      else .error (.missingResource name (some "<memory>".toList)) w := by
  by_cases hname : name = "s".toList
  · have hread : (single t).read name w = .ok (Utf8.encode t) w := by
      rw [hname]
      rfl
    rw [if_pos hname, Resources.readText, bind_of_ok hread]
    simp only [single, Resources.decode, Utf8.decode_encode]
    rfl
  · have hread : (single t).read name w =
        .error (.missingResource name (some "<memory>".toList)) w := by
      have hlookup : [("s".toList, Utf8.encode t)].lookup name = none := by
        simpa using hname
      simp only [single, Resources.read, hlookup]
      rfl
    rw [if_neg hname]
    exact bind_of_error hread

/-- A script whose lines ask for nothing but values may be put in the place of another one. -/
theorem answersAlike_single {R : Text → Text → Prop} {t t' : Text} (hR : R t t')
    {settings : Settings} (hsettings : settings.resources = single t)
    (hlines : ∀ line ∈ activeLines t, ∀ limit s q s₁,
      (Job.line (stripComment line)).Asks settings limit s q s₁ → ∃ text, q = .resolving text)
    (limit : Nat) (names : List Text) (s : Session) :
    AnswersAlike R settings (single t') limit names s := by
  intro job limit' s₀ q s₁ comesTo asks
  cases comesTo with
  | script course listed notExit passes =>
    cases asks
    change SameAnswer R _ _
    rw [hsettings, readText_single, readText_single]
    split
    · exact .ok hR
    · exact .error
  | line course begins =>
    obtain @⟨_, _, _, _, _, _, line, _, _, _, _, _, _, hread, hlist, _⟩ := begins
    rw [hsettings, readText_single] at hread
    split at hread
    · cases hread
      have hmem : line ∈ activeLines t := by simp [hlist]
      obtain ⟨text, rfl⟩ := hlines line hmem _ _ _ _ asks
      trivial
    · cases hread

def greeting : Text := "Message hi".toList ++ '\n' :: "x = y".toList

def greeter : Settings where
  resources := single greeting
  version := [1]
  directory := ['/']

def indented : Text :=
  "# note\r".toList ++ '\n' :: '\t' :: ("Message hi".toList ++ '\r' :: '\n' :: "x = y".toList)

def explained : Text :=
  "Message hi".toList ++ '\n' :: ("x = y".toList ++ " # ".toList ++ "\"why".toList)

theorem relaid_indented : Relaid greeting indented := by
  have hindent : Relaid ("Message hi".toList ++ '\r' :: '\n' :: "x = y".toList)
      ('\t' :: ("Message hi".toList ++ '\r' :: '\n' :: "x = y".toList)) :=
    .rel _ _ (.all (.leading (by decide) (by decide)))
  have hremark : IsRemark "# note\r".toList := @IsRemark.comment [] " note\r".toList nofun
  exact .trans _ _ _ (relaid_carriage _ _) (.trans _ _ _ hindent
    (.rel _ _ (.all (.above hremark (by decide)))))

theorem annotated_explained : Annotated greeting explained := by
  have hcode : ¬ IsRemark "x = y".toList := fun h => absurd (isSkipped_trim_of_remark h) (by decide)
  exact .rel _ _ (.last _ (.all (.inr (.comment hcode (by decide) (by decide) (by decide)))))

theorem greeter_asks (line : Text) (hline : line ∈ activeLines greeting) (limit : Nat)
    (s : Session) (q : Request) (s₁ : Session)
    (asks : (Job.line (stripComment line)).Asks greeter limit s q s₁) :
    ∃ text, q = .resolving text := by
  have hlines : activeLines greeting = ["Message hi".toList, "x = y".toList] := by decide
  rw [hlines] at hline
  obtain rfl | rfl : line = "Message hi".toList ∨ line = "x = y".toList := by simpa using hline
  · have hcode : stripComment "Message hi".toList = "Message hi".toList := by decide
    have hfree : MacroFree "Message hi".toList := by decide
    rw [hcode] at asks
    cases asks with
    | value | macros => exact ⟨_, rfl⟩
    | line command resolves asks =>
      cases (hfree.resolveMacros s).symm.trans resolves
      have htokens : tokenize "Message hi".toList = ["Message".toList, "hi".toList] := by decide
      rw [htokens] at asks
      have hhead : headOf "Message".toList = .builtin .message := by decide
      cases asks with
      | program head => cases hhead.symm.trans head
      | command head plain asks =>
        cases hhead.symm.trans head
        cases asks
      | probe head _ _ => cases hhead.symm.trans head
      | holds head conditional _ _ _ =>
        cases hhead.symm.trans head
        cases conditional
  · cases asks with
    | value | macros => exact ⟨_, rfl⟩
    | line command _ _ => exact absurd command (by decide)

theorem run_relaid_greeter :
    (AnswersAlike Relaid greeter (single indented) 3 ["s".toList]
        (Session.renewed { world := {} }) ∧
      run { greeter with resources := single indented } 3 ["s".toList] { world := {} } =
        run greeter 3 ["s".toList] { world := {} }) ∧
    (AnswersAlike Annotated greeter (single explained) 3 ["s".toList]
        (Session.renewed { world := {} }) ∧
      SameEnd SameCode (run greeter 3 ["s".toList] { world := {} })
        (run { greeter with resources := single explained } 3 ["s".toList] { world := {} })) := by
  have hrelaid : AnswersAlike Relaid greeter (single indented) 3 ["s".toList]
      (Session.renewed { world := {} }) :=
    answersAlike_single relaid_indented rfl greeter_asks _ _ _
  have hannotated : AnswersAlike Annotated greeter (single explained) 3 ["s".toList]
      (Session.renewed { world := {} }) :=
    answersAlike_single annotated_explained rfl greeter_asks _ _ _
  obtain ⟨hsame, -, -⟩ := run_relaid greeter (single indented) 3 ["s".toList] { world := {} }
  obtain ⟨-, hshown, -⟩ := run_relaid greeter (single explained) 3 ["s".toList] { world := {} }
  exact ⟨⟨hrelaid, hsame hrelaid⟩, hannotated, hshown hannotated⟩

def selfListing : Text := "$(Source) = a\n$(Target) = b\nPack s".toList

def selfArchive : Text := "$(Source) = s\n$(Target) = b\nUnpack".toList

def noted (t : Text) : Text := "# note".toList ++ '\n' :: t

theorem relaid_noted (t : Text) : Relaid t (noted t) := by
  have hremark : IsRemark "# note".toList := @IsRemark.comment [] " note".toList nofun
  exact .rel _ _ (.all (.above hremark (by decide)))

def complaint (t : Text) : Option Text :=
  (finalState (run { greeter with resources := single t } 3 ["s".toList])
    { world := {} }).diagnostics.bind Diagnostics.message

theorem run_not_relaid :
    (Relaid selfListing (noted selfListing) ∧
      complaint selfListing =
        some "[Errno 2] No such file or directory: '/a/$(Source) = a'".toList ∧
      complaint (noted selfListing) =
        some "[Errno 2] No such file or directory: '/a/# note'".toList) ∧
    (Relaid selfArchive (noted selfArchive) ∧
      complaint (noted selfArchive) ≠ complaint selfArchive) := by
  refine ⟨⟨relaid_noted _, ?_, ?_⟩, relaid_noted _, ?_⟩
  · decide +kernel
  · decide +kernel
  · decide +kernel

end Rollout.Layout
