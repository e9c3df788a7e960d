import Mathlib.Data.List.Forall2
import Rollout.Proofs.Endings
import Rollout.Proofs.MoreLevels
import Rollout.Proofs.PlainLine

namespace Rollout

open Text Script Interpreter

def SameMessage (m m' : Option Text) : Prop :=
  m' = m ∨ ∃ e e' : ScriptError, e'.cause = e.cause ∧ m = some e.message ∧ m' = some e'.message

structure SameReport (d d' : Diagnostics) : Prop where
  status : d'.status = d.status
  exitCode : d'.exitCode = d.exitCode
  message : SameMessage d.message d'.message

inductive SameEntry : Entry → Entry → Prop
  | refl (e : Entry) : SameEntry e e
  | failure {d d' : Diagnostics} (report : SameReport d d') : SameEntry (.failure d) (.failure d')

inductive SameFault : Fault → Fault → Prop
  | refl (e : Fault) : SameFault e e
  | script {e e' : ScriptError} (cause : e'.cause = e.cause) : SameFault (.script e) (.script e')

def World.unrecorded (w : World) : World := { w with journal := [] }

/-- Two sessions with the same variables, the same status, the same world and the same events and
effects. -/
structure Alike (s t : Session) : Prop where
  store : t.store = s.store
  status : t.status = s.status
  failed : t.failed = s.failed
  diagnostics : Option.Rel SameReport s.diagnostics t.diagnostics
  world : t.world.unrecorded = s.world.unrecorded
  trace : List.Forall₂ SameEntry s.world.journal.trace t.world.journal.trace

theorem SameReport.refl (d : Diagnostics) : SameReport d d := ⟨rfl, rfl, .inl rfl⟩

theorem sameTrace_refl (es : Journal) : List.Forall₂ SameEntry es es :=
  List.forall₂_same.mpr fun e _ => .refl e

theorem sameTrace_append {es es' : Journal} (h : List.Forall₂ SameEntry es.trace es'.trace)
    {added added' : Journal} (ha : List.Forall₂ SameEntry added.trace added'.trace) :
    List.Forall₂ SameEntry (es ++ added).trace (es' ++ added').trace := by
  rw [Journal.trace_append, Journal.trace_append]
  exact List.rel_append h ha

def Session.shown (s : Session) : Session :=
  { s with
    script := none
    line := none
    depth := 0
    world := { s.world with journal := s.world.journal.trace } }

theorem Session.shown_begin (s : Session) (a : Activation) : (s.begin a).shown = s.shown := by
  simp only [shown, begin, Journal.trace_append]
  simp [Journal.trace, Entry.isEvent, Entry.isEffect]

theorem Session.shown_announced (s : Session) (command : Command) (arguments : List Text) :
    (s.announced command arguments).shown = s.shown := by
  simp only [shown, announced, Journal.trace_append]
  simp [Journal.trace, Entry.isEvent, Entry.isEffect]

theorem Alike.refl (s : Session) : Alike s s where
  store := rfl
  status := rfl
  failed := rfl
  diagnostics := by
    cases s.diagnostics with
    | none => exact .none
    | some d => exact .some (.refl d)
  world := rfl
  trace := sameTrace_refl _

theorem alike_shown {s t : Session} : Alike s.shown t.shown ↔ Alike s t := by
  have idem (es : Journal) : Journal.trace es.trace = es.trace := by simp [Journal.trace]
  constructor
  · rintro ⟨hstore, hstatus, hfailed, hdiagnostics, hworld, htrace⟩
    refine ⟨hstore, hstatus, hfailed, hdiagnostics, hworld, ?_⟩
    simpa only [Session.shown, idem] using htrace
  · rintro ⟨hstore, hstatus, hfailed, hdiagnostics, hworld, htrace⟩
    refine ⟨hstore, hstatus, hfailed, hdiagnostics, hworld, ?_⟩
    simpa only [Session.shown, idem] using htrace

theorem Alike.of_shown {s s' t t' : Session} (h : Alike s t) (hs : s'.shown = s.shown)
    (ht : t'.shown = t.shown) : Alike s' t' := by
  rw [← alike_shown, hs, ht, alike_shown]
  exact h

theorem Alike.world_eq {s t : Session} (h : Alike s t) :
    t.world = { s.world with journal := t.world.journal } :=
  congrArg (fun w : World => { w with journal := t.world.journal }) h.world

theorem Alike.endedBy {s t : Session} (h : Alike s t) {d d' : Diagnostics} (hd : SameReport d d') :
    Alike (s.endedBy d) (t.endedBy d') where
  store := h.store
  status := hd.status
  failed := rfl
  diagnostics := .some hd
  world := h.world
  trace := by
    refine sameTrace_append h.trace ?_
    exact .cons (.failure hd) .nil

theorem Alike.fail {s t : Session} (h : Alike s t) (flag : Flag) (message : Option Text)
    (exitCode : Option Int) :
    ∃ flow s' t', Rollout.fail flag message exitCode s = .ok flow s' ∧
      Rollout.fail flag message exitCode t = .ok flow t' ∧ Alike s' t' := by
  have hstatus : t.status.add flag = s.status.add flag := by rw [h.status]
  cases hs : s.store.ignoreErrors with
  | true =>
    have ht : t.store.ignoreErrors = true := by rw [h.store, hs]
    refine ⟨_, _, _, fail_of_ignoring hs flag message exitCode,
      fail_of_ignoring ht flag message exitCode, ?_⟩
    exact ⟨h.store, hstatus, h.failed, h.diagnostics, h.world, sameTrace_append h.trace .nil⟩
  | false =>
    have ht : t.store.ignoreErrors = false := by rw [h.store, hs]
    refine ⟨_, _, _, fail_of_strict hs flag message exitCode,
      fail_of_strict ht flag message exitCode, ?_⟩
    exact h.endedBy ⟨hstatus, rfl, .inl rfl⟩

theorem alike_steady : Steady Alike SameFault where
  alike_refl := .refl
  alike_located _ _ := .script rfl
  world {s t} h := by
    refine ⟨t.world.journal, h.world_eq, fun w es => ?_⟩
    exact ⟨h.store, h.status, h.failed, h.diagnostics, rfl,
      sameTrace_append h.trace (sameTrace_refl _)⟩
  place h _ _ := h.of_shown rfl rfl
  depth h _ _ := h.of_shown rfl rfl
  store h := h.store
  update h _ := ⟨rfl, h.status, h.failed, h.diagnostics, h.world, h.trace⟩
  fail h := h.fail

def inlining (first second : Prop) : Coupling :=
  alike_steady.coupling (fun e => first ∧ e = .nestedTooDeep) fun e => second ∧ e = .nestedTooDeep

def Resources.text? (r : Resources) (name : Text) (w : World) : Option Text :=
  match r.readText name w with
  | .ok t _ => some t
  | .error _ _ => none

theorem Resources.readText_state (r : Resources) (name : Text) (w : World) :
    finalState (r.readText name) w = w := by
  have hread : Obeys Eq (r.read name) := by
    cases r with
    | directory root =>
      refine obeys_get.bind fun w => ?_
      split
      · exact readFile_obeys _
      · exact obeys_throw _
    | package home =>
      refine obeys_get.bind fun w => ?_
      split
      · exact obeys_throw _
      · split
        · exact obeys_pure _
        · exact obeys_throw _
    | memory items =>
      simp only [Resources.read]
      split
      · exact obeys_pure _
      · exact obeys_throw _
  have h : Obeys Eq (r.readText name) := by
    refine hread.bind fun content => ?_
    split
    · exact obeys_pure _
    · exact obeys_throw _
  exact (h w).symm

theorem Resources.readText_of_text? {r : Resources} {name t : Text} {w : World}
    (h : r.text? name w = some t) : r.readText name w = .ok t w := by
  have hstate := r.readText_state name w
  unfold text? at h
  cases hread : r.readText name w with
  | ok t' w' =>
    rw [hread] at h
    rw [finalState_of_ok hread] at hstate
    cases h
    rw [hstate]
  | error e w' =>
    rw [hread] at h
    cases h

/-- A line that is the command to run the named scripts, as it stands. -/
structure IsRunLine (line : Text) (names : List Text) : Prop where
  active : isSkipped line = false
  command : splitAssignment (stripComment line) = none
  literal : MacroFree (stripComment line)
  tokens : ∃ word, tokenize (stripComment line) = word :: names ∧ headOf word = .builtin .run

/-- The script `m'` is `m` with the lines of the named scripts in the place of a line that runs
them. -/
structure Inlined (r : Resources) (w : World) (m m' : Text) (names : List Text) : Prop where
  notExit : m ≠ exitToken
  notExit' : m' ≠ exitToken
  namesNotExit : exitToken ∉ names
  texts : ∃ t t' before line after, ∃ textOf : Text → Text,
    r.text? (unquote m) w = some t ∧ r.text? (unquote m') w = some t' ∧
    (∀ name ∈ names, r.text? (unquote name) w = some (textOf name)) ∧
    IsRunLine line names ∧ scriptLines t = before ++ line :: after ∧
    scriptLines t' = before ++ names.flatMap (fun name => scriptLines (textOf name)) ++ after

/-- While `m` is run, the scripts that are looked up are as they were. -/
def Unchanging (settings : Settings) (m : Text) (s : Session) : Prop :=
  ∀ limit name s', LooksUp settings limit [m] s.renewed name s' →
    settings.resources.text? (unquote name) s'.world =
      settings.resources.text? (unquote name) s.world

section

variable {first second : Prop} {settings : Settings} {limit limit' d d' : Nat} {s t : Session}

theorem coupled_line (hl : (inlining first second).Within limit limit') (hd : 0 < d) (hd' : 0 < d')
    (script script' line : Text) (hst : Alike s t) (hs : s.depth = d) (ht : t.depth = d') :
    (inlining first second).Coupled d d' IsExit
      (runLine settings (levels settings limit) script line s)
      (runLine settings (levels settings limit') script' line t) := by
  let a : Activation := ⟨script, line⟩
  let b : Activation := ⟨script', line⟩
  have hbegin : Alike (s.begin a) (t.begin b) := hst.of_shown (s.shown_begin a) (t.shown_begin b)
  refine ((inlining first second).executeLine_hands hd' hl settings trivial hbegin hs ht).coupled
    settings settings fun l l' names s₁ t₁ hl' _ hst₁ hs₁ ht₁ => ?_
  have h : (inlining first second).Coupled s₁.depth t₁.depth IsExit
      (runScripts settings l names s₁) (runScripts settings l' names t₁) :=
    Coupling.coupled_nested hl' (fun _ _ _ _ _ _ => trivial) hst₁ (hs₁ ▸ hd) (ht₁ ▸ hd')
  rwa [hs₁, ht₁] at h

theorem coupled_lines (hl : (inlining first second).Within limit limit') (hd : 0 < d)
    (hd' : 0 < d') (script script' : Text) (lines : List Text) (hst : Alike s t) (hs : s.depth = d)
    (ht : t.depth = d') :
    (inlining first second).Coupled d d' IsExit
      (untilExit (runLine settings (levels settings limit) script) lines s)
      (untilExit (runLine settings (levels settings limit') script') lines t) :=
  (inlining first second).coupled_untilExit hd'
    (runLine_conducts (levels_conducts settings limit') script')
    (fun _ line _ _ _ _ _ => coupled_line hl hd hd' script script' line) hst hs ht

/-- Scripts that are run one after the other do what their lines do in one script. -/
theorem coupled_texts (hl : (inlining first second).Within limit limit') (hd : 0 < d)
    (hd' : 0 < d') (script : Text) {names : List Text} {textOf : Text → Text}
    (hne : exitToken ∉ names)
    (hread : ∀ before name after s₁, names = before ++ name :: after →
      Passes settings limit before s s₁ →
      settings.resources.text? (unquote name) s₁.world = some (textOf name))
    (hst : Alike s t) (hs : s.depth = d) (ht : t.depth = d') :
    (inlining first second).Coupled d d' IsExit
      (untilExit (runNamed settings (levels settings limit)) names s)
      (untilExit (runLine settings (levels settings limit') script)
        (names.flatMap fun name => activeLines (textOf name)) t) := by
  induction names generalizing s t with
  | nil => exact .ok hst hs ht
  | cons name names ih =>
    rw [List.mem_cons, not_or] at hne
    have htext := Resources.readText_of_text? (hread [] name names s rfl rfl)
    rw [List.flatMap_cons, untilExit_append]
    refine (inlining first second).coupled_unlessExit hd' ?_ (fun s₁ t₁ hname hst₁ hs₁ ht₁ => ?_)
      (untilExit_conducts (runLine_conducts (levels_conducts settings limit') script) _)
    · rw [runNamed_of_ne (Ne.symm hne.1), runScript_of_ok htext]
      exact coupled_lines hl hd hd' _ _ _ hst hs ht
    · refine ih hne.2 (fun before other after s₂ hnames hpasses => ?_) hst₁ hs₁ ht₁
      exact hread (name :: before) other after s₂ (by rw [hnames]; rfl)
        ((untilExit_cons_of_next hname before).trans hpasses)

theorem coupled_raised {r r' : EStateM.Result Fault Session Flow}
    (h : (inlining first second).Coupled (d + 1) d' IsExit r r') :
    (inlining first second).Coupled d d' IsExit (mapEnd Session.raised r) r' := by
  cases h with
  | ok step hs ht => exact .ok (Alike.of_shown step rfl rfl) (Session.depth_raised hs) ht
  | error alike step hs ht =>
    exact .error alike (Alike.of_shown step rfl rfl) (Session.depth_raised hs) ht
  | parted _ apart _ _ => exact apart.elim
  | first yields => exact .first yields
  | second yields => exact .second yields

def Session.calling (s : Session) (a : Activation) (names : List Text) : Session :=
  (s.begin a).announced .run names

theorem IsRunLine.calls {line : Text} {names : List Text} (h : IsRunLine line names) (script : Text)
    (s : Session) :
    Calls settings limit line (s.begin ⟨script, line⟩) limit names
      (s.calling ⟨script, line⟩ names) := by
  obtain ⟨word, htokens, hword⟩ := h.tokens
  exact calls_of_run h.command (h.literal.resolveMacros _) htokens hword

/-- A line that runs scripts does what their lines do in its place. -/
theorem coupled_runLine (hzero : limit = 0 → first)
    (hpred : ∀ k, limit = k + 1 → (inlining first second).Within k limit') (hd : 0 < d)
    (hd' : 0 < d') (script script' : Text) {line : Text} {names : List Text}
    {textOf : Text → Text} (hline : IsRunLine line names) (hne : exitToken ∉ names)
    (hread : ∀ k before name after s₁, limit = k + 1 → names = before ++ name :: after →
      Passes settings k before (s.calling ⟨script, line⟩ names).deepened s₁ →
      settings.resources.text? (unquote name) s₁.world = some (textOf name))
    (hst : Alike s t) (hs : s.depth = d) (ht : t.depth = d') :
    (inlining first second).Coupled d d' IsExit
      (runLine settings (levels settings limit) script line s)
      (untilExit (runLine settings (levels settings limit') script')
        (names.flatMap fun name => activeLines (textOf name)) t) := by
  have hcalling : runLine settings (levels settings limit) script line s =
      runScripts settings limit names (s.calling ⟨script, line⟩ names) :=
    (hline.calls script s).eq_runScripts settings
  rw [hcalling]
  cases limit with
  | zero => exact .first ⟨hzero rfl, rfl⟩
  | succ k =>
    have hdepth : 0 < (s.calling ⟨script, line⟩ names).depth := hs ▸ hd
    rw [runScripts_within hdepth]
    refine coupled_raised (coupled_texts (hpred k rfl) (Nat.succ_pos _) hd' script' hne ?_ ?_ ?_ ht)
    · intro before name after s₁ hnames hpasses
      exact hread k before name after s₁ rfl hnames hpasses
    · refine hst.of_shown ?_ rfl
      exact ((s.begin _).shown_announced .run names).trans (s.shown_begin _)
    · exact congrArg (· + 1) hs

def executed (lines : List Text) : List Text := lines.filter fun line => !Script.isSkipped line

theorem executed_append (lines lines' : List Text) :
    executed (lines ++ lines') = executed lines ++ executed lines' := List.filter_append ..

theorem executed_flatMap (names : List Text) (textOf : Text → Text) :
    executed (names.flatMap fun name => scriptLines (textOf name)) =
      names.flatMap fun name => activeLines (textOf name) := List.filter_flatMap ..

theorem IsRunLine.executed_cons {line : Text} {names : List Text} (h : IsRunLine line names)
    (lines : List Text) : executed (line :: lines) = line :: executed lines :=
  List.filter_cons_of_pos (by simp [h.active])

/-- A script and the one in which a line that runs scripts is replaced. -/
theorem coupled_inlined (first second : Prop) (limit limit' : Nat) {m m' : Text}
    {names : List Text} (hl : (inlining first second).Within limit limit')
    (hzero : limit = 0 → first)
    (hpred : ∀ k, limit = k + 1 → (inlining first second).Within k limit')
    (h : Inlined settings.resources s.world m m' names) (hfixed : Unchanging settings m s) :
    (inlining first second).Coupled (s.depth + 1) (s.depth + 1) IsExit
      (untilExit (runNamed settings (levels settings limit)) [m] s.renewed.deepened)
      (untilExit (runNamed settings (levels settings limit')) [m'] s.renewed.deepened) := by
  have hd : 0 < s.depth + 1 := Nat.succ_pos _
  have hc (lines : List Text) :
      Conducts IsExit (untilExit (runLine settings (levels settings limit') (unquote m')) lines) :=
    untilExit_conducts (runLine_conducts (levels_conducts settings limit') _) lines
  obtain ⟨t, t', before, line, after, textOf, hm, hm', htexts, hline, hlines, hlines'⟩ := h.texts
  have hread : settings.resources.readText (unquote m) s.renewed.deepened.world = .ok t s.world :=
    Resources.readText_of_text? hm
  have hread' : settings.resources.readText (unquote m') s.renewed.deepened.world =
    .ok t' s.world := Resources.readText_of_text? hm'
  have hactive : activeLines t = executed before ++ line :: executed after := by
    rw [← hline.executed_cons, ← executed_append, ← hlines]
    rfl
  have hactive' : activeLines t' =
      executed before ++
        ((names.flatMap fun name => activeLines (textOf name)) ++ executed after) := by
    rw [← executed_flatMap, ← executed_append, ← executed_append, ← List.append_assoc, ← hlines']
    rfl
  rw [untilExit_singleton, untilExit_singleton, runNamed_of_ne h.notExit, runNamed_of_ne h.notExit',
    runScript_of_ok hread, runScript_of_ok hread', hactive, hactive', untilExit_append,
    untilExit_append]
  -- the lines before, the line itself, and the lines after it
  refine (inlining first second).coupled_unlessExit hd
    (coupled_lines hl hd hd _ _ _ (.refl _) rfl rfl) (fun s₁ t₁ hbefore hst₁ hs₁ ht₁ => ?_) (hc _)
  rw [untilExit_append]
  refine (inlining first second).coupled_unlessExit hd ?_
    (fun s₂ t₂ _ hst₂ hs₂ ht₂ => coupled_lines hl hd hd _ _ _ hst₂ hs₂ ht₂) (hc _)
  refine coupled_runLine hzero hpred hd hd _ _ hline h.namesNotExit ?_ hst₁ hs₁ ht₁
  rintro k beforeNames name afterNames s₂ rfl hnames hpasses
  have hbegins : Begins settings (k + 1) [m] s.renewed.deepened ⟨unquote m, line⟩
      (s₁.begin ⟨unquote m, line⟩) := by
    have hpasses : Passes settings (k + 1) [] s.renewed.deepened s.renewed.deepened := rfl
    exact .intro hpasses h.notExit hread hactive hbefore
  have hmem : name ∈ names := by simp [hnames]
  have hne : name ≠ exitToken := fun heq => h.namesNotExit (heq ▸ hmem)
  rw [hfixed (k + 1 + 1) name s₂ (.call hbegins (hline.calls _ s₁) (.here hnames hne hpasses))]
  exact htexts name hmem

end

inductive SameEnd :
    EStateM.Result Fault Session Bool → EStateM.Result Fault Session Bool → Prop
  | ok {result : Bool} {s t : Session} (alike : Alike s t) : SameEnd (.ok result s) (.ok result t)
  | error {e e' : Fault} {s t : Session} (fault : SameFault e e') (alike : Alike s t) :
      SameEnd (.error e s) (.error e' t)

theorem Alike.succeeded {s t : Session} (h : Alike s t) : Alike s.succeeded t.succeeded :=
  ⟨h.store, h.status, h.failed, h.diagnostics, h.world,
    sameTrace_append h.trace (sameTrace_refl _)⟩

theorem Alike.concluded {s t : Session} (h : Alike s t) (hd : t.depth = s.depth) :
    Alike s.concluded t.concluded := by
  unfold Session.concluded
  rw [hd, h.failed, h.status]
  split
  · exact h.succeeded
  · exact h

theorem Alike.errorReport {s t : Session} (h : Alike s t) {e e' : ScriptError}
    (he : e'.cause = e.cause) : SameReport (s.errorReport e) (t.errorReport e') where
  status := by rw [Session.errorReport, Session.errorReport, h.status, he]
  exitCode := rfl
  message := .inr ⟨e, e', he, rfl, rfl⟩

section

variable {first second : Prop} {settings : Settings} {limit limit' : Nat} {s : Session}

theorem sameEnd_of_coupled {names names' : List Text}
    (h : (inlining first second).Coupled (s.depth + 1) (s.depth + 1) IsExit
      (untilExit (runNamed settings (levels settings limit)) names s.renewed.deepened)
      (untilExit (runNamed settings (levels settings limit')) names' s.renewed.deepened)) :
    (first ∧ tooDeep (run settings (limit + 1) names s)) ∨
      (second ∧ tooDeep (run settings (limit' + 1) names' s)) ∨
      SameEnd (run settings (limit + 1) names s) (run settings (limit' + 1) names' s) := by
  rw [run_eq, run_eq, runScripts_eq, runScripts_eq]
  generalize untilExit (runNamed settings (levels settings limit)) names
    s.renewed.deepened = r at h
  generalize untilExit (runNamed settings (levels settings limit')) names'
    s.renewed.deepened = r' at h
  cases h with
  | @ok flow s₁ t₁ step hs ht =>
    have halike : Alike s₁ t₁ := step
    have hdepth : t₁.raised.depth = s₁.raised.depth := by rw [Session.raised, ht, Session.raised, hs]
    have hraised : Alike s₁.raised.concluded t₁.raised.concluded :=
      (halike.of_shown rfl rfl : Alike s₁.raised t₁.raised).concluded hdepth
    refine .inr (.inr ?_)
    dsimp only [surfaced]
    rw [hraised.failed, hraised.status]
    exact .ok hraised
  | @error e e' s₁ t₁ alike step hs ht =>
    have hraised : Alike s₁.raised t₁.raised := Alike.of_shown step rfl rfl
    refine .inr (.inr ?_)
    cases alike with
    | script cause => exact .ok (hraised.endedBy (hraised.errorReport cause))
    | refl e =>
      cases e with
      | script error => exact .ok (hraised.endedBy (hraised.errorReport rfl))
      | _ => exact .error (.refl _) hraised
  | parted _ apart _ _ => exact apart.elim
  | first yields =>
    obtain ⟨hfirst, rfl⟩ := yields
    exact .inl ⟨hfirst, rfl⟩
  | second yields =>
    obtain ⟨hsecond, rfl⟩ := yields
    exact .inr (.inl ⟨hsecond, rfl⟩)

end

section

variable {settings : Settings} {limit : Nat} {s : Session}

theorem runScripts_no_success (names : List Text) (hd : 0 < s.depth) :
    ∃ es, (finalState (runScripts settings limit names) s).world.journal = s.world.journal ++ es ∧
      .success ∉ es := by
  have h : ConductsAt IsExit (runScripts settings limit names) s :=
    runScripts_conducts limit names s hd
  have calm {s₁ : Session} (hc : Calm s s₁) :
      ∃ es, s₁.world.journal = s.world.journal ++ es ∧ .success ∉ es := by
    obtain ⟨es, hj, hes, -⟩ := hc.entries
    exact ⟨es, hj, fun hmem => Bool.noConfusion (hes _ hmem)⟩
  rw [ConductsAt] at h
  unfold finalState
  cases he : runScripts settings limit names s with
  | error e s₁ =>
    rw [he] at h
    exact calm h
  | ok flow s₁ =>
    rw [he] at h
    obtain hcalm | ⟨-, s₂, flag, message, exitCode, hcalm, -, rfl⟩ := h
    · exact calm hcalm
    · obtain ⟨es, hj, hes⟩ := calm hcalm
      let d := s₂.report flag message exitCode
      refine ⟨es ++ [.log .error .interpreter ("Script failed: ".toList ++ d.describe), .failure d],
        ?_, by simp [hes]⟩
      change s₂.world.journal ++ _ = _
      rw [hj, List.append_assoc]

end

/-- Running scripts is putting their lines in the place of the line that runs them. When either run
ends, the other does, with one level of nesting more at most, and they end the same. A line that asks
to exit, fails or is in error ends every script that has begun. Scripts that are run by others tell
nobody of success. -/
theorem run_inlined {settings : Settings} {s : Session} {m m' : Text} {names : List Text}
    (h : Inlined settings.resources s.world m m' names) (hfixed : Unchanging settings m s) :
    (∀ limit, tooDeep (run settings limit [m] s) ∨
      SameEnd (run settings limit [m] s) (run settings limit [m'] s)) ∧
    (∀ limit, tooDeep (run settings limit [m'] s) ∨
      SameEnd (run settings (limit + 1) [m] s) (run settings limit [m'] s)) ∧
    (∀ top active limit names' s' a s₁,
      Course settings top [m] s.renewed active (limit + 1) names' s' →
      Begins settings limit names' s'.deepened a s₁ →
      Final (executeLine settings (levels settings limit) (stripComment a.line) s₁) →
      EndsAs (executeLine settings (levels settings limit) (stripComment a.line) s₁)
        (runScripts settings top [m] s.renewed)) ∧
    ∀ limit names' t, 0 < t.depth →
      ∃ es, (finalState (runScripts settings limit names') t).world.journal =
        t.world.journal ++ es ∧ .success ∉ es := by
  refine ⟨fun limit => ?_, fun limit => ?_, ?_, ?_⟩
  · cases limit with
    | zero => exact .inl rfl
    | succ limit =>
      have hcoupled := coupled_inlined True False limit limit (.inl rfl) (fun _ => trivial)
        (fun k hk => .inr (.inl ⟨hk ▸ Nat.le_succ k, trivial, rfl⟩)) h hfixed
      obtain ⟨-, hdeep⟩ | ⟨hfalse, -⟩ | hsame := sameEnd_of_coupled hcoupled
      · exact .inl hdeep
      · exact hfalse.elim
      · exact .inr hsame
  · cases limit with
    | zero => exact .inl rfl
    | succ limit =>
      have hcoupled := coupled_inlined False True (limit + 1) limit
        (.inr (.inr ⟨Nat.le_succ limit, trivial, rfl⟩)) nofun
        (fun k hk => .inl (Nat.succ.inj hk).symm) h hfixed
      obtain ⟨hfalse, -⟩ | ⟨-, hdeep⟩ | hsame := sameEnd_of_coupled hcoupled
      · exact hfalse.elim
      · exact .inl hdeep
      · exact .inr hsame
  · intro top active limit names' s' a s₁ course begins hfinal
    exact course.endsAs begins hfinal
  · intro limit names' t hd
    exact runScripts_no_success names' hd

theorem Resources.text?_memory (items : List (Text × Bytes)) (name : Text) (w : World) :
    (Resources.memory items).text? name w =
      (items.lookup name).bind fun content => (Utf8.decode content).toOption := by
  unfold text? readText
  cases hl : items.lookup name with
  | none =>
    have hread : (Resources.memory items).read name w =
        .error (.missingResource name (some "<memory>".toList)) w := by
      simp only [read, hl]
      rfl
    rw [bind_of_error hread]
    rfl
  | some content =>
    have hread : (Resources.memory items).read name w = .ok content w := by
      simp only [read, hl]
      rfl
    rw [bind_of_ok hread]
    cases hd : Utf8.decode content with
    | ok t =>
      simp only [decode, hd]
      exact congrArg Except.toOption hd.symm
    | error e =>
      simp only [decode, hd]
      exact congrArg Except.toOption hd.symm

theorem unchanging_of_memory {settings : Settings} {items : List (Text × Bytes)}
    (h : settings.resources = .memory items) (m : Text) (s : Session) : Unchanging settings m s := by
  intro limit name s' _
  rw [h, Resources.text?_memory, Resources.text?_memory]

def nest : Settings where
  resources := .memory
    [("main".toList, Utf8.encode "Message go\nRun a b\nMessage done".toList),
      ("a".toList, Utf8.encode "Message one".toList),
      ("b".toList, Utf8.encode "Run a\nMessage two".toList),
      ("flat".toList, Utf8.encode
        "Message go\nMessage one\nRun a\nMessage two\nMessage done".toList)]
  version := [1]
  directory := ['/']

theorem nest_inlined (w : World) :
    Inlined nest.resources w "main".toList "flat".toList ["a".toList, "b".toList] where
  notExit := by decide
  notExit' := by decide
  namesNotExit := by decide
  texts := by
    refine ⟨"Message go\nRun a b\nMessage done".toList,
      "Message go\nMessage one\nRun a\nMessage two\nMessage done".toList, ["Message go".toList],
      "Run a b".toList, ["Message done".toList],
      fun name => if name = "a".toList then "Message one".toList else "Run a\nMessage two".toList,
      rfl, rfl, ?_, ⟨rfl, rfl, by decide, "Run".toList, by decide, by decide⟩, by decide, by decide⟩
    simp only [List.mem_cons, List.not_mem_nil, or_false]
    rintro name (rfl | rfl) <;> rfl

theorem run_inlined_nest :
    Inlined nest.resources {} "main".toList "flat".toList ["a".toList, "b".toList] ∧
      SameEnd (run nest 3 ["main".toList] { world := {} })
        (run nest 3 ["flat".toList] { world := {} }) := by
  have hends : ¬ tooDeep (run nest 3 ["main".toList] { world := {} }) := by decide +kernel
  obtain ⟨hsame, -⟩ := run_inlined (nest_inlined {}) (s := { world := {} })
    (unchanging_of_memory rfl "main".toList { world := {} })
  exact ⟨nest_inlined {}, (hsame 3).resolve_left hends⟩

def unruly : Settings where
  resources := .memory
    [("main".toList, Utf8.encode "Run a=b".toList), ("a=b".toList, Utf8.encode "Message hi".toList),
      ("flat".toList, Utf8.encode "Message hi".toList),
      (exitToken, Utf8.encode "Run flat".toList)]
  version := [1]
  directory := ['/']

theorem run_not_inlined :
    (scriptLines "Run a=b".toList = ["Run a=b".toList] ∧
      unruly.resources.text? "main".toList {} = some "Run a=b".toList ∧
      unruly.resources.text? "a=b".toList {} = unruly.resources.text? "flat".toList {} ∧
      (finalState (run unruly 3 ["main".toList]) { world := {} }).failed = true ∧
      (finalState (run unruly 3 ["flat".toList]) { world := {} }).failed = false) ∧
    (unruly.resources.text? exitToken {} = some "Run flat".toList ∧
      (finalState (run unruly 3 [exitToken]) { world := {} }).world.journal.trace = [.success] ∧
      (finalState (run unruly 3 ["flat".toList]) { world := {} }).world.journal.trace =
        [.message "hi".toList, .success]) := by
  decide +kernel

end Rollout
