import Rollout.Proofs.Delegation
import Rollout.Proofs.Resource
import Rollout.Proofs.Scripts

namespace Rollout

open Text Script Interpreter

def Activation.place (a : Activation) : Option Text × Option Text := (some a.script, some a.line)

def Session.place (s : Session) : Option Text × Option Text := (s.script, s.line)

def Diagnostics.place (d : Diagnostics) : Option Text × Option Text := (d.script, d.line)

def SamePlace (s s' : Session) : Prop := s'.place = s.place

instance : IsPreorder Session SamePlace where
  refl _ := rfl
  trans _ _ _ h h' := h'.trans h

theorem onWorld_samePlace {α : Type} (a : Action World α) : Obeys SamePlace (onWorld a) := by
  intro s
  unfold ObeysAt finalState onWorld
  cases a s.world <;> rfl

theorem fail_samePlace (flag : Flag) (message : Option Text) (exitCode : Option Int) :
    Obeys SamePlace (fail flag message exitCode) := by
  intro s
  unfold ObeysAt
  cases h : s.store.ignoreErrors with
  | true =>
    rw [finalState_of_ok (fail_of_ignoring h flag message exitCode)]
    rfl
  | false =>
    rw [finalState_of_ok (fail_of_strict h flag message exitCode)]
    rfl

theorem admits_samePlace : AdmitsStores SamePlace where
  world := onWorld_samePlace
  fail := fail_samePlace
  store _ _ := rfl

def Passes (settings : Settings) (limit : Nat) (names : List Text) (s s' : Session) : Prop :=
  untilExit (runNamed settings (levels settings limit)) names s = .ok .next s'

/-- While the scripts are run from `s`, the line of one of them begins, and the session is `s'`
then. -/
inductive Begins (settings : Settings) (limit : Nat) :
    (names : List Text) → (s : Session) → Activation → (s' : Session) → Prop
  | intro {before after linesBefore linesAfter : List Text} {name t line : Text}
      {s s₁ s₂ : Session} {w : World} (passes : Passes settings limit before s s₁)
      (notExit : name ≠ exitToken)
      (read : settings.resources.readText (unquote name) s₁.world = .ok t w)
      (lines : activeLines t = linesBefore ++ line :: linesAfter)
      (passed : untilExit (runLine settings (levels settings limit) (unquote name)) linesBefore
        { s₁ with world := w } = .ok .next s₂) :
      Begins settings limit (before ++ name :: after) s ⟨unquote name, line⟩
        (s₂.begin ⟨unquote name, line⟩)

def Calls (settings : Settings) (limit : Nat) (line : Text) (s : Session) (limit' : Nat)
    (names : List Text) (s' : Session) : Prop :=
  Defers limit (fun nested => executeLine settings nested (stripComment line)) s limit' names s'

/-- Running scripts comes to running others. The lines on the way have begun and not ended; the
innermost is the first. -/
inductive Course (settings : Settings) : (limit : Nat) → (names : List Text) → (s : Session) →
    (active : List Activation) → (limit' : Nat) → (names' : List Text) → (s' : Session) → Prop
  | here {limit : Nat} {names : List Text} {s : Session} :
      Course settings limit names s [] limit names s
  | call {limit limit₁ limit' : Nat} {names names₁ names' : List Text} {s s₁ s₂ s' : Session}
      {a : Activation} {active : List Activation}
      (begins : Begins settings limit names s.deepened a s₁)
      (calls : Calls settings limit a.line s₁ limit₁ names₁ s₂)
      (rest : Course settings limit₁ names₁ s₂ active limit' names' s') :
      Course settings (limit + 1) names s (active ++ [a]) limit' names' s'

inductive Begun (settings : Settings) : (limit : Nat) → (names : List Text) → (s : Session) →
    Activation → Prop
  | direct {limit : Nat} {names : List Text} {s s₁ : Session} {a : Activation}
      (begins : Begins settings limit names s a s₁) : Begun settings limit names s a
  | nested {limit limit₁ : Nat} {names names₁ : List Text} {s s₁ s₂ : Session}
      {a b : Activation} (begins : Begins settings limit names s b s₁)
      (calls : Calls settings limit b.line s₁ (limit₁ + 1) names₁ s₂)
      (begun : Begun settings limit₁ names₁ s₂.deepened a) :
      Begun settings limit names s a

variable {settings : Settings} {limit : Nat}

def IsForeign (e : Fault) : Prop := ∀ error, e ≠ .script error

theorem Resources.read_foreign (r : Resources) (name : Text) : Throws IsForeign (r.read name) := by
  intro w e w' h
  obtain (rfl | ⟨_, rfl⟩ | ⟨_, rfl⟩) | ⟨_, _, -, rfl⟩ := read_error h <;> rintro error ⟨⟩

theorem Resources.readText_foreign (r : Resources) (name : Text) :
    Throws IsForeign (r.readText name) := by
  intro w e w' h
  obtain ⟨_, rfl⟩ | hread := readText_error h
  · rintro error ⟨⟩
  · exact r.read_foreign name _ _ _ hread

theorem runScripts_place {names : List Text} {s t : Session} {flow : Flow}
    (h : untilExit (runNamed settings (levels settings limit)) names s.deepened = .ok flow t) :
    ∃ t', runScripts settings (limit + 1) names s = .ok flow t' ∧ t'.place = t.place ∧
      t'.failed = t.failed := by
  obtain ⟨t', hrun, ht⟩ := runScripts_of_ok h
  refine ⟨t', hrun, ?_⟩
  obtain rfl | rfl := ht <;> exact ⟨rfl, rfl⟩

theorem Begins.cons {name : Text} {names : List Text} {s s₁ s' : Session} {a : Activation}
    (h : runNamed settings (levels settings limit) name s = .ok .next s₁)
    (hb : Begins settings limit names s₁ a s') : Begins settings limit (name :: names) s a s' := by
  cases hb with
  | @intro before _ _ _ _ _ _ _ _ _ _ passes notExit read lines passed =>
    have hpasses : Passes settings limit (name :: before) s _ :=
      (untilExit_cons_of_next h before).trans passes
    exact .intro hpasses notExit read lines passed

theorem Begun.cons {name : Text} {names : List Text} {s s₁ : Session} {a : Activation}
    (h : runNamed settings (levels settings limit) name s = .ok .next s₁)
    (hb : Begun settings limit names s₁ a) : Begun settings limit (name :: names) s a := by
  cases hb with
  | direct begins => exact .direct (begins.cons h)
  | nested begins calls begun => exact .nested (begins.cons h) calls begun

theorem Begun.exists_begins {names : List Text} {s : Session} {a : Activation}
    (h : Begun settings limit names s a) : ∃ b s₁, Begins settings limit names s b s₁ := by
  cases h with
  | direct begins => exact ⟨_, _, begins⟩
  | nested begins _ _ => exact ⟨_, _, begins⟩

/-- A line that begins in a list of scripts begins in the first of them or after it. -/
theorem Begins.cons_cases {name : Text} {names : List Text} {s s' : Session} {a : Activation}
    (h : Begins settings limit (name :: names) s a s') :
    (∃ t w, settings.resources.readText (unquote name) s.world = .ok t w ∧ activeLines t ≠ []) ∨
      ∃ s₁, runNamed settings (levels settings limit) name s = .ok .next s₁ ∧
        Begins settings limit names s₁ a s' := by
  generalize hnames : name :: names = list at h
  cases h with
  | @intro before _ _ _ _ _ _ _ s₁ _ _ passes notExit read lines passed =>
    cases before with
    | nil =>
      obtain ⟨rfl, rfl⟩ := List.cons.inj hnames
      cases passes
      refine .inl ⟨_, _, read, ?_⟩
      rw [lines]
      exact List.append_ne_nil_of_right_ne_nil _ (List.cons_ne_nil _ _)
    | cons first before =>
      obtain ⟨rfl, rfl⟩ := List.cons.inj hnames
      obtain ⟨s₂, hfirst, hpasses⟩ := untilExit_cons_eq_next passes
      exact .inr ⟨s₂, hfirst, .intro hpasses notExit read lines passed⟩

def PlaceAfter (settings : Settings) (limit : Nat) (names : List Text) (s s' : Session) : Prop :=
  ((∀ a s₁, ¬ Begins settings limit names s a s₁) ∧ s'.place = s.place) ∨
    ∃ a, Begun settings limit names s a ∧ s'.place = a.place

/-- A line that ends, and asks to go on, leaves its own place or that of a line in the scripts it has
run. -/
theorem place_of_line {a : Activation} {names : List Text} {s s₁ s' : Session}
    (ih : ∀ l < limit, ∀ names s s', Passes settings l names s s' →
      PlaceAfter settings l names s s')
    (hb : Begins settings limit names s a (s₁.begin a))
    (h : runLine settings (levels settings limit) a.script a.line s₁ = .ok .next s') :
    ∃ b, Begun settings limit names s b ∧ s'.place = b.place := by
  rw [runLine_eq] at h
  cases executeLine_delegates admits_samePlace settings (stripComment a.line) limit
    (s₁.begin a) with
  | alone eq rel => exact ⟨a, .direct hb, (rel _ (length_levels settings limit)).of_ok h⟩
  | @scripts limit' names₁ s₂ calls rel =>
    rw [calls.eq_runScripts settings] at h
    cases limit' with
    | zero => exact absurd h nofun
    | succ limit' =>
      cases hscripts : untilExit (runNamed settings (levels settings limit')) names₁
          s₂.deepened with
      | error e t =>
        exact absurd ((runScripts_of_error hscripts).symm.trans h) nofun
      | ok flow t =>
        obtain ⟨t', hrun, hplace, -⟩ := runScripts_place hscripts
        cases hrun.symm.trans h
        obtain ⟨-, hsame⟩ | ⟨b, hbegun, hat⟩ :=
          ih limit' calls.within names₁ s₂.deepened t hscripts
        · exact ⟨a, .direct hb, hplace.trans (hsame.trans rel)⟩
        · exact ⟨b, .nested hb calls hbegun, hplace.trans hat⟩

/-- A script that ends, and asks to go on. -/
theorem place_of_script {name : Text} {s s' : Session}
    (ih : ∀ l < limit, ∀ names s s', Passes settings l names s s' →
      PlaceAfter settings l names s s')
    (h : runNamed settings (levels settings limit) name s = .ok .next s') (names : List Text) :
    (s'.place = s.place ∧
      ∀ t w, settings.resources.readText (unquote name) s.world = .ok t w → activeLines t = []) ∨
    ∃ a, Begun settings limit (name :: names) s a ∧ s'.place = a.place := by
  have hne : name ≠ exitToken := by
    rintro rfl
    exact absurd h nofun
  rw [runNamed_of_ne hne] at h
  cases hread : settings.resources.readText (unquote name) s.world with
  | error e w =>
    left
    refine ⟨?_, nofun⟩
    by_cases hm : ∃ missing location, e = .missingResource missing location
    · obtain ⟨missing, location, rfl⟩ := hm
      rw [runScript_of_missing hread] at h
      have hsame : SamePlace { s with world := w } s' := (fail_samePlace _ _ _ _).of_ok h
      exact hsame
    · rw [runScript_of_error hread fun missing location he => hm ⟨missing, location, he⟩] at h
      cases h
  | ok t w =>
    rw [runScript_of_ok hread] at h
    obtain hnil | ⟨lines, line, hlines⟩ := List.eq_nil_or_concat (activeLines t)
    · left
      rw [hnil] at h
      cases h
      refine ⟨rfl, fun t' w' ht => ?_⟩
      cases ht
      exact hnil
    · right
      rw [List.concat_eq_append] at hlines
      rw [hlines] at h
      obtain ⟨s₁, hbefore, hlast⟩ := untilExit_append_eq_next h
      obtain ⟨s₂, hline, hend⟩ := untilExit_cons_eq_next hlast
      cases hend
      have hpasses : Passes settings limit [] s s := rfl
      exact place_of_line ih (a := ⟨unquote name, line⟩)
        (.intro hpasses hne hread hlines hbefore) hline

theorem place_of_passes (limit : Nat) (names : List Text) (s s' : Session)
    (h : Passes settings limit names s s') : PlaceAfter settings limit names s s' := by
  induction limit using Nat.strongRecOn generalizing names s s' with
  | ind limit ih =>
    induction names generalizing s with
    | nil =>
      cases h
      refine .inl ⟨fun a s₁ hb => ?_, rfl⟩
      generalize hnames : [] = list at hb
      cases hb
      simp at hnames
    | cons name names ihn =>
      obtain ⟨s₁, hfirst, hrest⟩ := untilExit_cons_eq_next h
      obtain ⟨hquiet, hsame⟩ | ⟨a, hbegun, hat⟩ := ihn s₁ hrest
      · obtain ⟨hplace, hlines⟩ | ⟨a, hbegun, hat⟩ := place_of_script ih hfirst names
        · refine .inl ⟨fun a s₂ hb => ?_, hsame.trans hplace⟩
          obtain ⟨t, w, hread, hne⟩ | ⟨s₃, hnext, hb⟩ := hb.cons_cases
          · exact hne (hlines t w hread)
          · cases hfirst.symm.trans hnext
            exact hquiet a s₂ hb
        · exact .inr ⟨a, hbegun, hsame.trans hat⟩
      · exact .inr ⟨a, hbegun.cons hfirst, hat⟩

/-- The action ends in a failure, or in an error of a script. -/
inductive Stops (a : Action Session Flow) (s s' : Session) : Prop
  | failed {flow : Flow} (eq : a s = .ok flow s') (h : s'.failed = true)
  | thrown {e : ScriptError} (eq : a s = .error (.script e) s')

theorem Stops.of_eq {a b : Action Session Flow} {s t s' : Session} (h : Stops a s s')
    (heq : a s = b t) : Stops b t s' := by
  cases h with
  | failed eq h => exact .failed (heq.symm.trans eq) h
  | thrown eq => exact .thrown (heq.symm.trans eq)

theorem Stops.rel {S : Session → Session → Prop} {a : Action Session Flow} {s s' : Session}
    (h : Stops a s s') (ha : ObeysAt S a s) : S s s' := by
  cases h with
  | failed eq _ => exact ha.of_ok eq
  | thrown eq => exact ha.of_error eq

theorem Conducts.calm_of_next {a : Action Session Flow} (h : Conducts IsExit a) {s s' : Session}
    (hd : 0 < s.depth) (ha : a s = .ok .next s') : Calm s s' := by
  have hc := h s hd
  rw [ConductsAt, ha] at hc
  obtain hcalm | ⟨hexit, -⟩ := hc
  · exact hcalm
  · cases hexit

/-- Among steps one is stopped, after others that ask to go on. -/
theorem Stops.untilExit {α : Type} {step : α → Action Session Flow}
    {items : List α} {s s' : Session} (h : Stops (untilExit step items) s s')
    (hstep : ∀ a, Conducts IsExit (step a)) (hd : 0 < s.depth) (hf : s.failed = false) :
    ∃ before a after s₁, items = before ++ a :: after ∧
      Rollout.untilExit step before s = .ok .next s₁ ∧ Calm s s₁ ∧ Stops (step a) s₁ s' := by
  obtain ⟨s₁, hnext⟩ | ⟨before, a, after, s₁, hitems, hbefore, heq⟩ := untilExit_cases step items s
  · have hcalm := (untilExit_conducts hstep items).calm_of_next hd hnext
    cases h with
    | failed eq h =>
      cases hnext.symm.trans eq
      rw [hcalm.failed, hf] at h
      cases h
    | thrown eq => exact absurd (hnext.symm.trans eq) nofun
  · have hcalm := (untilExit_conducts hstep before).calm_of_next hd hbefore
    exact ⟨before, a, after, s₁, hitems, hbefore, hcalm, h.of_eq heq⟩

def LineFails (settings : Settings) (limit : Nat) (names : List Text) (s : Session)
    (a : Activation) : Prop :=
  ∃ s₁ s₂, Begins settings limit names s.deepened a s₁ ∧
    ∀ nested : Nested, nested.length = limit →
      Stops (executeLine settings nested (stripComment a.line)) s₁ s₂

def ScriptMissing (settings : Settings) (limit : Nat) (names : List Text) (s : Session)
    (before : List Text) : Prop :=
  ∃ name after s₁ missing location w, names = before ++ name :: after ∧ name ≠ exitToken ∧
    Passes settings limit before s.deepened s₁ ∧
    settings.resources.readText (unquote name) s₁.world =
      .error (.missingResource missing location) w

def innermost (outside : Option Text × Option Text) : List Activation → Option Text × Option Text
  | [] => outside
  | a :: _ => a.place

/-- A failure in the course of running scripts, and the place it is blamed on. -/
def Blames (settings : Settings) (limit : Nat) (names : List Text) (s : Session)
    (place : Option Text × Option Text) : Prop :=
  ∃ active limit' names' s', Course settings limit names s active (limit' + 1) names' s' ∧
    ((∃ a, LineFails settings limit' names' s' a ∧ place = innermost s.place (a :: active)) ∨
      ∃ before, ScriptMissing settings limit' names' s' before ∧
        (((∀ a, ¬ Begun settings limit' before s'.deepened a) ∧
            place = innermost s.place active) ∨
          ∃ a, Begun settings limit' before s'.deepened a ∧ place = a.place))

theorem innermost_concat (outside : Option Text × Option Text) (active : List Activation)
    (a : Activation) : innermost outside (active ++ [a]) = innermost a.place active := by
  cases active <;> rfl

theorem Blames.call {limit₁ : Nat} {names names₁ : List Text} {s s₁ s₂ : Session} {a : Activation}
    {place : Option Text × Option Text} (begins : Begins settings limit names s.deepened a s₁)
    (calls : Calls settings limit a.line s₁ limit₁ names₁ s₂) (hplace : s₂.place = a.place)
    (h : Blames settings limit₁ names₁ s₂ place) : Blames settings (limit + 1) names s place := by
  obtain ⟨active, limit', names', s', course, hfails⟩ := h
  refine ⟨active ++ [a], limit', names', s', .call begins calls course, ?_⟩
  rw [hplace] at hfails
  rw [innermost_concat]
  exact hfails

/-- The scripts to which a line hands over start after a calm time. -/
theorem Calls.calm {limit' : Nat} {line : Text} {s s' : Session} {names : List Text}
    (hd : 0 < s.depth) (h : Calls settings limit line s limit' names s') : Calm s s' := by
  let idle : Nested := List.replicate limit fun _ => pure .next
  have hquiet : ∀ run ∈ idle, ∀ names, Conducts IsExit (run names) := by
    intro run hrun names
    rw [List.eq_of_mem_replicate hrun]
    exact .of_calm (obeys_pure _)
  have hidle : idle.drop (limit - limit') = List.replicate limit' fun _ => pure .next := by
    rw [List.drop_replicate, Nat.sub_sub_self h.within]
  have hline : ConductsAt IsExit (executeLine settings idle (stripComment line)) s :=
    executeLine_conducts hquiet _ s hd
  rw [ConductsAt, h.eq idle List.length_replicate, hidle] at hline
  cases limit' with
  | zero => exact hline
  | succ limit' =>
    obtain hcalm | ⟨hexit, -⟩ := hline
    · exact hcalm
    · cases hexit

theorem Stops.of_runScripts {names : List Text} {s s' : Session}
    (h : Stops (runScripts settings (limit + 1) names) s s') :
    ∃ t, Stops (Rollout.untilExit (runNamed settings (levels settings limit)) names)
      s.deepened t ∧ s'.place = t.place := by
  cases hscripts : Rollout.untilExit (runNamed settings (levels settings limit)) names
      s.deepened with
  | ok flow t =>
    obtain ⟨t', hrun, hplace, hfailed⟩ := runScripts_place hscripts
    cases h with
    | failed eq h =>
      cases hrun.symm.trans eq
      exact ⟨t, .failed hscripts (hfailed.symm.trans h), hplace⟩
    | thrown eq => exact absurd (hrun.symm.trans eq) nofun
  | error e t =>
    have hrun := runScripts_of_error hscripts
    cases h with
    | failed eq h => exact absurd (hrun.symm.trans eq) nofun
    | thrown eq =>
      cases hrun.symm.trans eq
      exact ⟨t, .thrown hscripts, rfl⟩

theorem Blames.missing {names before after : List Text} {name missing : Text}
    {location : Option Text} {s s₁ t : Session} {w : World} (hnames : names = before ++ name :: after)
    (hne : name ≠ exitToken) (hpasses : Passes settings limit before s.deepened s₁)
    (hread : settings.resources.readText (unquote name) s₁.world =
      .error (.missingResource missing location) w) (hplace : t.place = s₁.place) :
    Blames settings (limit + 1) names s t.place := by
  refine ⟨[], limit, names, s, .here, .inr ⟨before, ?_, ?_⟩⟩
  · exact ⟨name, after, s₁, missing, location, w, hnames, hne, hpasses, hread⟩
  · obtain ⟨hquiet, hsame⟩ | ⟨a, hbegun, hat⟩ := place_of_passes limit before _ _ hpasses
    · refine .inl ⟨fun a hbegun => ?_, hplace.trans hsame⟩
      obtain ⟨b, s₂, hb⟩ := hbegun.exists_begins
      exact hquiet b s₂ hb
    · exact .inr ⟨a, hbegun, hplace.trans hat⟩

theorem Stops.blames (limit : Nat) {names : List Text} {s s' : Session} (hf : s.failed = false)
    (h : Stops (runScripts settings limit names) s s') :
    Blames settings limit names s s'.place := by
  induction limit using Nat.strongRecOn generalizing names s s' with
  | ind limit ih =>
    cases limit with
    | zero =>
      cases h with
      | failed eq _ => exact absurd eq nofun
      | thrown eq => exact absurd eq nofun
    | succ limit =>
      have hconducts := levels_conducts settings limit
      obtain ⟨t, ht, hplace⟩ := h.of_runScripts
      rw [hplace]
      -- the script at which the run is stopped
      obtain ⟨before, name, after, s₁, hnames, hpasses, hcalm, hname⟩ :=
        ht.untilExit (runNamed_conducts hconducts) (Nat.succ_pos _) hf
      have hf₁ : s₁.failed = false := hcalm.failed.trans hf
      have hd₁ : 0 < s₁.depth := by
        rw [hcalm.depth]
        exact Nat.succ_pos _
      have hne : name ≠ exitToken := by
        rintro rfl
        cases hname with
        | failed eq h =>
          cases eq
          rw [hf₁] at h
          cases h
        | thrown eq => cases eq
      rw [runNamed_of_ne hne] at hname
      cases hread : settings.resources.readText (unquote name) s₁.world with
      | error e w =>
        by_cases hm : ∃ missing location, e = .missingResource missing location
        · obtain ⟨missing, location, rfl⟩ := hm
          have hfail := hname.of_eq (runScript_of_missing hread)
          have hsame : SamePlace { s₁ with world := w } t := hfail.rel (fail_samePlace _ _ _ _)
          exact .missing hnames hne hpasses hread hsame
        · have heq : runScript settings (levels settings limit) (unquote name) s₁ = _ :=
            runScript_of_error hread fun missing location he => hm ⟨missing, location, he⟩
          cases hname with
          | failed eq _ => exact absurd (heq.symm.trans eq) nofun
          | thrown eq =>
            cases heq.symm.trans eq
            exact absurd rfl (settings.resources.readText_foreign _ _ _ _ hread _)
      | ok text w =>
        -- the line of the script at which it is stopped
        have hlines := hname.of_eq (runScript_of_ok hread)
        obtain ⟨linesBefore, line, linesAfter, s₂, heq, hpassed, hcalm₂, hline⟩ :=
          hlines.untilExit (runLine_conducts hconducts _) hd₁ hf₁
        let a : Activation := ⟨unquote name, line⟩
        have hbegins : Begins settings limit names s.deepened a (s₂.begin a) := by
          rw [hnames]
          exact .intro hpasses hne hread heq hpassed
        have hexecute := hline.of_eq (runLine_eq _ a s₂)
        cases executeLine_delegates admits_samePlace settings (stripComment line) limit
          (s₂.begin a) with
        | alone eq rel =>
          have hlength := length_levels settings limit
          have hfails : LineFails settings limit names s a :=
            ⟨s₂.begin a, t, hbegins, fun nested hn => hexecute.of_eq (eq _ nested hlength hn)⟩
          exact ⟨[], limit, names, s, .here, .inl ⟨a, hfails, hexecute.rel (rel _ hlength)⟩⟩
        | @scripts limit' names₁ s₃ calls rel =>
          have hscripts := hexecute.of_eq (calls.eq_runScripts settings)
          have hf₃ : s₃.failed = false := by
            have hd₂ : 0 < (s₂.begin a).depth := by
              change 0 < s₂.depth
              rw [hcalm₂.depth]
              exact hd₁
            rw [(Calls.calm hd₂ calls).failed]
            exact hcalm₂.failed.trans hf₁
          exact .call hbegins calls rel (ih limit' (Nat.lt_succ_of_le calls.within) hf₃ hscripts)

theorem Calm.not_mem_failure {s s₁ : Session} (hc : Calm s s₁) {es : Journal}
    (hj : s₁.world.journal = s.world.journal ++ es) (d : Diagnostics) : .failure d ∉ es := by
  obtain ⟨es', hj', hn, -⟩ := hc.entries
  obtain rfl := List.append_cancel_left (hj'.symm.trans hj)
  exact fun hd => Bool.noConfusion (hn _ hd)

theorem Calm.eq_of_told {s s₁ : Session} (hc : Calm s s₁) {level : Level} {t : Text}
    {event : Entry} {es : Journal} {d : Diagnostics}
    (hj : (s₁.world.told level t event).journal = s.world.journal ++ es)
    (hd : .failure d ∈ es) : event = .failure d := by
  obtain ⟨es', hj', hn, -⟩ := hc.entries
  rw [World.told, hj', List.append_assoc] at hj
  obtain rfl := List.append_cancel_left hj
  obtain hd | hd | hd | hd : .failure d ∈ es' ∨ Entry.failure d = .log level .interpreter t ∨
      .failure d = event ∨ False := by simpa using hd
  · exact Bool.noConfusion (hn _ hd)
  · cases hd
  · exact hd.symm
  · exact hd.elim

/-- Scripts end calmly, with or without success, by a halt, or calmly by a fault. -/
theorem runScripts_ends (settings : Settings) (limit : Nat) (names : List Text) {s : Session}
    (hf : s.failed = false) :
    (∃ flow s₁ s', Calm s s₁ ∧ (s' = s₁ ∨ s' = s₁.succeeded) ∧
      runScripts settings limit names s = .ok flow s') ∨
    (∃ flow s₁, Halts s s₁ ∧ runScripts settings limit names s = .ok flow s₁) ∨
    (∃ e s₁, Calm s s₁ ∧ runScripts settings limit names s = .error e s₁) := by
  obtain hd | hd := Nat.eq_zero_or_pos s.depth
  · obtain ⟨flow, s₁, hc, -, he⟩ | ⟨flow, s₁, hc, -, he⟩ | ⟨s₁, hh, he⟩ | ⟨e, s₁, hc, he⟩ :=
      runScripts_outermost settings limit names hd hf
    · exact .inl ⟨flow, s₁, _, hc, .inr rfl, he⟩
    · exact .inl ⟨flow, s₁, _, hc, .inl rfl, he⟩
    · exact .inr (.inl ⟨_, s₁, hh, he⟩)
    · exact .inr (.inr ⟨e, s₁, hc, he⟩)
  · have h : ConductsAt IsExit (runScripts settings limit names) s :=
      runScripts_conducts limit names s hd
    rw [ConductsAt] at h
    cases he : runScripts settings limit names s with
    | ok flow s₁ =>
      rw [he] at h
      obtain hc | ⟨-, hh⟩ := h
      · exact .inl ⟨flow, s₁, _, hc, .inl rfl, rfl⟩
      · exact .inr (.inl ⟨flow, s₁, hh, rfl⟩)
    | error e s₁ =>
      rw [he] at h
      exact .inr (.inr ⟨e, s₁, h, rfl⟩)

/-- A run that tells of a failure has been stopped, at the place that the failure names. -/
theorem stops_of_failure {names : List Text} {s : Session} {es : Journal} {d : Diagnostics}
    (hj : (finalState (run settings limit names) s).world.journal = s.world.journal ++ es)
    (hd : .failure d ∈ es) :
    ∃ s', Stops (runScripts settings limit names) s.renewed s' ∧ d.place = s'.place := by
  have hrun := run_eq settings limit names s
  obtain ⟨flow, s₁, s', hc, hs', he⟩ | ⟨flow, s', ⟨s₁, flag, message, exitCode, hc, -, rfl⟩, he⟩ |
    ⟨e, s₁, hc, he⟩ := runScripts_ends settings limit names (s := s.renewed) rfl
  · rw [he] at hrun
    rw [finalState_of_ok hrun] at hj
    obtain rfl | rfl := hs'
    · exact (hc.not_mem_failure hj d hd).elim
    · exact absurd (hc.eq_of_told hj hd) nofun
  · rw [he] at hrun
    rw [finalState_of_ok hrun] at hj
    obtain rfl := Entry.failure.inj (hc.eq_of_told hj hd)
    exact ⟨_, .failed he rfl, rfl⟩
  · by_cases hscript : ∃ error, e = .script error
    · obtain ⟨error, rfl⟩ := hscript
      rw [he] at hrun
      rw [finalState_of_ok hrun] at hj
      obtain rfl := Entry.failure.inj (hc.eq_of_told hj hd)
      exact ⟨s₁, .thrown he, rfl⟩
    · have hfault : run settings limit names s = .error e s₁ := by
        rw [hrun, he]
        cases e with
        | script error => exact absurd ⟨error, rfl⟩ hscript
        | _ => rfl
      rw [finalState_of_error hfault] at hj
      exact (hc.not_mem_failure hj d hd).elim

/-- The line that a failure names. In the course of the run, with the lines `active` begun and not
ended, a line fails by itself, and is named: it is the innermost. Or a script is missing. As long as
no line has begun in the scripts before it in the same list, the innermost line is named, and none
if there is none. Otherwise a line is named that has begun in one of those scripts, and they have
all ended. -/
theorem failure_names_line (settings : Settings) (limit : Nat) (names : List Text) (s : Session)
    {es : Journal} {d : Diagnostics}
    (hj : (finalState (run settings limit names) s).world.journal = s.world.journal ++ es)
    (hd : .failure d ∈ es) :
    ∃ active limit' names' s',
      Course settings limit names s.renewed active (limit' + 1) names' s' ∧
      ((∃ a, LineFails settings limit' names' s' a ∧
          d.place = innermost (none, none) (a :: active)) ∨
        ∃ before, ScriptMissing settings limit' names' s' before ∧
          (((∀ a, ¬ Begun settings limit' before s'.deepened a) ∧
              d.place = innermost (none, none) active) ∨
            ∃ a, Begun settings limit' before s'.deepened a ∧ d.place = a.place)) := by
  obtain ⟨s', hstops, hplace⟩ := stops_of_failure hj hd
  rw [hplace]
  exact hstops.blames limit rfl

def relay : Settings where
  resources := .memory
    [("main".toList, Utf8.encode "Run a missing".toList),
      ("a".toList, Utf8.encode "Message hi".toList)]
  version := [1]
  directory := ['/']

def relayFailure : Diagnostics where
  script := some "a".toList
  line := some "Message hi".toList
  status := .ofFlag .fileNotFound
  message := some "Resource 'missing' not found in <memory>".toList

theorem failure_names_line_relay :
    .failure relayFailure ∈
        (finalState (run relay 3 ["main".toList]) { world := {} }).world.journal ∧
      ∃ active limit' names' s', Course relay 3 ["main".toList] { world := {} } active (limit' + 1)
        names' s' ∧
        ((∃ a, LineFails relay limit' names' s' a ∧
            relayFailure.place = innermost (none, none) (a :: active)) ∨
          ∃ before, ScriptMissing relay limit' names' s' before ∧
            (((∀ a, ¬ Begun relay limit' before s'.deepened a) ∧
                relayFailure.place = innermost (none, none) active) ∨
              ∃ a, Begun relay limit' before s'.deepened a ∧ relayFailure.place = a.place)) := by
  have hd : .failure relayFailure ∈
      (finalState (run relay 3 ["main".toList]) { world := {} }).world.journal := by decide +kernel
  exact ⟨hd, failure_names_line relay 3 ["main".toList] { world := {} }
    (List.nil_append _).symm hd⟩

theorem calls_of_run {line resolved name : Text} {arguments : List Text} {s s₁ : Session}
    (ha : splitAssignment (stripComment line) = none)
    (hr : resolveMacros (stripComment line) s = .ok resolved s₁)
    (ht : tokenize resolved = name :: arguments) (hh : headOf name = .builtin .run) :
    Calls settings limit line s limit arguments (s₁.announced .run arguments) := by
  refine ⟨Nat.le_refl limit, fun nested _ => ?_⟩
  rw [executeLine_of_command ha hr, ht, execute_of_run hh rfl, Nat.sub_self]
  rfl

def asksOn (a : Action Session Flow) (s : Session) : Bool :=
  match a s with
  | .ok .next _ => true
  | _ => false

theorem eq_of_asksOn {a : Action Session Flow} {s : Session} (h : asksOn a s = true) :
    a s = .ok .next (finalState a s) := by
  unfold asksOn at h
  unfold finalState
  split at h
  · next heq => rw [heq]
  · cases h

theorem relay_missing {limit : Nat} {s : Session}
    (h : asksOn (untilExit (runNamed relay (levels relay limit)) ["a".toList]) s.deepened) :
    ScriptMissing relay limit ["a".toList, "missing".toList] s ["a".toList] :=
  ⟨"missing".toList, [], _, "missing".toList, some "<memory>".toList, _, rfl, by decide,
    eq_of_asksOn h, rfl⟩

/-- The missing script is looked up while the line `Run a missing` is executed, and while no line is.
In both cases the line of the other script is named, which has ended. -/
theorem failure_names_ended_line :
    (.failure relayFailure ∈
        (finalState (run relay 3 ["main".toList]) { world := {} }).world.journal ∧
      ∃ s', Course relay 3 ["main".toList] { world := {} }
          [⟨"main".toList, "Run a missing".toList⟩] 2 ["a".toList, "missing".toList] s' ∧
        ScriptMissing relay 1 ["a".toList, "missing".toList] s' ["a".toList] ∧
        relayFailure.place ≠
          innermost (none, none) [⟨"main".toList, "Run a missing".toList⟩]) ∧
    (.failure relayFailure ∈
        (finalState (run relay 3 ["a".toList, "missing".toList]) { world := {} }).world.journal ∧
      ScriptMissing relay 2 ["a".toList, "missing".toList] { world := {} } ["a".toList] ∧
      relayFailure.place ≠ innermost (none, none) []) := by
  let a : Activation := ⟨"main".toList, "Run a missing".toList⟩
  let s₁ := (Session.deepened { world := {} }).begin a
  have hread : relay.resources.readText (unquote "main".toList) {} = .ok a.line {} := rfl
  have hlines : activeLines a.line = [] ++ a.line :: [] := rfl
  have hpasses (s : Session) : Passes relay 2 [] s s := rfl
  have hbegins : Begins relay 2 ["main".toList] (Session.deepened { world := {} }) a s₁ :=
    .intro (hpasses _) (by decide) hread hlines rfl
  have hmacros : resolveMacros (stripComment a.line) s₁ = .ok a.line s₁ := rfl
  have hcalls : Calls relay 2 a.line s₁ 2 ["a".toList, "missing".toList] _ :=
    calls_of_run (by decide) hmacros (by decide : tokenize a.line = "Run".toList :: _) (by decide)
  refine ⟨⟨by decide +kernel, _, .call hbegins hcalls .here, ?_, by decide⟩, by decide +kernel, ?_,
    by decide⟩
  · exact relay_missing (by decide +kernel)
  · exact relay_missing (by decide +kernel)

end Rollout
