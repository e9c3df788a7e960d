import Rollout.Proofs.TerminalEvents

namespace Rollout

open Text Script Interpreter

structure Activation where
  script : Text
  line : Text
  deriving DecidableEq, Repr

def Session.begin (s : Session) (a : Activation) : Session :=
  { s with
    script := some a.script
    line := some a.line
    world := { s.world with
      journal := s.world.journal ++
        [.log .debug .interpreter (a.script ++ ": ".toList ++ a.line)] } }

def Session.deepened (s : Session) : Session := { s with depth := s.depth + 1 }

def Session.announced (s : Session) (command : Command) (arguments : List Text) : Session :=
  { s with
    world := { s.world with
      journal := s.world.journal ++ [.log .debug .interpreter
        ("Built-in ".toList ++ command.name ++ [' '] ++ tupleLiteral arguments)] } }

def Session.raised (s : Session) : Session := { s with depth := s.depth - 1 }

variable {settings : Settings} {limit : Nat}

section

variable {α : Type} {step : α → Action Session Flow}

theorem untilExit_cons_of_next {a : α} {s s₁ : Session} (h : step a s = .ok .next s₁)
    (items : List α) : untilExit step (a :: items) s = untilExit step items s₁ := bind_of_ok h

theorem untilExit_cons_eq_next {a : α} {items : List α} {s s' : Session}
    (h : untilExit step (a :: items) s = .ok .next s') :
    ∃ s₁, step a s = .ok .next s₁ ∧ untilExit step items s₁ = .ok .next s' := by
  cases ha : step a s with
  | error e s₁ => exact absurd ((bind_of_error ha).symm.trans h) nofun
  | ok flow s₁ =>
    cases flow with
    | exit => exact absurd ((bind_of_ok ha).symm.trans h) nofun
    | next => exact ⟨s₁, rfl, (untilExit_cons_of_next ha items).symm.trans h⟩

theorem untilExit_append_eq_next {before items : List α} {s s' : Session}
    (h : untilExit step (before ++ items) s = .ok .next s') :
    ∃ s₁, untilExit step before s = .ok .next s₁ ∧ untilExit step items s₁ = .ok .next s' := by
  induction before generalizing s with
  | nil => exact ⟨s, rfl, h⟩
  | cons a before ih =>
    obtain ⟨s₁, ha, hrest⟩ := untilExit_cons_eq_next h
    obtain ⟨s₂, hbefore, hitems⟩ := ih hrest
    exact ⟨s₂, (untilExit_cons_of_next ha before).trans hbefore, hitems⟩

/-- All steps ask to go on, or one of them decides how the steps end. -/
theorem untilExit_cases (step : α → Action Session Flow) (items : List α) (s : Session) :
    (∃ s', untilExit step items s = .ok .next s') ∨
      ∃ before a after s₁, items = before ++ a :: after ∧
        untilExit step before s = .ok .next s₁ ∧ untilExit step items s = step a s₁ := by
  induction items generalizing s with
  | nil => exact .inl ⟨s, rfl⟩
  | cons a items ih =>
    cases ha : step a s with
    | error e s₁ =>
      exact .inr ⟨[], a, items, s, rfl, rfl, (bind_of_error ha).trans ha.symm⟩
    | ok flow s₁ =>
      cases flow with
      | exit => exact .inr ⟨[], a, items, s, rfl, rfl, (bind_of_ok ha).trans ha.symm⟩
      | next =>
        have hcons := untilExit_cons_of_next ha
        obtain ⟨s', h⟩ | ⟨before, b, after, s₂, rfl, hbefore, h⟩ := ih s₁
        · exact .inl ⟨s', (hcons items).trans h⟩
        · refine .inr ⟨a :: before, b, after, s₂, rfl, (hcons before).trans hbefore, ?_⟩
          exact (hcons _).trans h

def unlessExit (a b : Action Session Flow) : Action Session Flow := do
  match ← a with
  | .exit => pure .exit
  | .next => b

theorem untilExit_append (step : α → Action Session Flow) (xs ys : List α) (s : Session) :
    untilExit step (xs ++ ys) s = unlessExit (untilExit step xs) (untilExit step ys) s := by
  induction xs generalizing s with
  | nil => rfl
  | cons x xs ih =>
    cases h : step x s with
    | error e s₁ =>
      have hxs : untilExit step (x :: xs) s = .error e s₁ := bind_of_error h
      exact (bind_of_error h).trans (bind_of_error hxs).symm
    | ok flow s₁ =>
      cases flow with
      | exit =>
        have hxs : untilExit step (x :: xs) s = .ok .exit s₁ := bind_of_ok h
        have hleft : untilExit step (x :: xs ++ ys) s = .ok .exit s₁ := bind_of_ok h
        exact hleft.trans (Eq.symm (bind_of_ok hxs : unlessExit _ _ s = .ok .exit s₁))
      | next =>
        have hxs := untilExit_cons_of_next h xs
        exact (untilExit_cons_of_next h (xs ++ ys)).trans ((ih s₁).trans (bind_of_eq hxs _).symm)

theorem untilExit_append_of_next {step : α → Action Session Flow} {xs : List α} {s s₁ : Session}
    (h : untilExit step xs s = .ok .next s₁) (ys : List α) :
    untilExit step (xs ++ ys) s = untilExit step ys s₁ :=
  (untilExit_append step xs ys s).trans (bind_of_ok h)

theorem untilExit_singleton (step : α → Action Session Flow) (a : α) (s : Session) :
    untilExit step [a] s = step a s := by
  cases h : step a s with
  | error e s' => exact bind_of_error h
  | ok flow s' =>
    apply (bind_of_ok h).trans
    cases flow <;> rfl

end

section

variable {nested : Nested} {name : Text} {s : Session} {w : World}

theorem runLine_eq (nested : Nested) (a : Activation) (s : Session) :
    runLine settings nested a.script a.line s =
      executeLine settings nested (stripComment a.line) (s.begin a) := rfl

theorem execute_of_plain {arguments : List Text} {command : Command}
    {act : Settings → List Text → Action Session Flow} (head : headOf name = .builtin command)
    (plain : handlerOf command = .plain act) :
    execute settings nested (name :: arguments) s =
      act settings arguments (s.announced command arguments) := by
  rw [execute]
  simp only [head, plain]
  rfl

theorem execute_of_run {arguments : List Text} {command : Command}
    (head : headOf name = .builtin command) (run : handlerOf command = .run) :
    execute settings nested (name :: arguments) s =
      runNext nested arguments (s.announced command arguments) := by
  rw [execute]
  simp only [head, run]
  rfl

def executeRest (settings : Settings) (nested : Nested) (rest : List Text) (decision : Option Flow) :
    Action Session Flow :=
  match decision with
  | some flow => pure flow
  | none =>
    if rest.isEmpty then pure .next else descend nested fun _ below => execute settings below rest

theorem execute_of_condition {path : Text} {rest : List Text} {command : Command}
    {condition : Builtin.Condition} (head : headOf name = .builtin command)
    (conditional : handlerOf command = .condition condition) (path_ne : path ≠ []) :
    execute settings nested (name :: path :: rest) s =
      (condition.decide settings path >>= executeRest settings nested rest)
        (s.announced command (path :: rest)) := by
  rw [execute]
  simp only [head, conditional]
  exact bind_of_ok (require_of_ne_nil path_ne _ _ _)

theorem execute_of_holds {path : Text} {rest : List Text} {command : Command}
    {condition : Builtin.Condition} {s₁ : Session} (head : headOf name = .builtin command)
    (conditional : handlerOf command = .condition condition) (path_ne : path ≠ [])
    (holds : condition.decide settings path (s.announced command (path :: rest)) = .ok none s₁)
    (rest_ne : rest.isEmpty = false) :
    execute settings nested (name :: path :: rest) s =
      descend nested (fun _ below => execute settings below rest) s₁ := by
  rw [execute_of_condition head conditional path_ne, bind_of_ok holds, executeRest, rest_ne]
  rfl

theorem defers_of_condition {path : Text} {rest : List Text} {command : Command}
    {condition : Builtin.Condition} {s₁ s' : Session} {limit' : Nat} {names : List Text}
    (head : headOf name = .builtin command)
    (conditional : handlerOf command = .condition condition) (path_ne : path ≠ [])
    (holds : condition.decide settings path (s.announced command (path :: rest)) = .ok none s₁)
    (rest_ne : rest.isEmpty = false)
    (h : Defers limit (fun nested => execute settings nested rest) s₁ limit' names s') :
    Defers (limit + 1) (fun nested => execute settings nested (name :: path :: rest)) s limit'
      names s' :=
  h.down.of_eq fun _ => execute_of_holds head conditional path_ne holds rest_ne

theorem executeLine_of_command {line resolved : Text} {s₁ : Session}
    (ha : splitAssignment line = none) (hr : resolveMacros line s = .ok resolved s₁) :
    executeLine settings nested line s = execute settings nested (tokenize resolved) s₁ := by
  rw [executeLine, ha]
  exact bind_of_ok hr

theorem runScript_of_ok {t : Text} (h : settings.resources.readText name s.world = .ok t w) :
    runScript settings nested name s =
      untilExit (runLine settings nested name) (activeLines t) { s with world := w } :=
  bind_of_ok (attempt_onWorld_of_ok h)

theorem runScript_of_missing {missing : Text} {location : Option Text}
    (h : settings.resources.readText name s.world = .error (.missingResource missing location) w) :
    runScript settings nested name s =
      fail .fileNotFound (some (Fault.missingResource missing location).message) none
        { s with world := w } :=
  bind_of_ok (attempt_onWorld_of_error h)

theorem runScript_of_error {e : Fault} (h : settings.resources.readText name s.world = .error e w)
    (he : ∀ missing location, e ≠ .missingResource missing location) :
    runScript settings nested name s = .error e { s with world := w } := by
  apply (bind_of_ok (attempt_onWorld_of_error h)).trans
  cases e with
  | missingResource missing location => exact absurd rfl (he missing location)
  | _ => rfl

theorem runNamed_of_ne (h : name ≠ exitToken) :
    runNamed settings nested name = runScript settings nested (unquote name) := if_neg h

end

theorem runScripts_of_ok {names : List Text} {s t : Session} {flow : Flow}
    (h : untilExit (runNamed settings (levels settings limit)) names s.deepened = .ok flow t) :
    ∃ t', runScripts settings (limit + 1) names s = .ok flow t' ∧
      (t' = t.raised ∨ t' = t.raised.succeeded) := by
  have hdeeper : deeper (untilExit (runNamed settings (levels settings limit)) names) s =
      .ok flow t.raised := by
    rw [Session.deepened] at h
    simp only [deeper, h]
    rfl
  have hrun : runScripts settings (limit + 1) names s = _ :=
    (bind_of_ok hdeeper).trans (bind_of_ok (reportSuccess_eq _))
  split_ifs at hrun
  · exact ⟨_, hrun, .inr rfl⟩
  · exact ⟨_, hrun, .inl rfl⟩

theorem runScripts_of_error {names : List Text} {s t : Session} {e : Fault}
    (h : untilExit (runNamed settings (levels settings limit)) names s.deepened = .error e t) :
    runScripts settings (limit + 1) names s = .error e t.raised := by
  have hdeeper : deeper (untilExit (runNamed settings (levels settings limit)) names) s =
      .error e t.raised := by
    rw [Session.deepened] at h
    simp only [deeper, h]
    rfl
  exact bind_of_error hdeeper

/-- A script whose lines all succeed is a run that succeeds, and writes to the journal besides. -/
theorem run_of_lines {script text : Text} {s t : Session} {flow : Flow} (hne : script ≠ exitToken)
    (hread : settings.resources.readText (unquote script) s.world = .ok text s.world)
    (hlines : untilExit (runLine settings (levels settings limit) (unquote script))
      (activeLines text) s.renewed.deepened = .ok flow t)
    (hf : t.failed = false) (hs : t.status = .ok) :
    ∃ s' journal, run settings (limit + 1) [script] s = .ok true s' ∧
      s'.world = { t.world with journal } := by
  have hscript : runNamed settings (levels settings limit) script s.renewed.deepened =
      .ok flow t := by
    rw [runNamed_of_ne hne]
    exact (runScript_of_ok (s := s.renewed.deepened) hread).trans hlines
  have hscripts : untilExit (runNamed settings (levels settings limit)) [script]
      s.renewed.deepened = .ok flow t := by
    apply (bind_of_ok hscript).trans
    cases flow <;> rfl
  obtain ⟨t', hrun, ht⟩ := runScripts_of_ok hscripts
  have heq := run_eq settings (limit + 1) [script] s
  rw [hrun] at heq
  dsimp only at heq
  have htrue : (!t'.failed && decide (t'.status = .ok)) = true := by
    obtain rfl | rfl := ht <;> simp [Session.raised, Session.succeeded, hf, hs]
  rw [htrue] at heq
  refine ⟨t', t'.world.journal, heq, ?_⟩
  obtain rfl | rfl := ht <;> rfl

end Rollout
