import Rollout.Proofs.LineRequests

namespace Rollout

open Text Script Interpreter

inductive Job
  | script (name : Text)
  | line (text : Text)
  deriving DecidableEq, Repr

def Job.step (settings : Settings) (nested : Nested) : Job → Action Session Flow
  | script name => runScript settings nested name
  | line text => executeLine settings nested text

inductive Job.Asks (settings : Settings) (limit : Nat) : Job → Session → Request → Session → Prop
  | script {name : Text} {s : Session} : Job.Asks settings limit (.script name) s (.script name) s
  | value {text left right name : Text} {s : Session}
      (assignment : splitAssignment text = some (left, right)) (named : macroName left = some name) :
      Job.Asks settings limit (.line text) s (.resolving right) s
  | macros {text : Text} {s : Session} (command : splitAssignment text = none) :
      Job.Asks settings limit (.line text) s (.resolving text) s
  | line {text resolved : Text} {s s₁ s₂ : Session} {q : Request}
      (command : splitAssignment text = none) (resolves : resolveMacros text s = .ok resolved s₁)
      (asks : TokensAsk settings limit (tokenize resolved) s₁ q s₂) :
      Job.Asks settings limit (.line text) s q s₂

/-- While scripts are run from `s`, they come to a job in `s'`, with `limit'` levels left for it. -/
inductive ComesTo (settings : Settings) (limit : Nat) (names : List Text) (s : Session) :
    Job → (limit' : Nat) → (s' : Session) → Prop
  | script {limit' : Nat} {name : Text} {before after names' : List Text}
      {active : List Activation} {s' s₁ : Session}
      (course : Course settings limit names s active (limit' + 1) names' s')
      (listed : names' = before ++ name :: after) (notExit : name ≠ exitToken)
      (passes : Passes settings limit' before s'.deepened s₁) :
      ComesTo settings limit names s (.script (unquote name)) limit' s₁
  | line {limit' : Nat} {names' : List Text} {active : List Activation} {a : Activation}
      {s' s₁ : Session} (course : Course settings limit names s active (limit' + 1) names' s')
      (begins : Begins settings limit' names' s'.deepened a s₁) :
      ComesTo settings limit names s (.line (stripComment a.line)) limit' s₁

section

variable {settings : Settings} {limit limit' : Nat} {names : List Text} {nested : Nested}
  {s s₀ s₁ s' : Session} {job : Job} {q : Request} {e : Fault} {w : World}

/-- A refusal during a job is recorded or let out, and nothing of the job but what comes after the
request is left to be done. -/
theorem Job.Asks.answered (h : job.Asks settings limit s q s₁) (hn : nested.length = limit)
    (hm : q.Meets settings s₁ e w) (he : e.isRefusal = true) :
    job.step settings nested s = q.answered settings e { s₁ with world := w } := by
  cases h with
  | script =>
    apply (bind_of_ok (attempt_onWorld_of_error hm)).trans
    cases e with
    | missingResource missing location => exact (unlessExit_next _ _).symm
    | _ => rfl
  | @value text left right name _ assignment named =>
    have hresolve : resolveMacros right s = .error e { s with world := w } := onWorld_of_error hm
    have hassign : executeAssignment left right s = .error e { s with world := w } := by
      rw [executeAssignment, named]
      exact bind_of_error (bind_of_error hresolve)
    rw [Job.step, executeLine, assignment]
    exact bind_of_error hassign
  | @macros text _ command =>
    have hresolve : resolveMacros text s = .error e { s with world := w } := onWorld_of_error hm
    rw [Job.step, executeLine, command]
    exact bind_of_error hresolve
  | line command resolves asks =>
    rw [Job.step, executeLine, command]
    exact (bind_of_ok resolves).trans (asks.answered hn hm he)

theorem resolving_fails {text : Text} (h : resolveMacros text s = .error e s') :
    (Request.resolving text).Fails settings s e := by
  obtain ⟨w, hw, -⟩ := onWorld_eq_error (a := resolve s.store Derived.lookup text) h
  exact ⟨by cases e <;> rfl, w, hw⟩

/-- An assignment ends early by itself, or when the value has no resolution. What has been assigned
can be looked up. -/
theorem executeAssignment_error {left right : Text}
    (h : executeAssignment left right s = .error e s') :
    Internal e ∨ ∃ name, macroName left = some name ∧
      (Request.resolving right).Fails settings s e := by
  unfold executeAssignment at h
  cases named : macroName left with
  | none =>
    rw [named] at h
    exact .inl (throw_located_throws _ _ _ _ h)
  | some name =>
    rw [named] at h
    obtain hassign | ⟨⟨⟩, s₁, hassign, hrest⟩ := bind_eq_error.mp h
    · obtain hresolve | ⟨value, s₁, -, hstore⟩ := bind_eq_error.mp hassign
      · exact .inr ⟨name, rfl, resolving_fails hresolve⟩
      · rw [get_bind] at hstore
        cases hset : s₁.store.assign name value with
        | ok store =>
          rw [hset] at hstore
          cases hstore
        | error error =>
          rw [hset] at hstore
          cases hstore
          exact .inl rfl
    · obtain ⟨value, s₂, -, hset⟩ := bind_eq_ok.mp hassign
      rw [get_bind] at hset hrest
      obtain hvalue | ⟨_, _, -, hsay⟩ := bind_eq_error.mp hrest
      · have hvariable : ∃ v, Variable.ofName? name = some v := by
          rw [Variables.assign] at hset
          cases hname : Variable.ofName? name with
          | some v => exact ⟨v, rfl⟩
          | none =>
            rw [hname] at hset
            cases hset
        obtain ⟨v, hv⟩ := hvariable
        obtain ⟨w, hw, -⟩ := onWorld_eq_error hvalue
        have hpure : ∃ x, valueOf s₁.store Derived.lookup name = pure x := by
          unfold valueOf
          rw [hv]
          split
          · exact ⟨_, rfl⟩
          · exact ⟨_, rfl⟩
        obtain ⟨x, hx⟩ := hpure
        rw [hx] at hw
        cases hw
      · cases hsay

theorem executeLine_error {line : Text} (hn : nested.length = limit)
    (h : executeLine settings nested line s = .error e s') :
    Internal e ∨ (∃ q s₁, (Job.line line).Asks settings limit s q s₁ ∧ q.Fails settings s₁ e) ∨
      ∃ limit' names s₁,
        Defers limit (fun nested => executeLine settings nested line) s limit' names s₁ := by
  cases command : splitAssignment line with
  | some sides =>
    obtain ⟨left, right⟩ := sides
    rw [executeLine, command] at h
    obtain hassign | ⟨_, _, -, hpure⟩ := bind_eq_error.mp h
    · obtain hinternal | ⟨name, named, fails⟩ :=
        @executeAssignment_error settings _ _ _ _ _ hassign
      · exact .inl hinternal
      · exact .inr (.inl ⟨_, s, .value command named, fails⟩)
    · cases hpure
  | none =>
    rw [executeLine, command] at h
    cases resolves : resolveMacros line s with
    | error e₁ s₁ =>
      cases (bind_of_error resolves).symm.trans h
      exact .inr (.inl ⟨_, s, .macros command, resolving_fails resolves⟩)
    | ok resolved s₁ =>
      obtain hinternal | ⟨q, s₂, asks, fails⟩ | ⟨limit', names, s₂, defers⟩ :=
        execute_error (tokenize_ne_nil resolved) hn ((bind_of_ok resolves).symm.trans h)
      · exact .inl hinternal
      · exact .inr (.inl ⟨q, s₂, .line command resolves asks, fails⟩)
      · exact .inr (.inr ⟨limit', names, s₂,
          defers.of_eq fun nested => executeLine_of_command command resolves⟩)

theorem ComesTo.call {limit₁ : Nat} {names₁ : List Text} {s₂ : Session} {a : Activation}
    (begins : Begins settings limit names s.deepened a s₁)
    (calls : Calls settings limit a.line s₁ limit₁ names₁ s₂)
    (h : ComesTo settings limit₁ names₁ s₂ job limit' s') :
    ComesTo settings (limit + 1) names s job limit' s' := by
  cases h with
  | script course listed notExit passes =>
    exact .script (.call begins calls course) listed notExit passes
  | line course begins' => exact .line (.call begins calls course) begins'

/-- Scripts end early by themselves, or by a request of a job that they come to. -/
theorem runScripts_error (limit : Nat) {names : List Text} {s : Session}
    (h : runScripts settings limit names s = .error e s') :
    Internal e ∨ ∃ job limit' s₀ q s₁, ComesTo settings limit names s job limit' s₀ ∧
      job.Asks settings limit' s₀ q s₁ ∧ q.Fails settings s₁ e := by
  induction limit using Nat.strongRecOn generalizing names s s' with
  | ind limit ih =>
    cases limit with
    | zero =>
      cases h
      exact .inl rfl
    | succ limit =>
      rw [runScripts_eq] at h
      cases hnames : untilExit (runNamed settings (levels settings limit)) names s.deepened with
      | ok flow t =>
        rw [hnames] at h
        cases h
      | error e₁ t =>
        rw [hnames] at h
        cases h
        obtain ⟨t, hnext⟩ | ⟨before, name, after, s₁, rfl, hpasses, hname⟩ :=
          untilExit_cases (runNamed settings (levels settings limit)) names s.deepened
        · cases hnames.symm.trans hnext
        replace hname := hname.symm.trans hnames
        by_cases hne : name = exitToken
        · rw [runNamed, if_pos hne] at hname
          cases hname
        rw [runNamed_of_ne hne] at hname
        cases hread : settings.resources.readText (unquote name) s₁.world with
        | error e₂ w =>
          -- the script itself cannot be read
          refine .inr ⟨_, _, _, _, _, .script .here rfl hne hpasses, .script, ?_⟩
          replace hname := (bind_of_ok (attempt_onWorld_of_error hread)).symm.trans hname
          cases e₂ with
          | missingResource missing location => exact absurd hname (fail_ne_error _ _ _)
          | _ =>
            cases hname
            exact ⟨rfl, w, hread⟩
        | ok text w =>
          rw [runScript_of_ok hread] at hname
          obtain ⟨t, hnext⟩ | ⟨linesBefore, line, linesAfter, s₂, hlines, hpassed, hline⟩ :=
            untilExit_cases (runLine settings (levels settings limit) (unquote name))
              (activeLines text) { s₁ with world := w }
          · cases hname.symm.trans hnext
          have begins : Begins settings limit (before ++ name :: after) s.deepened
              ⟨unquote name, line⟩ (s₂.begin ⟨unquote name, line⟩) :=
            .intro hpasses hne hread hlines hpassed
          replace hline := hline.symm.trans hname
          rw [runLine_eq _ ⟨unquote name, line⟩] at hline
          obtain hinternal | ⟨q, s₃, asks, fails⟩ | ⟨limit₁, names₁, s₃, calls⟩ :=
            executeLine_error (length_levels settings limit) hline
          · exact .inl hinternal
          · exact .inr ⟨_, _, _, q, s₃, .line .here begins, asks, fails⟩
          · -- the line runs scripts, and one of their jobs is at fault
            rw [calls.eq_runScripts settings] at hline
            refine (ih limit₁ (Nat.lt_succ_of_le calls.within) hline).imp_right ?_
            rintro ⟨job, limit', s₀, q, s₄, comesTo, asks, fails⟩
            exact ⟨job, limit', s₀, q, s₄, .call begins calls comesTo, asks, fails⟩

/-- A job that does not ask to go on ends all that has begun. -/
theorem ComesTo.final {r : EStateM.Result Fault Session Flow}
    (h : ComesTo settings limit names s job limit' s₀)
    (hr : ∀ nested : Nested, nested.length = limit' → job.step settings nested s₀ = r)
    (hfinal : Final r) :
    ∃ k n, limit = k + 1 ∧
      untilExit (runNamed settings (levels settings k)) names s.deepened =
        mapEnd (Session.lifted n) r := by
  have hr := hr _ (length_levels settings limit')
  cases h with
  | line course begins => exact course.final rfl (begins.final hr hfinal) hfinal
  | @script _ name _ _ _ _ _ _ course listed notExit passes =>
    have hname : runNamed settings (levels settings limit') name s₀ = r :=
      (congrFun (runNamed_of_ne notExit) s₀).trans hr
    refine course.final rfl ?_ hfinal
    rw [listed, untilExit_final passes, hname]
    rw [hname]
    exact hfinal

end

def Session.passedOver (s : Session) (flag : Flag) : Session :=
  { s with
    status := s.status.add flag
    world := { s.world with journal := s.world.journal ++ [s.warning flag] } }

section

variable {settings : Settings} {limit limit' : Nat} {names : List Text} {s s₀ s₁ : Session}
  {job : Job} {q : Request} {e : Fault} {w : World} {flag : Flag}

theorem runScripts_of_run_error {s' : Session} (h : run settings limit names s = .error e s') :
    ∃ t, runScripts settings limit names s.renewed = .error e t := by
  rw [run_eq] at h
  cases hscripts : runScripts settings limit names s.renewed with
  | ok flow t =>
    rw [hscripts] at h
    cases h
  | error e₁ t =>
    rw [hscripts] at h
    cases e₁ <;> cases h <;> exact ⟨_, rfl⟩

end

end Rollout
