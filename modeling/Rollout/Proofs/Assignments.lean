import Mathlib.Logic.Function.Basic
import Rollout.Proofs.Executions
import Rollout.Proofs.PlainLine

namespace Rollout

open Text Script Interpreter

inductive Value
  | text (t : Text)
  | flag (b : Bool)
  | number (n : Int)
  deriving DecidableEq, Repr

def Script.Variables.value (vs : Variables) : Variable → Value
  | .source => .text vs.source
  | .target => .text vs.target
  | .ignoreErrors => .flag vs.ignoreErrors
  | .redirectOutput => .flag vs.redirectOutput
  | .processTimeout => .number vs.processTimeout

/-- A text read as a value of the variable's type, if it can be read so. -/
def Script.Variable.read? (v : Variable) (t : Text) : Option Value :=
  match v with
  | .source | .target => some (.text t)
  | .ignoreErrors | .redirectOutput => some (.flag (toBool t))
  | .processTimeout => (toInt t).toOption.map .number

theorem Script.Variables.value_injective : Function.Injective Variables.value := by
  intro vs vs' h
  have hsource := congrFun h .source
  have htarget := congrFun h .target
  have hignore := congrFun h .ignoreErrors
  have hredirect := congrFun h .redirectOutput
  have htimeout := congrFun h .processTimeout
  obtain ⟨source, target, ignoreErrors, redirectOutput, processTimeout⟩ := vs
  cases hsource
  cases htarget
  cases hignore
  cases hredirect
  cases htimeout
  rfl

/-- A text that can be read as a value of the variable is assigned to it, and to it alone. -/
theorem set_of_read? {v : Variable} {t : Text} {value : Value} (h : v.read? t = some value)
    (vs : Variables) :
    ∃ vs', vs.set v t = .ok vs' ∧ vs'.value = Function.update vs.value v value := by
  cases v with
  | processTimeout =>
    unfold Variable.read? at h
    cases ht : toInt t with
    | error e => simp [ht, Except.toOption] at h
    | ok n =>
      obtain rfl : .number n = value := by simpa [ht, Except.toOption] using h
      refine ⟨{ vs with processTimeout := n }, by simp [Variables.set, ht], ?_⟩
      funext w
      cases w <;> rfl
  | _ =>
    cases h
    refine ⟨_, rfl, ?_⟩
    funext w
    cases w <;> rfl

theorem set_of_read?_none {v : Variable} {t : Text} (h : v.read? t = none) (vs : Variables) :
    ∃ e, vs.set v t = .error e := by
  cases v with
  | processTimeout =>
    unfold Variable.read? at h
    cases ht : toInt t with
    | error e => exact ⟨e, by simp [Variables.set, ht]⟩
    | ok n => simp [ht, Except.toOption] at h
  | _ => cases h

/-- What an assignment assigns, if it succeeds: the left side is the macro of a variable, the right
side resolves, and the text can be read as a value of the variable. -/
def assigned? (left right : Text) (s : Session) : Option (Variable × Value) :=
  match (macroName left).bind Variable.ofName?, resolveMacros right s with
  | some v, .ok t _ => (v.read? t).map (v, ·)
  | _, _ => none

def Execution.assigned? (x : Execution) : Option (Variable × Value) :=
  (splitAssignment (stripComment x.line)).bind fun (left, right) =>
    Rollout.assigned? left right x.session

def SameStore (s s' : Session) : Prop := s'.store = s.store

instance : IsPreorder Session SameStore where
  refl _ := rfl
  trans _ _ _ h h' := h'.trans h

theorem onWorld_sameStore {α : Type} (a : Action World α) : Obeys SameStore (onWorld a) := by
  intro s
  unfold ObeysAt finalState onWorld
  cases a s.world <;> rfl

theorem fail_sameStore (flag : Flag) (message : Option Text) (exitCode : Option Int) :
    Obeys SameStore (fail flag message exitCode) := by
  intro s
  unfold ObeysAt
  cases h : s.store.ignoreErrors with
  | true =>
    rw [finalState_of_ok (fail_of_ignoring h flag message exitCode)]
    rfl
  | false =>
    rw [finalState_of_ok (fail_of_strict h flag message exitCode)]
    rfl

theorem admits_sameStore : Admits SameStore := ⟨onWorld_sameStore, fail_sameStore⟩

theorem command_delegates (settings : Settings) {line : Text} (h : splitAssignment line = none)
    (limit : Nat) (s : Session) :
    Delegates SameStore limit (fun nested => executeLine settings nested line) s := by
  unfold executeLine
  rw [h]
  exact (admits_sameStore.resolveMacros line).bind_delegates
    (fun resolved s => execute_delegates admits_sameStore settings (tokenize resolved) limit s) s

def AssignmentEnds (left right : Text) (s : Session) : EStateM.Result Fault Session Unit → Prop
  | .ok _ s' => ∃ v value, assigned? left right s = some (v, value) ∧
      s'.store.value = Function.update s.store.value v value
  | .error _ s' => assigned? left right s = none ∧ s'.store = s.store

theorem executeAssignment_ends (left right : Text) (s : Session) :
    AssignmentEnds left right s (executeAssignment left right s) := by
  cases hname : macroName left with
  | none =>
    rw [executeAssignment, hname]
    exact ⟨by simp [assigned?, hname], rfl⟩
  | some name =>
    have hassign {e : Fault} {s₁ : Session} (h : assign name right s = .error e s₁) :
        executeAssignment left right s = .error e s₁ := by
      rw [executeAssignment, hname]
      exact bind_of_error h
    have hstore := admits_sameStore.resolveMacros right s
    cases hr : resolveMacros right s with
    | error e s₁ =>
      rw [hassign (bind_of_error hr)]
      exact ⟨by simp [assigned?, hr], hstore.of_error hr⟩
    | ok t s₁ =>
      have hs₁ : s₁.store = s.store := hstore.of_ok hr
      cases hv : Variable.ofName? name with
      | none =>
        have h : assign name right s = .error (.script { cause := .undefinedVariable name }) s₁ := by
          rw [assign, bind_of_ok hr, get_bind, Variables.assign, hv]
          rfl
        rw [hassign h]
        exact ⟨by simp [assigned?, hname, hv], hs₁⟩
      | some v =>
        obtain rfl : v.name = name := by simpa using List.find?_some hv
        cases hread : v.read? t with
        | none =>
          obtain ⟨e, hset⟩ := set_of_read?_none hread s₁.store
          have h : assign v.name right s = .error (.script e) s₁ := by
            rw [assign, bind_of_ok hr, get_bind, Variables.assign, hv]
            dsimp only
            rw [hset]
            rfl
          rw [hassign h]
          exact ⟨by simp [assigned?, hname, hv, hr, hread], hs₁⟩
        | some value =>
          obtain ⟨vs, hset, hvs⟩ := set_of_read? hread s₁.store
          have h : assign v.name right s = .ok () { s₁ with store := vs } := by
            rw [assign, bind_of_ok hr, get_bind, Variables.assign, hv]
            dsimp only
            rw [hset]
            rfl
          obtain ⟨journal, hdone⟩ := executeAssignment_of_assign hname h
          rw [hdone]
          refine ⟨v, value, by simp [assigned?, hname, hv, hr, hread], ?_⟩
          rw [← hs₁]
          exact hvs

def assignedBy (values : Variable → Value) (xs : List Execution) : Variable → Value :=
  (xs.filterMap Execution.assigned?).foldl (fun values a => Function.update values a.1 a.2) values

theorem assignedBy_append (values : Variable → Value) (xs ys : List Execution) :
    assignedBy values (xs ++ ys) = assignedBy (assignedBy values xs) ys := by
  simp only [assignedBy, List.filterMap_append, List.foldl_append]

theorem assignedBy_cons_none {x : Execution} (h : x.assigned? = none) (values : Variable → Value)
    (xs : List Execution) : assignedBy values (x :: xs) = assignedBy values xs := by
  rw [assignedBy, List.filterMap_cons_none h]
  rfl

/-- The action changes the variables by the assignments among the lines. -/
def Accounts (a : Action Session Flow) (s : Session) (xs : List Execution) : Prop :=
  (finalState a s).store.value = assignedBy s.store.value xs

theorem accounts_untilExit {α : Type} {step : α → Action Session Flow}
    {list : α → Session → List Execution} (h : ∀ a s, Accounts (step a) s (list a s))
    (items : List α) (s : Session) :
    Accounts (untilExit step items) s (along step list items s) := by
  induction items generalizing s with
  | nil => rfl
  | cons a items ih =>
    have ha := h a s
    rw [Accounts] at ha ⊢
    rw [along, assignedBy_append, ← ha]
    cases hs : step a s with
    | error e s₁ =>
      have hend : untilExit step (a :: items) s = .error e s₁ := bind_of_error hs
      rw [finalState_of_error hend, finalState_of_error hs]
      rfl
    | ok flow s₁ =>
      rw [finalState_of_ok hs]
      cases flow with
      | exit =>
        have hend : untilExit step (a :: items) s = .ok .exit s₁ := bind_of_ok hs
        rw [finalState_of_ok hend]
        rfl
      | next =>
        rw [finalState_of_eq (untilExit_cons_of_next hs items)]
        exact ih s₁

variable {settings : Settings}

/-- A line that hands over to no scripts. -/
theorem accounts_alone {line : Text} {limit : Nat} {s : Session}
    (h : lineCall settings limit (stripComment line) s = none) :
    Accounts (executeLine settings (levels settings limit) (stripComment line)) s [⟨line, s⟩] := by
  have hlength := length_levels settings limit
  cases hparts : splitAssignment (stripComment line) with
  | none =>
    have hx : Execution.assigned? ⟨line, s⟩ = none := by simp [Execution.assigned?, hparts]
    have hspec := lineCall_spec settings limit (stripComment line) s
    rw [h] at hspec
    have hstore :
        ObeysAt SameStore (executeLine settings (levels settings limit) (stripComment line)) s := by
      cases command_delegates settings hparts limit s with
      | alone _ rel => exact rel _ hlength
      | @scripts limit' names s' defers rel =>
        -- runs that do nothing leave the session in which they are handed the scripts
        have hidle : (List.replicate limit fun _ => pure .next : Nested).length = limit :=
          List.length_replicate
        have heq := (hspec _ _ hlength hidle).trans (defers.eq _ hidle)
        rw [ObeysAt, finalState_of_eq heq, List.drop_replicate, Nat.sub_sub_self defers.within]
        cases limit' with
        | zero => exact rel
        | succ limit' => exact rel
    rw [Accounts, assignedBy_cons_none hx]
    exact congrArg Variables.value hstore
  | some parts =>
    obtain ⟨left, right⟩ := parts
    have hends := executeAssignment_ends left right s
    have hx : Execution.assigned? ⟨line, s⟩ = assigned? left right s := by
      simp [Execution.assigned?, hparts]
    have hline : executeLine settings (levels settings limit) (stripComment line) =
        (do executeAssignment left right; pure .next) := by
      rw [executeLine, hparts]
    rw [Accounts, hline]
    cases hs : executeAssignment left right s with
    | ok _ s' =>
      rw [hs] at hends
      obtain ⟨v, value, hv, hvalue⟩ := hends
      have hend : (do executeAssignment left right; pure Flow.next : Action Session Flow) s =
          .ok .next s' := bind_of_ok hs
      rw [finalState_of_ok hend, hvalue]
      simp [assignedBy, hx, hv]
    | error e s' =>
      rw [hs] at hends
      obtain ⟨hv, hstore⟩ := hends
      rw [finalState_of_error (bind_of_error hs), hstore, assignedBy_cons_none (hx.trans hv)]
      rfl

/-- A line that hands over to scripts. -/
theorem store_of_lineCall {line : Text} {limit limit' : Nat} {s s' : Session} {names : List Text}
    (h : lineCall settings limit line s = some (limit', names, s')) :
    splitAssignment line = none ∧ s'.store = s.store := by
  have hspec := lineCall_spec settings limit line s
  rw [h] at hspec
  have hparts : splitAssignment line = none := by
    rw [lineCall] at h
    cases hs : splitAssignment line with
    | none => rfl
    | some parts => simp [hs] at h
  refine ⟨hparts, ?_⟩
  have hidle : (List.replicate limit fun _ => pure .next : Nested).length = limit :=
    List.length_replicate
  have hstate : finalState (executeLine settings (List.replicate limit fun _ => pure .next) line)
      s = s' := by
    rw [finalState_of_eq (hspec.eq _ hidle), List.drop_replicate, Nat.sub_sub_self hspec.within]
    cases limit' with
    | zero => rfl
    | succ limit' => rfl
  rw [← hstate]
  cases command_delegates settings hparts limit s with
  | alone _ rel => exact rel _ hidle
  | @scripts limit'' names' s'' defers rel =>
    rw [finalState_of_eq (defers.eq _ hidle), List.drop_replicate, Nat.sub_sub_self defers.within]
    cases limit'' with
    | zero => exact rel
    | succ limit'' => exact rel

def Accounting (settings : Settings) (limit : Nat) : Prop :=
  ∀ limit' ≤ limit, ∀ names s,
    Accounts (runScripts settings limit' names) s (executions settings limit' names s)

theorem accounts_line {limit : Nat} (ih : Accounting settings limit) (script line : Text)
    (s : Session) :
    Accounts (runLine settings (levels settings limit) script line) s
      (lineExecutions settings limit (fun limit' => executions settings (min limit' limit)) script
        line s) := by
  let a : Activation := ⟨script, line⟩
  have heq : runLine settings (levels settings limit) script line s =
      executeLine settings (levels settings limit) (stripComment line) (s.begin a) := rfl
  rw [Accounts, finalState_of_eq heq, lineExecutions]
  cases hcall : lineCall settings limit (stripComment line) (s.begin a) with
  | none => exact accounts_alone hcall
  | some call =>
    obtain ⟨limit', names, s'⟩ := call
    obtain ⟨hparts, hstore⟩ := store_of_lineCall hcall
    have hspec := lineCall_spec settings limit (stripComment line) (s.begin a)
    rw [hcall] at hspec
    have hx : Execution.assigned? ⟨line, s.begin a⟩ = none := by simp [Execution.assigned?, hparts]
    have hnested := ih limit' hspec.within names s'
    rw [Accounts, hstore] at hnested
    rw [finalState_of_eq (hspec.eq_runScripts settings), hnested, assignedBy_cons_none hx]
    dsimp only
    rw [Nat.min_eq_left hspec.within]
    rfl

theorem accounts_script {limit : Nat} (ih : Accounting settings limit) (name : Text) (s : Session) :
    Accounts (runNamed settings (levels settings limit) name) s
      (scriptExecutions settings limit (fun limit' => executions settings (min limit' limit)) name
        s) := by
  by_cases hne : name = exitToken
  · rw [Accounts, runNamed, if_pos hne, scriptExecutions, if_pos hne]
    rfl
  rw [Accounts, runNamed_of_ne hne, scriptExecutions, if_neg hne]
  cases hread : settings.resources.readText (unquote name) s.world with
  | ok t w =>
    rw [finalState_of_eq (runScript_of_ok hread)]
    exact accounts_untilExit (accounts_line ih (unquote name)) (activeLines t) { s with world := w }
  | error e w =>
    by_cases hm : ∃ missing location, e = .missingResource missing location
    · obtain ⟨missing, location, rfl⟩ := hm
      rw [finalState_of_eq (runScript_of_missing hread)]
      exact congrArg Variables.value (fail_sameStore _ _ _ { s with world := w })
    · rw [finalState_of_error (runScript_of_error hread fun missing location he =>
        hm ⟨missing, location, he⟩)]
      rfl

theorem Session.store_concluded (s : Session) : s.concluded.store = s.store := by
  unfold concluded
  split <;> rfl

theorem accounts_scripts (limit : Nat) (names : List Text) (s : Session) :
    Accounts (runScripts settings limit names) s (executions settings limit names s) := by
  induction limit using Nat.strong_induction_on generalizing names s with
  | _ limit ih =>
  cases limit with
  | zero =>
    rw [executions]
    rfl
  | succ limit =>
    have hbelow : Accounting settings limit := fun limit' h => ih limit' (Nat.lt_succ_of_le h)
    have h := accounts_untilExit (accounts_script hbelow) names s.deepened
    rw [executions]
    rw [Accounts] at h ⊢
    refine Eq.trans ?_ h
    have heq := runScripts_eq settings limit names s
    cases hs : untilExit (runNamed settings (levels settings limit)) names s.deepened with
    | ok flow t =>
      rw [hs] at heq
      rw [finalState_of_ok heq, finalState_of_ok hs, Session.store_concluded]
      rfl
    | error e t =>
      rw [hs] at heq
      rw [finalState_of_error heq, finalState_of_error hs]
      rfl

theorem accounts_run (settings : Settings) (limit : Nat) (names : List Text) (s : Session) :
    (finalState (run settings limit names) s).store.value =
      assignedBy s.store.value (executions settings limit names s.renewed) := by
  have h : Accounts (runScripts settings limit names) s.renewed _ := accounts_scripts limit names _
  have hrun := run_eq settings limit names s
  refine Eq.trans (congrArg Variables.value ?_) h
  cases hs : runScripts settings limit names s.renewed with
  | ok flow s' =>
    rw [hs] at hrun
    rw [finalState_of_ok hrun, finalState_of_ok hs]
  | error e s' =>
    rw [hs] at hrun
    rw [finalState_of_error hs]
    cases e with
    | script e =>
      rw [finalState_of_ok hrun]
      rfl
    | _ => rw [finalState_of_error hrun]

theorem foldl_update_eq {κ ν : Type} [DecidableEq κ] (values : κ → ν) (as : List (κ × ν)) (k : κ) :
    as.foldl (fun values a => Function.update values a.1 a.2) values k =
      (as.reverse.lookup k).getD (values k) := by
  induction as using List.reverseRecOn with
  | nil => rfl
  | append_singleton as a ih =>
    obtain ⟨k', x⟩ := a
    rw [List.foldl_append, List.reverse_append, List.foldl_cons, List.foldl_nil]
    by_cases hk : k = k'
    · subst hk
      simp
    · rw [Function.update_of_ne hk, ih]
      simp [List.lookup_cons, beq_false_of_ne hk]

def LineAssigns (settings : Settings) (line : Text) (s : Session) : Prop :=
  match splitAssignment line with
  | some (left, right) => AssignmentEnds left right s (executeAssignment left right s)
  | none => ∀ limit, Delegates SameStore limit (fun nested => executeLine settings nested line) s

/-- At the end of a run, however it ends, the variables are as they were before, with the successful
assignments among the lines that were executed made one after the other. Each changes its own
variable, so each variable has the value that was assigned to it last. Of all lines, wherever they
are executed, only assignments that succeed change a variable: one that fails leaves all of them,
and so does every command until it hands over to scripts. -/
theorem run_assigns (settings : Settings) (limit : Nat) (names : List Text) (s : Session) :
    let assigned := (executions settings limit names s.renewed).filterMap Execution.assigned?
    let s' := finalState (run settings limit names) s
    s'.store.value =
        assigned.foldl (fun values a => Function.update values a.1 a.2) s.store.value ∧
      (∀ v, s'.store.value v = (assigned.reverse.lookup v).getD (s.store.value v)) ∧
      ∀ line s₁, LineAssigns settings line s₁ := by
  intro assigned s'
  have hvalue : s'.store.value =
      assignedBy s.store.value (executions settings limit names s.renewed) :=
    accounts_run settings limit names s
  refine ⟨hvalue, fun v => ?_, fun line s₁ => ?_⟩
  · rw [hvalue]
    exact foldl_update_eq s.store.value assigned v
  · unfold LineAssigns
    cases hparts : splitAssignment line with
    | none => exact fun limit => command_delegates settings hparts limit s₁
    | some parts => exact executeAssignment_ends parts.1 parts.2 s₁

/-- A script that is ended by an assignment, after one that it runs has assigned. -/
example :
    let settings : Settings :=
      { resources := .memory
          [("main".toList, Utf8.encode
              "$(Source) = a\nRun sub\n$(ProcessTimeoutSeconds) = soon\n$(Target) = b".toList),
            ("sub".toList, Utf8.encode "$(Source) = $(Source)/c\n$(RedirectOutput) = no".toList)]
        version := [1]
        directory := ['/'] }
    (executions settings 3 ["main".toList] { world := {} }).filterMap Execution.assigned? =
      [(.source, .text "a".toList), (.source, .text "a/c".toList),
        (.redirectOutput, .flag false)] := by
  decide +kernel

end Rollout
