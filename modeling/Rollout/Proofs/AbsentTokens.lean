import Rollout.Proofs.CleanLines
import Rollout.Proofs.Refusals

namespace Rollout

open Text Script Interpreter

variable {settings : Settings}

theorem ne_noTokens_admitsFiles : AdmitsFiles (· ≠ .noTokens) :=
  ⟨fun _ _ => nofun, nofun, nofun, nofun, fun _ => nofun⟩

theorem readMarked_throws (path : Text) : Throws (· ≠ .noTokens) (Metadata.readMarked path) := by
  refine (readFile_throws ne_noTokens_admitsFiles path).bind fun content => ?_
  split
  · exact throws_pure _
  · exact throws_throw nofun

theorem pass_throws (source target : Text) :
    Throws (· ≠ .noTokens) (Metadata.pass source target) := by
  refine throws_get.bind fun w => ?_
  dsimp only
  split
  · exact throws_throw nofun
  · split
    · exact throws_throw nofun
    · exact (readMarked_throws _).bind fun _ => (readMarked_throws _).bind fun _ =>
        (writeFile_throws ne_noTokens_admitsFiles _ _).bind fun _ => throws_pure _

/-- What a request ends in has another cause than that there are no tokens. -/
theorem Request.Meets.ne_noTokens {s : Session} {e : Fault} {w : World} {q : Request}
    (h : q.Meets settings s e w) : e ≠ .noTokens := by
  have read {name : Text} (h : settings.resources.read name s.world = .error e w) :
      e ≠ .noTokens := by
    obtain (rfl | ⟨_, rfl⟩ | ⟨_, rfl⟩) | ⟨_, _, -, rfl⟩ := Resources.read_error h <;> nofun
  cases q with
  | script name | listing name =>
    obtain ⟨_, rfl⟩ | hread := Resources.readText_error h
    · nofun
    · exact read hread
  | archive name => exact read h
  | packing source target text => exact packing_throws ne_noTokens_admitsFiles _ _ _ _ _ _ h
  | extracting data target =>
    exact Archiver.extract_throws ne_noTokens_admitsFiles _ _ _ _ _ _ h
  | deleting flag path rest => exact removePath_throws ne_noTokens_admitsFiles _ _ _ _ h
  | killing path rest =>
    obtain ⟨_, _, rfl⟩ := killByPath_denied _ _ _ _ h
    nofun
  | passing source target => exact pass_throws _ _ _ _ _ h
  | probing path =>
    obtain ⟨-, w', hread⟩ := installedVersion_error_iff.1 ⟨w, h.2⟩
    exact readFile_throws ne_noTokens_admitsFiles _ _ _ _ hread
  | starting path arguments =>
    obtain rfl | ⟨_, rfl⟩ | ⟨_, _, rfl, -⟩ := launch_error h <;> nofun
  | resolving text =>
    obtain ⟨_, rfl⟩ | ⟨rfl, -⟩ := resolve_error h <;> nofun

/-- A run lets out neither the lack of a token nor any error of a script. -/
theorem run_throws (settings : Settings) (limit : Nat) (names : List Text) :
    Throws (fun e => e ≠ .noTokens ∧ ∀ error, e ≠ .script error) (run settings limit names) := by
  intro s e s' h
  constructor
  · rintro rfl
    obtain ⟨t, hscripts⟩ := runScripts_of_run_error h
    obtain hinternal | ⟨_, _, _, _, _, -, -, -, _, meets⟩ := runScripts_error limit hscripts
    · cases hinternal
    · exact meets.ne_noTokens rfl
  · rintro error rfl
    rw [run_eq] at h
    cases hscripts : runScripts settings limit names s.renewed with
    | ok flow s₁ =>
      rw [hscripts] at h
      cases h
    | error e₁ s₁ =>
      rw [hscripts] at h
      cases e₁ <;> cases h

section

variable (absent : Action Session Flow) (settings : Settings)

/-- What is done with the token at an index, or else what happens where there is none. -/
def atIndex (tokens : List Text) (i : Nat) (f : Text → Action Session Flow) :
    Action Session Flow :=
  match tokens[i]? with
  | some token => f token
  | none => absent

def packByIndex (arguments : List Text) : Action Session Flow := do
  require (arguments.head?.getD []) "File list argument".toList .pack
  let s ← get
  require s.store.source "Source".toList .pack
  require s.store.target "Target".toList .pack
  atIndex absent arguments 0 fun list => Builtin.pack settings [list]

def passByIndex (arguments : List Text) : Action Session Flow :=
  if arguments.length = 2 then
    atIndex absent arguments 0 fun source =>
      atIndex absent arguments 1 fun target =>
        Builtin.passAssemblyVersion settings [source, target]
  else Builtin.passAssemblyVersion settings arguments

/-- Executes a command of tokens, with every token looked up that it needs to be there. -/
def executeByIndex (nested : Nested) (tokens : List Text) :
    Action Session Flow :=
  atIndex absent tokens 0 fun name =>
    let arguments := tokens.drop 1
    match headOf name with
    | .exit => do
      say .debug "Exit requested".toList
      pure .exit
    | .external => Builtin.runProcess settings name (unwords arguments)
    | .builtin command => do
      say .debug ("Built-in ".toList ++ command.name ++ [' '] ++ tupleLiteral arguments)
      match handlerOf command with
      | .plain act =>
        match command with
        | .pack => packByIndex absent settings arguments
        | .passAssemblyVersion => passByIndex absent settings arguments
        | _ => act settings arguments
      | .run => runNext nested arguments
      | .condition condition => do
        require (arguments.head?.getD []) "Path".toList command
        atIndex absent arguments 0 fun path => do
          match ← condition.decide settings path with
          | some flow => pure flow
          | none =>
            if _h : arguments.drop 1 = [] then pure .next
            else descend nested fun _ below => executeByIndex below (arguments.drop 1)
termination_by tokens.length
decreasing_by
  have hpos := List.length_pos_iff.mpr _h
  simp only [arguments, List.length_drop] at hpos ⊢
  omega

def executeLineByIndex (nested : Nested) (line : Text) :
    Action Session Flow := do
  match splitAssignment line with
  | some (left, right) => do
    executeAssignment left right
    pure .next
  | none => do
    let resolved ← resolveMacros line
    executeByIndex absent settings nested (tokenize resolved)

end

section

variable (executed : Nested → Text → Action Session Flow) (settings : Settings)

def runLineBy (nested : Nested) (script line : Text) :
    Action Session Flow := do
  modify fun s => { s with script := some script, line := some line }
  say .debug (script ++ ": ".toList ++ line)
  executed nested (stripComment line)

def runNamedBy (nested : Nested) (name : Text) : Action Session Flow :=
  if name = exitToken then pure .exit
  else do
    match ← attempt (onWorld (settings.resources.readText (unquote name))) with
    | .error (.missingResource name location) =>
      fail .fileNotFound (some (Fault.missingResource name location).message) none
    | .error e => throw e
    | .ok t => untilExit (runLineBy executed nested (unquote name)) (activeLines t)

def runAllBy (nested : Nested) (names : List Text) : Action Session Flow := do
  let flow ← deeper (untilExit (runNamedBy executed settings nested) names)
  reportSuccess
  pure flow

def levelsBy : (limit : Nat) → Nested
  | 0 => []
  | limit + 1 => runAllBy executed settings (levelsBy limit) :: levelsBy limit

def runScriptsBy (limit : Nat) (names : List Text) : Action Session Flow :=
  runNext (levelsBy executed settings limit) names

end

theorem levelsBy_executeLine (settings : Settings) (limit : Nat) :
    levelsBy (executeLine settings) settings limit = levels settings limit := by
  induction limit with
  | zero => rfl
  | succ limit ih =>
    rw [levelsBy, ih]
    rfl

variable {absent : Action Session Flow}

theorem packByIndex_eq (arguments : List Text) :
    packByIndex absent settings arguments = Builtin.pack settings arguments := by
  cases arguments with
  | nil => rfl
  | cons list rest =>
    funext s
    by_cases hlist : list = []
    · subst hlist
      rfl
    have hl := require_of_ne_nil hlist "File list argument".toList .pack s
    refine (bind_of_ok hl).trans ?_
    rw [get_bind]
    by_cases hsource : s.store.source = []
    · refine Eq.trans ?_ (bind_of_ok hl).symm
      rw [get_bind, hsource]
      rfl
    have hs := require_of_ne_nil hsource "Source".toList .pack s
    refine (bind_of_ok hs).trans ?_
    by_cases htarget : s.store.target = []
    · refine Eq.trans ?_ (bind_of_ok hl).symm
      rw [get_bind]
      refine Eq.trans ?_ (bind_of_ok hs).symm
      rw [htarget]
      rfl
    exact bind_of_ok (require_of_ne_nil htarget "Target".toList .pack s)

theorem passByIndex_eq (arguments : List Text) :
    passByIndex absent settings arguments = Builtin.passAssemblyVersion settings arguments := by
  unfold passByIndex
  split
  · next h =>
    obtain ⟨source, target, rfl⟩ := List.length_eq_two.mp h
    rfl
  · rfl

/-- What a command does is independent of what happens to one that looks up a token that is not
there, since it has at least one token and checks for the others first. -/
theorem executeByIndex_eq (nested : Nested) {tokens : List Text}
    (hne : tokens ≠ []) :
    executeByIndex absent settings nested tokens = execute settings nested tokens := by
  match tokens with
  | [] => exact absurd rfl hne
  | name :: arguments =>
    rw [executeByIndex, execute]
    change (match headOf name with | .exit => _ | .external => _ | .builtin command => _) = _
    cases headOf name with
    | exit => rfl
    | external => rfl
    | builtin command =>
      refine bind_congr fun _ => ?_
      cases handler : handlerOf command with
      | plain act =>
        cases command with
        | pack =>
          cases handler
          exact packByIndex_eq arguments
        | passAssemblyVersion =>
          cases handler
          exact passByIndex_eq arguments
        | _ => rfl
      | run => rfl
      | condition condition =>
        cases arguments with
        | nil => rfl
        | cons path rest =>
          refine bind_congr fun _ => bind_congr fun decision => ?_
          cases decision with
          | some flow => rfl
          | none =>
            cases rest with
            | nil => rfl
            | cons first more =>
              refine congrArg (descend nested) (funext fun _ => funext fun below => ?_)
              exact executeByIndex_eq below (List.cons_ne_nil first more)
termination_by tokens.length

theorem executeLineByIndex_eq : executeLineByIndex absent settings = executeLine settings := by
  funext nested line
  unfold executeLineByIndex executeLine
  cases splitAssignment line with
  | some operands => rfl
  | none => exact bind_congr fun resolved => executeByIndex_eq nested (tokenize_ne_nil resolved)

/-- Every line that a run executes is clean, whatever the scripts are. No run depends on what
happens to a command that looks up a token that is not there, and none lets out the fault that
there are no tokens, or an error that a command raises for want of an argument. -/
theorem run_needs_no_absent_token (settings : Settings) (limit : Nat) (names : List Text)
    (s : Session) :
    (∀ t, ∀ line ∈ activeLines t, IsClean (stripComment line)) ∧
      (∀ x ∈ executions settings limit names s.renewed, IsClean (stripComment x.line)) ∧
      (∀ absent, runScriptsBy (executeLineByIndex absent settings) settings limit names =
        runScripts settings limit names) ∧
      ∀ e s', run settings limit names s = .error e s' →
        e ≠ .noTokens ∧ ∀ error, e ≠ .script error := by
  refine ⟨fun t line hline => isClean_stripComment hline, fun x hx => ?_, fun absent => ?_,
    fun e s' h => run_throws settings limit names s e s' h⟩
  · obtain ⟨t, ht⟩ := mem_activeLines_of_execution hx
    exact isClean_stripComment ht
  · rw [executeLineByIndex_eq, runScriptsBy, levelsBy_executeLine]
    rfl

/-- A chain of conditions with nothing after it, and a line whose macro resolves to nothing. -/
theorem run_needs_no_absent_token_empty :
    let text := "  IfNotExists a IfNotExists b # and nothing else\n$(Source) #\nPack".toList
    let settings : Settings :=
      { resources := .memory [("main".toList, Utf8.encode text)]
        version := []
        directory := "/".toList }
    let s : Session := { world := {} }
    let lines := (executions settings 2 ["main".toList] s.renewed).map fun x => stripComment x.line
    lines = ["IfNotExists a IfNotExists b".toList, "$(Source)".toList] ∧
      (∀ line ∈ lines, IsClean line) ∧
      ∀ absent, runScriptsBy (executeLineByIndex absent settings) settings 2 ["main".toList] =
        runScripts settings 2 ["main".toList] := by
  intro text settings s lines
  obtain ⟨-, hclean, habsent, -⟩ := run_needs_no_absent_token settings 2 ["main".toList] s
  have hlines : lines = ["IfNotExists a IfNotExists b".toList, "$(Source)".toList] := by
    change (executions settings 2 ["main".toList] s.renewed).map _ = _
    rw [executions]
    decide +kernel
  refine ⟨hlines, fun line hline => ?_, habsent⟩
  obtain ⟨x, hx, rfl⟩ := List.mem_map.mp hline
  exact hclean x hx

end Rollout
