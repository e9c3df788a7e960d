import Rollout.Proofs.LineRequests

namespace Rollout

open Text Script Interpreter

variable {settings : Settings}

/-- The scripts to which a command of tokens hands over, the levels that are left to them, and the
session in which it does. -/
def tokensCall (settings : Settings) (limit : Nat) :
    List Text → Session → Option (Nat × List Text × Session)
  | [], _ => none
  | name :: arguments, s =>
    match headOf name with
    | .exit | .external => none
    | .builtin command =>
      match handlerOf command with
      | .plain _ => none
      | .run => some (limit, arguments, s.announced command arguments)
      | .condition condition =>
        match limit, arguments with
        | limit + 1, path :: rest =>
          if path.isEmpty || rest.isEmpty then none
          else match condition.decide settings path (s.announced command (path :: rest)) with
            | .ok none s' => tokensCall settings limit rest s'
            | _ => none
        | _, _ => none

def lineCall (settings : Settings) (limit : Nat) (line : Text) (s : Session) :
    Option (Nat × List Text × Session) :=
  match splitAssignment line with
  | some _ => none
  | none =>
    match resolveMacros line s with
    | .ok resolved s' => tokensCall settings limit (tokenize resolved) s'
    | .error _ _ => none

def HandsOver (limit : Nat) (step : Nested → Action Session Flow) (s : Session) :
    Option (Nat × List Text × Session) → Prop
  | some (limit', names, s') => Defers limit step s limit' names s'
  | none => ∀ nested nested', nested.length = limit → nested'.length = limit →
      step nested s = step nested' s

theorem tokensCall_spec (settings : Settings) (limit : Nat) (tokens : List Text) (s : Session) :
    HandsOver limit (fun nested => execute settings nested tokens) s
      (tokensCall settings limit tokens s) := by
  fun_induction tokensCall settings limit tokens s with
  | case1 limit s => exact fun _ _ _ _ => rfl
  | case2 limit name arguments s head =>
    intro nested nested' _ _
    simp only [execute, head]
  | case3 limit name arguments s head =>
    intro nested nested' _ _
    simp only [execute, head]
  | case4 limit name arguments s command head act plain =>
    intro nested nested' _ _
    simp only [execute_of_plain head plain]
  | case5 limit name arguments s command head run =>
    exact (Defers.here limit arguments _).of_eq fun _ => execute_of_run head run
  | case6 name s command head condition conditional limit path rest hempty =>
    intro nested nested' _ _
    simp only [execute, head, conditional]
    obtain rfl | hrest : path = [] ∨ rest.isEmpty = true := by simpa using hempty
    · rfl
    · simp only [hrest, if_true]
  | case7 name s command head condition conditional limit path rest hempty s' holds ih =>
    have hne : path ≠ [] ∧ rest.isEmpty = false := by simpa using hempty
    generalize tokensCall settings limit rest s' = call at ih
    cases call with
    | some call => exact defers_of_condition head conditional hne.1 holds hne.2 ih
    | none =>
      intro nested nested' hn hn'
      obtain ⟨run, below, rfl⟩ := List.exists_cons_of_length_eq_add_one hn
      obtain ⟨run', below', rfl⟩ := List.exists_cons_of_length_eq_add_one hn'
      simp only [execute_of_holds head conditional hne.1 holds hne.2]
      exact ih below below' (Nat.succ.inj hn) (Nat.succ.inj hn')
  | case8 name s command head condition conditional limit path rest hempty fails =>
    have hne : path ≠ [] ∧ rest.isEmpty = false := by simpa using hempty
    intro nested nested' _ _
    simp only [execute_of_condition head conditional hne.1]
    cases hd : condition.decide settings path (s.announced command (path :: rest)) with
    | error e s' => rw [bind_of_error hd, bind_of_error hd]
    | ok decision s' =>
      rw [bind_of_ok hd, bind_of_ok hd]
      cases decision with
      | some flow => rfl
      | none => exact (fails s' hd).elim
  | case9 limit name arguments s command head condition conditional fits =>
    intro nested nested' hn hn'
    cases limit with
    | zero => rw [List.length_eq_zero_iff.mp hn, List.length_eq_zero_iff.mp hn']
    | succ limit =>
      cases arguments with
      | nil => simp only [execute, head, conditional]
      | cons path rest => exact (fits limit path rest rfl rfl).elim

theorem lineCall_spec (settings : Settings) (limit : Nat) (line : Text) (s : Session) :
    HandsOver limit (fun nested => executeLine settings nested line) s
      (lineCall settings limit line s) := by
  unfold lineCall
  cases ha : splitAssignment line with
  | some parts =>
    intro nested nested' _ _
    simp only [executeLine, ha]
  | none =>
    dsimp only
    cases hr : resolveMacros line s with
    | error e s' =>
      intro nested nested' _ _
      simp only [executeLine, ha, bind_of_error hr]
    | ok resolved s' =>
      have h := tokensCall_spec settings limit (tokenize resolved) s'
      dsimp only
      generalize tokensCall settings limit (tokenize resolved) s' = call at h
      cases call with
      | some call => exact Defers.of_eq h fun _ => executeLine_of_command ha hr
      | none =>
        intro nested nested' hn hn'
        simp only [executeLine_of_command ha hr]
        exact h nested nested' hn hn'

/-- A run that tells by its end whether it is the one with the given place and scripts. -/
def probe (place : Nat) (names : List Text) (i : Nat) (names' : List Text) :
    Action Session Flow :=
  if i = place ∧ names' = names then pure .next else throw .noTokens

theorem runNext_probes {limit place k : Nat} {names names' : List Text} {s s' : Session}
    (h : runNext (((List.range limit).map (probe place names)).drop k) names' s = .ok .next s') :
    k < limit ∧ k = place ∧ names' = names ∧ s' = s := by
  cases hdrop : ((List.range limit).map (probe place names)).drop k with
  | nil =>
    rw [hdrop] at h
    cases h
  | cons run below =>
    have hrun : ((List.range limit).map (probe place names))[k]? = some run := by
      rw [← List.head?_drop, hdrop]
      rfl
    obtain ⟨i, hi, rfl⟩ := Option.map_eq_some_iff.mp (List.getElem?_map.symm.trans hrun)
    obtain ⟨hk, rfl⟩ : k < limit ∧ k = i := by simpa using List.getElem?_eq_some_iff.mp hi
    rw [hdrop] at h
    replace h : probe place names k names' s = .ok .next s' := h
    unfold probe at h
    split at h
    · next hsame =>
      cases h
      exact ⟨hk, hsame.1, hsame.2, rfl⟩
    · cases h

theorem runNext_probe {limit place : Nat} (h : place < limit) (names : List Text) (s : Session) :
    runNext (((List.range limit).map (probe place names)).drop place) names s = .ok .next s := by
  rw [List.drop_eq_getElem_cons (by simpa using h)]
  have hprobe : probe place names place names = pure .next := if_pos ⟨rfl, rfl⟩
  simp only [runNext, descend, List.getElem_map, List.getElem_range, hprobe]
  rfl

theorem Calls.lineCall_eq {limit limit' : Nat} {line : Text} {s s' : Session} {names : List Text}
    (h : Calls settings limit line s limit' names s') (hpos : 0 < limit') :
    lineCall settings limit (stripComment line) s = some (limit', names, s') := by
  have hspec := lineCall_spec settings limit (stripComment line) s
  have hplace : limit - limit' < limit := Nat.sub_lt (Nat.lt_of_lt_of_le hpos h.within) hpos
  let probes : Nested := (List.range limit).map (probe (limit - limit') names)
  have hlength : probes.length = limit := by simp [probes]
  have hprobe : executeLine settings probes (stripComment line) s = .ok .next s' :=
    (h.eq probes hlength).trans (runNext_probe hplace names s')
  cases hcall : lineCall settings limit (stripComment line) s with
  | none =>
    -- no run of any scripts asks to go on, but the probes do
    rw [hcall] at hspec
    have hidle : (List.replicate limit fun _ => throw .noTokens : Nested).length = limit :=
      List.length_replicate
    have heq := (hspec probes _ hlength hidle).symm.trans hprobe
    dsimp only at heq
    rw [h.eq _ hidle, List.drop_replicate, Nat.sub_sub_self h.within] at heq
    obtain ⟨limit', rfl⟩ := Nat.exists_eq_succ_of_ne_zero (Nat.ne_of_gt hpos)
    cases heq
  | some call =>
    obtain ⟨limit'', names', s''⟩ := call
    rw [hcall] at hspec
    obtain ⟨-, hk, rfl, rfl⟩ := runNext_probes ((hspec.eq probes hlength).symm.trans hprobe)
    have hwithin := hspec.within
    have hwithin' := h.within
    obtain rfl : limit'' = limit' := by omega
    rfl

def along {α β : Type} (step : α → Action Session Flow) (list : α → Session → List β) :
    List α → Session → List β
  | [], _ => []
  | a :: rest, s =>
    list a s ++
      match step a s with
      | .ok .next s' => along step list rest s'
      | _ => []

/-- A line that is executed, and the session in which it has begun. -/
structure Execution where
  line : Text
  session : Session

def lineExecutions (settings : Settings) (limit : Nat)
    (nested : Nat → List Text → Session → List Execution) (script line : Text) (s : Session) :
    List Execution :=
  let s := s.begin ⟨script, line⟩
  ⟨line, s⟩ ::
    match lineCall settings limit (stripComment line) s with
    | some (limit', names, s') => nested limit' names s'
    | none => []

def scriptExecutions (settings : Settings) (limit : Nat)
    (nested : Nat → List Text → Session → List Execution) (name : Text) (s : Session) :
    List Execution :=
  if name = exitToken then []
  else match settings.resources.readText (unquote name) s.world with
    | .ok t w =>
      along (runLine settings (levels settings limit) (unquote name))
        (lineExecutions settings limit nested (unquote name)) (activeLines t) { s with world := w }
    | .error _ _ => []

def executions (settings : Settings) (limit : Nat) (names : List Text) (s : Session) :
    List Execution :=
  match limit with
  | 0 => []
  | limit + 1 =>
    along (runNamed settings (levels settings limit))
      (scriptExecutions settings limit fun limit' => executions settings (min limit' limit)) names
      s.deepened
termination_by limit

/-- What is listed is listed of a step that is come to. -/
theorem mem_along_iff {α β : Type} {step : α → Action Session Flow} {list : α → Session → List β}
    {items : List α} {s : Session} {b : β} :
    b ∈ along step list items s ↔ ∃ before a after s₁, items = before ++ a :: after ∧
      untilExit step before s = .ok .next s₁ ∧ b ∈ list a s₁ := by
  induction items generalizing s with
  | nil => simp [along]
  | cons a items ih =>
    rw [along, List.mem_append]
    constructor
    · rintro (h | h)
      · exact ⟨[], a, items, s, rfl, rfl, h⟩
      · split at h
        · next s' hnext =>
          obtain ⟨before, c, after, s₁, rfl, hbefore, hb⟩ := ih.mp h
          exact ⟨a :: before, c, after, s₁, rfl,
            (untilExit_cons_of_next hnext before).trans hbefore, hb⟩
        · simp at h
    · rintro ⟨before, c, after, s₁, hitems, hbefore, hb⟩
      cases before with
      | nil =>
        obtain ⟨rfl, rfl⟩ := List.cons.inj hitems
        cases hbefore
        exact .inl hb
      | cons first before =>
        obtain ⟨rfl, rfl⟩ := List.cons.inj hitems
        obtain ⟨s', hnext, hbefore⟩ := untilExit_cons_eq_next hbefore
        rw [hnext]
        exact .inr (ih.mpr ⟨before, c, after, s₁, rfl, hbefore, hb⟩)

/-- The lines that are executed are those that begin, in the scripts and in those that they run. -/
theorem mem_executions_iff {limit : Nat} {names : List Text} {s : Session} {x : Execution} :
    x ∈ executions settings (limit + 1) names s ↔
      ∃ a s₁, Begins settings limit names s.deepened a s₁ ∧
        (x = ⟨a.line, s₁⟩ ∨
          ∃ limit' names' s', Calls settings limit a.line s₁ limit' names' s' ∧
            x ∈ executions settings limit' names' s') := by
  rw [executions, mem_along_iff]
  constructor
  · rintro ⟨before, name, after, s₁, rfl, hpasses, hx⟩
    unfold scriptExecutions at hx
    split at hx
    · simp at hx
    · next hne =>
      split at hx
      · next t w hread =>
        obtain ⟨linesBefore, line, linesAfter, s₂, hlines, hpassed, hx⟩ := mem_along_iff.mp hx
        refine ⟨⟨unquote name, line⟩, _, .intro hpasses hne hread hlines hpassed, ?_⟩
        obtain rfl | hx := List.mem_cons.mp hx
        · exact .inl rfl
        · have hspec := lineCall_spec settings limit (stripComment line)
            (s₂.begin ⟨unquote name, line⟩)
          split at hx
          · next limit' names' s' hcall =>
            rw [hcall] at hspec
            dsimp only at hx
            rw [Nat.min_eq_left hspec.within] at hx
            exact .inr ⟨limit', names', s', hspec, hx⟩
          · simp at hx
      · simp at hx
  · rintro ⟨a, s₁, hbegins, hx⟩
    cases hbegins with
    | @intro before after linesBefore linesAfter name t line _ s₂ s₃ w hpasses hne hread hlines
        hpassed =>
      refine ⟨before, name, after, s₂, rfl, hpasses, ?_⟩
      rw [scriptExecutions, if_neg hne, hread]
      refine mem_along_iff.mpr ⟨linesBefore, line, linesAfter, s₃, hlines, hpassed, ?_⟩
      obtain rfl | ⟨limit', names', s', hcalls, hx⟩ := hx
      · exact List.mem_cons_self ..
      · cases limit' with
        | zero =>
          rw [executions] at hx
          cases hx
        | succ limit' =>
          rw [lineExecutions, hcalls.lineCall_eq (Nat.succ_pos _)]
          refine List.mem_cons_of_mem _ ?_
          dsimp only
          rwa [Nat.min_eq_left hcalls.within]

end Rollout
