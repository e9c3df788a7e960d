import Rollout.Proofs.Lockstep

namespace Rollout

open Text Script Interpreter

def Session.after (s : Session) (j : Journal) : Session := { s with world := s.world.after j }

def Recalls (j : Journal) (s t : Session) : Prop := t = { s.after j with depth := t.depth }

theorem Recalls.fail {j : Journal} {s t : Session} (h : Recalls j s t) (flag : Flag)
    (message : Option Text) (exitCode : Option Int) :
    ∃ flow s' t', Rollout.fail flag message exitCode s = .ok flow s' ∧
      Rollout.fail flag message exitCode t = .ok flow t' ∧ Recalls j s' t' := by
  have hstore : t.store = s.store := by rw [h]; rfl
  cases hs : s.store.ignoreErrors with
  | true =>
    have ht : t.store.ignoreErrors = true := by rw [hstore, hs]
    refine ⟨_, _, _, fail_of_ignoring hs flag message exitCode,
      fail_of_ignoring ht flag message exitCode, ?_⟩
    rw [h]
    simp only [Recalls, Session.after, World.after, List.append_assoc]
    rfl
  | false =>
    have ht : t.store.ignoreErrors = false := by rw [hstore, hs]
    refine ⟨_, _, _, fail_of_strict hs flag message exitCode,
      fail_of_strict ht flag message exitCode, ?_⟩
    rw [h]
    simp only [Recalls, Session.after, World.after, Session.endedBy, World.told, List.append_assoc]
    rfl

theorem recalls_steady (j : Journal) : Steady (Recalls j) Eq where
  alike_refl _ := rfl
  alike_located h cause := by rw [h]; rfl
  world {s t} h := by
    refine ⟨j ++ s.world.journal, by rw [h]; rfl, fun w es => ?_⟩
    rw [h, List.append_assoc]
    rfl
  place h _ _ := by rw [h]; rfl
  depth h _ _ := by rw [h]; rfl
  store h := by rw [h]; rfl
  update h _ := by rw [h]; rfl
  fail h := h.fail

def recalling (j : Journal) : Coupling :=
  (recalls_steady j).coupling (fun _ => False) fun _ => False

theorem Recalls.eq_of_depth {j : Journal} {s t : Session} (h : Recalls j s t)
    (hd : t.depth = s.depth) : t = s.after j := by
  rw [h, hd]
  rfl

theorem Session.concluded_after (s : Session) (j : Journal) :
    (s.after j).concluded = s.concluded.after j := by
  by_cases h : s.depth = 0 ∧ s.failed = false ∧ s.status = .ok
  · have hs : s.concluded = s.succeeded := if_pos h
    have hj : (s.after j).concluded = (s.after j).succeeded := if_pos h
    rw [hs, hj]
    simp only [succeeded, after, World.told, World.after, List.append_assoc]
  · have hs : s.concluded = s := if_neg h
    have hj : (s.after j).concluded = s.after j := if_neg h
    rw [hs, hj]

theorem eq_mapEnd_of_coupled {α : Type} {j : Journal} {d : Nat} {P : α → Prop}
    {r r' : EStateM.Result Fault Session α} (h : (recalling j).Coupled d d P r r') :
    r' = mapEnd (Session.after · j) r := by
  cases h with
  | @ok x s' t' step hs ht =>
    obtain rfl := Recalls.eq_of_depth step (ht.trans hs.symm)
    rfl
  | @error e e' s' t' alike step hs ht =>
    obtain rfl := Recalls.eq_of_depth step (ht.trans hs.symm)
    cases alike
    rfl
  | parted _ apart _ _ => exact apart.elim
  | first yields => exact yields.elim
  | second yields => exact yields.elim

theorem runScripts_after (settings : Settings) (limit : Nat) (names : List Text) (s : Session)
    (j : Journal) :
    runScripts settings limit names (s.after j) =
      mapEnd (Session.after · j) (runScripts settings limit names s) := by
  cases limit with
  | zero => rfl
  | succ limit =>
    have h : (recalling j).Coupled (s.depth + 1) ((s.after j).depth + 1) IsExit
        (untilExit (runNamed settings (levels settings limit)) names s.deepened)
        (untilExit (runNamed settings (levels settings limit)) names (s.after j).deepened) :=
      Coupling.coupled_scripts (.inl rfl) (fun _ _ _ _ _ _ => trivial) rfl
    rw [runScripts_eq, runScripts_eq, eq_mapEnd_of_coupled h]
    cases untilExit (runNamed settings (levels settings limit)) names s.deepened with
    | ok flow s' => exact congrArg _ (s'.raised.concluded_after j)
    | error e s' => rfl

theorem Session.endedBy_after (s : Session) (d : Diagnostics) (j : Journal) :
    (s.after j).endedBy d = (s.endedBy d).after j := by
  simp only [endedBy, after, World.told, World.after, List.append_assoc]

theorem run_after (settings : Settings) (limit : Nat) (names : List Text) (s : Session)
    (j : Journal) :
    run settings limit names (s.after j) =
      mapEnd (Session.after · j) (run settings limit names s) := by
  rw [run_eq, run_eq]
  have h : runScripts settings limit names (s.after j).renewed =
      mapEnd (Session.after · j) (runScripts settings limit names s.renewed) :=
    runScripts_after settings limit names s.renewed j
  rw [h]
  cases runScripts settings limit names s.renewed with
  | ok flow s' => rfl
  | error e s' =>
    cases e with
    | script e => exact congrArg _ (s'.endedBy_after _ j)
    | _ => rfl

/-- What can happen to an interpreter between two runs: the host runs scripts, the host assigns a
variable, or others change the world. -/
inductive HostCall
  | run (limit : Nat) (names : List Text)
  | assign (name value : Text)
  | meanwhile (w : World)

def HostCall.perform (settings : Settings) (s : Session) : HostCall → Session
  | run limit names => finalState (Interpreter.run settings limit names) s
  | assign name value => finalState (Rollout.assign name value) s
  | meanwhile w => { s with world := w }

theorem run_depth (settings : Settings) (limit : Nat) (names : List Text) (s : Session) :
    (finalState (run settings limit names) s).depth = s.depth := by
  have hrun := run_eq settings limit names s
  obtain ⟨flow, s₁, s', hc, hs', he⟩ | ⟨flow, s', hh, he⟩ | ⟨e, s₁, hc, he⟩ :=
    runScripts_ends settings limit names (s := s.renewed) rfl
  · rw [he] at hrun
    rw [finalState_of_ok hrun]
    obtain rfl | rfl := hs' <;> exact hc.depth
  · rw [he] at hrun
    rw [finalState_of_ok hrun]
    exact hh.depth
  · rw [he] at hrun
    unfold finalState
    rw [hrun]
    cases e <;> exact hc.depth

theorem HostCall.depth_perform (settings : Settings) (s : Session) (call : HostCall) :
    (call.perform settings s).depth = s.depth := by
  cases call with
  | run limit names => exact run_depth settings limit names s
  | assign name value => exact (assign_calm name value s).depth
  | meanwhile w => rfl

theorem depth_between_calls (settings : Settings) (calls : List HostCall) {s : Session}
    (hs : s.depth = 0) : (calls.foldl (HostCall.perform settings) s).depth = 0 := by
  induction calls generalizing s with
  | nil => exact hs
  | cons call calls ih => exact ih ((call.depth_perform settings s).trans hs)

/-- After any calls of the host, the next run does what it does in a new interpreter with the same
variables and the same world, but for the journal, which may have held anything. It returns the same
or is left by the same fault, writes the same to the journal, and leaves the same session. -/
theorem run_forgets_calls (settings : Settings) (w : World) (calls : List HostCall) (limit : Nat)
    (names : List Text) (j : Journal) :
    let s := calls.foldl (HostCall.perform settings) { world := w }
    let new : Session := { store := s.store, world := { s.world with journal := j } }
    s.depth = 0 ∧ ∃ es,
      (finalState (run settings limit names) s).world.journal = s.world.journal ++ es ∧
      run settings limit names new =
        mapEnd (fun t => { t with world := { t.world with journal := j ++ es } })
          (run settings limit names s) := by
  intro s new
  have hd : s.depth = 0 := depth_between_calls settings calls rfl
  -- both are one session, with an empty journal, put after a journal
  let s₀ : Session := { store := s.store, world := { s.world with journal := [] } }
  have hnew : run settings limit names new = run settings limit names (s₀.after j) := by
    simp [new, s₀, Session.after, World.after]
  have hold : run settings limit names s =
      run settings limit names (s₀.after s.world.journal) := by
    have hrenewed : s.renewed = (s₀.after s.world.journal).renewed := by
      simp [s₀, Session.after, World.after, Session.renewed, hd]
    rw [run_eq, run_eq, hrenewed]
  rw [run_after] at hnew hold
  refine ⟨hd, (finalState (run settings limit names) s₀).world.journal, ?_, ?_⟩
  · unfold finalState
    rw [hold]
    cases run settings limit names s₀ <;> rfl
  · rw [hnew, hold]
    unfold finalState
    cases run settings limit names s₀ <;> rfl

end Rollout
