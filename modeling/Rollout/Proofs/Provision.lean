import Rollout.Proofs.Refusals

namespace Rollout

open Text Script Interpreter

variable {R : Text → Text → Prop} {settings : Settings} {r : Resources} {limit : Nat}
  {names : List Text} {nested : Nested} {s : Session}

/-- Resources answer a request alike. The texts of a script are related; a file list and an archive
are the same. -/
def Request.AnsweredAlike (R : Text → Text → Prop) (r r' : Resources) (w : World) : Request → Prop
  | script name => SameAnswer R (r.readText name w) (r'.readText name w)
  | listing name => r'.readText name w = r.readText name w
  | archive name => r'.read name w = r.read name w
  | _ => True

def AnswersAlike (R : Text → Text → Prop) (settings : Settings) (r : Resources) (limit : Nat)
    (names : List Text) (s : Session) : Prop :=
  ∀ job limit' s₀ q s₁, ComesTo settings limit names s job limit' s₀ →
    job.Asks settings limit' s₀ q s₁ → q.AnsweredAlike R settings.resources r s₁.world

theorem SameAnswer.mono {α : Type} {S T : α → α → Prop} {x y : EStateM.Result Fault World α}
    (h : SameAnswer S x y) (hST : ∀ a b, S a b → T a b) : SameAnswer T x y := by
  cases h with
  | ok related => exact .ok (hST _ _ related)
  | error => exact .error

theorem require_eq_ok {value what : Text} {command : Command} {x : Unit} {s' : Session}
    (h : require value what command s = .ok x s') : value ≠ [] ∧ s' = s := by
  cases value with
  | nil => cases h
  | cons c value =>
    cases h
    exact ⟨nofun, rfl⟩

theorem attempt_onWorld_congr {α : Type} {a b : Action World α} (h : a s.world = b s.world) :
    attempt (onWorld a) s = attempt (onWorld b) s := by
  simp only [attempt, onWorld, h]

theorem pack_of_listing {arguments : List Text}
    (h : ∀ q s₁, CommandAsks settings .pack arguments s q s₁ →
      q.AnsweredAlike R settings.resources r s₁.world) :
    Builtin.pack { settings with resources := r } arguments s =
      Builtin.pack settings arguments s := by
  refine bind_congr_of_ok fun _ s₁ given => ?_
  obtain ⟨hlist, rfl⟩ := require_eq_ok given
  cases arguments with
  | nil => exact absurd rfl hlist
  | cons list arguments =>
    rw [get_bind, get_bind]
    refine bind_congr_of_ok fun _ s₂ given => ?_
    obtain ⟨hsource, rfl⟩ := require_eq_ok given
    refine bind_congr_of_ok fun _ s₃ given => ?_
    obtain ⟨htarget, rfl⟩ := require_eq_ok given
    exact bind_of_eq (attempt_onWorld_congr (h _ _ (.listing hlist hsource htarget))) _

theorem unpack_of_archive {arguments : List Text}
    (h : ∀ q s₁, CommandAsks settings .unpack arguments s q s₁ →
      q.AnsweredAlike R settings.resources r s₁.world) :
    Builtin.unpack { settings with resources := r } s = Builtin.unpack settings s := by
  rw [Builtin.unpack, Builtin.unpack, get_bind, get_bind]
  refine bind_congr_of_ok fun _ s₂ given => ?_
  obtain ⟨hsource, rfl⟩ := require_eq_ok given
  refine bind_congr_of_ok fun _ s₃ given => ?_
  obtain ⟨htarget, rfl⟩ := require_eq_ok given
  exact bind_of_eq (attempt_onWorld_congr (h _ _ (.archive hsource htarget))) _

/-- Of the commands, two ask for resources. -/
theorem plain_of_alike {command : Command} {act : Settings → List Text → Action Session Flow}
    (plain : handlerOf command = .plain act) {arguments : List Text}
    (h : ∀ q s₁, CommandAsks settings command arguments s q s₁ →
      q.AnsweredAlike R settings.resources r s₁.world) :
    act { settings with resources := r } arguments s = act settings arguments s := by
  cases command with
  | pack =>
    cases plain
    exact pack_of_listing h
  | unpack =>
    cases plain
    exact unpack_of_archive h
  | run | ifExists | ifNotExists | ifUpgradeTo => cases plain
  | _ =>
    cases plain
    rfl

theorem decide_resources (condition : Builtin.Condition) (path : Text) :
    condition.decide { settings with resources := r } path = condition.decide settings path := by
  cases condition <;> rfl

theorem execute_of_alike {limit : Nat} {tokens : List Text} (hn : nested.length = limit)
    (h : ∀ q s₁, TokensAsk settings limit tokens s q s₁ →
      q.AnsweredAlike R settings.resources r s₁.world) :
    execute { settings with resources := r } nested tokens s =
      execute settings nested tokens s := by
  -- on the number of tokens, since a condition that holds takes two of them
  induction hlength : tokens.length using Nat.strong_induction_on
    generalizing tokens s nested limit with
  | _ n ih =>
    cases tokens with
    | nil => rfl
    | cons name arguments =>
      cases head : headOf name with
      | exit => simp only [execute, head]
      | external =>
        simp only [execute, head]
        rfl
      | builtin command =>
        cases handler : handlerOf command with
        | plain act =>
          rw [execute_of_plain head handler, execute_of_plain head handler]
          exact plain_of_alike handler fun q s₁ asks => h q s₁ (.command head handler asks)
        | run => rw [execute_of_run head handler, execute_of_run head handler]
        | condition condition =>
          cases arguments with
          | nil => simp only [execute, head, handler]
          | cons path rest =>
            by_cases hpath : path = []
            · subst hpath
              simp only [execute, head, handler]
              rfl
            · rw [execute_of_condition head handler hpath,
                execute_of_condition head handler hpath, decide_resources]
              refine bind_congr_of_ok fun decision s₁ hdecide => ?_
              cases decision with
              | some flow => rfl
              | none =>
                unfold executeRest
                dsimp only
                split
                · rfl
                · cases nested with
                  | nil => rfl
                  | cons run below =>
                    obtain rfl := hn
                    have hless : rest.length < n := by
                      rw [← hlength]
                      simp only [List.length_cons]
                      omega
                    exact ih _ hless rfl (fun q s₂ asks =>
                      h q s₂ (.holds head handler hpath hdecide asks)) rfl

theorem executeLine_of_alike {limit : Nat} {line : Text} (hn : nested.length = limit)
    (h : ∀ q s₁, (Job.line line).Asks settings limit s q s₁ →
      q.AnsweredAlike R settings.resources r s₁.world) :
    executeLine { settings with resources := r } nested line s =
      executeLine settings nested line s := by
  rw [executeLine, executeLine]
  cases command : splitAssignment line with
  | some parts => rfl
  | none =>
    refine bind_congr_of_ok fun resolved s₁ resolves => ?_
    exact execute_of_alike hn fun q s₂ asks => h q s₂ (.line command resolves asks)

theorem AnswersAlike.follows {C : Coupling} {L : Text → Text → Prop}
    (h : AnswersAlike R settings r limit names s) (hsafe : ∀ t, C.safe t)
    (hR : ∀ t t', R t t' → List.Forall₂ L (activeLines t) (activeLines t')) :
    C.Follows L settings { settings with resources := r } limit names s where
  scripts _ _ looksUp := by
    obtain ⟨_, _, _, _, _, _, course, listed, notExit, passes⟩ := looksUp
    exact (h _ _ _ _ _ (.script course listed notExit passes) .script).mono
      fun t t' ht => ⟨hsafe t, hR t t' ht⟩
  lines _ _ _ _ _ _ course begins _ hn :=
    executeLine_of_alike hn fun q s₃ asks => h _ _ _ q s₃ (.line course begins) asks

end Rollout
