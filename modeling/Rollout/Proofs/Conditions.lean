import Rollout.Proofs.LineRequests
import Rollout.Proofs.MoreLevels
import Rollout.Proofs.Renewal

namespace Rollout

open Text Script Interpreter

variable {α β : Type}

/-- What the action does, and what it adds to the journal, does not depend on what the journal has
held before. -/
def Forgetful (a : Action Session α) : Prop :=
  ∀ s j, a (s.after j) = mapEnd (Session.after · j) (a s)

theorem forgetful_pure (x : α) : Forgetful (pure x : Action Session α) := fun _ _ => rfl

theorem forgetful_throw (e : Fault) : Forgetful (throw e : Action Session α) := fun _ _ => rfl

theorem Forgetful.bind {a : Action Session α} {f : α → Action Session β} (ha : Forgetful a)
    (hf : ∀ x, Forgetful (f x)) : Forgetful (a >>= f) := by
  intro s j
  have hs := ha s j
  cases h : a s with
  | ok x s' =>
    rw [h] at hs
    rw [bind_of_ok h, bind_of_ok hs]
    exact hf x s' j
  | error e s' =>
    rw [h] at hs
    rw [bind_of_error h, bind_of_error hs]
    rfl

theorem forgetful_read_bind {f : Session → Action Session β} (hf : ∀ s j, f (s.after j) = f s)
    (h : ∀ s, Forgetful (f s)) : Forgetful (get >>= f) := by
  intro s j
  rw [get_bind, get_bind, hf, h s s j]

theorem onWorld_forgetful {a : Action World α} (ha : Oblivious a) : Forgetful (onWorld a) := by
  intro s j
  have hw : a (s.after j).world = mapEnd (World.after · j) (a s.world) := ha s.world j
  rw [onWorld, onWorld, hw]
  cases a s.world <;> rfl

theorem forgetful_of_couples {P : α → Prop} {a : Action Session α}
    (h : ∀ j d, (recalling j).Couples d d P a a) : Forgetful a :=
  fun s j => eq_mapEnd_of_coupled (h j s.depth s (s.after j) rfl rfl rfl)

theorem say_forgetful (level : Level) (t : Text) : Forgetful (say level t) :=
  onWorld_forgetful (log_oblivious _ _ _)

theorem require_forgetful (value what : Text) (command : Command) :
    Forgetful (require value what command) :=
  forgetful_of_couples (P := Coupling.Never) fun _ _ => Coupling.couples_require _ _ _

theorem fail_forgetful (flag : Flag) (message : Option Text) (exitCode : Option Int) :
    Forgetful (fail flag message exitCode) :=
  forgetful_of_couples fun _ _ => Coupling.couples_fail _ _ _

theorem untilExit_forgetful {step : α → Action Session Flow} (h : ∀ a, Forgetful (step a))
    (items : List α) : Forgetful (untilExit step items) := by
  induction items with
  | nil => exact forgetful_pure _
  | cons a items ih =>
    refine (h a).bind fun flow => ?_
    cases flow with
    | exit => exact forgetful_pure _
    | next => exact ih

section

variable (settings : Settings)

theorem decide_forgetful (argument : Text) (condition : Builtin.Condition) :
    Forgetful (condition.decide settings argument) := by
  cases condition with
  | fileThere => exact fun _ _ => rfl
  | fileMissing => exact fun _ _ => rfl
  | upgrade =>
    refine forgetful_read_bind (fun _ _ => rfl) fun s => ?_
    split
    · refine (onWorld_forgetful (Builtin.installedVersion_oblivious _ _)).bind fun installed => ?_
      split
      · exact forgetful_pure _
      · exact (fail_forgetful _ _ _).bind fun _ => forgetful_pure _
    · exact forgetful_pure _

theorem plain_forgetful {command : Command} {act : Settings → List Text → Action Session Flow}
    (h : handlerOf command = .plain act) (arguments : List Text) :
    Forgetful (act settings arguments) := by
  cases command with
  | run | ifExists | ifNotExists | ifUpgradeTo => cases h
  | message | notify =>
    cases h
    exact forgetful_of_couples fun _ _ => Coupling.couples_told _ ⟨rfl, rfl⟩ _
  | pack =>
    cases h
    exact forgetful_of_couples fun _ _ => Coupling.couples_pack settings arguments
  | unpack =>
    cases h
    exact forgetful_of_couples fun _ _ => Coupling.couples_unpack settings
  | delete =>
    cases h
    exact untilExit_forgetful (fun a =>
      forgetful_of_couples fun _ _ => Coupling.couples_deleteOne settings a) arguments
  | kill =>
    cases h
    exact untilExit_forgetful (fun a =>
      forgetful_of_couples fun _ _ => Coupling.couples_killOne a) arguments
  | serviceStart =>
    cases h
    exact untilExit_forgetful (fun a => forgetful_of_couples fun _ _ =>
      Coupling.couples_serviceStep
        (fun _ => ⟨Service.start_oblivious _ _ _, Service.start_evolves _ _ _⟩) a) arguments
  | serviceStop =>
    cases h
    exact untilExit_forgetful (fun a => forgetful_of_couples fun _ _ =>
      Coupling.couples_serviceStep
        (fun _ => ⟨Service.stop_oblivious _ _ _, Service.stop_evolves _ _ _⟩) a) arguments
  | passAssemblyVersion =>
    cases h
    exact forgetful_of_couples fun _ _ => Coupling.couples_passAssemblyVersion settings arguments

theorem descend_forgetful {nested : Nested}
    {enter : (List Text → Action Session Flow) → Nested → Action Session Flow}
    (h : ∀ run below, nested = run :: below → Forgetful (enter run below)) :
    Forgetful (descend nested enter) := by
  cases nested with
  | nil => exact forgetful_throw _
  | cons run below => exact h run below rfl

/-- A command is forgetful when the scripts to which it hands over are. -/
theorem execute_forgetful {nested : Nested} (h : ∀ run ∈ nested, ∀ names, Forgetful (run names))
    (tokens : List Text) : Forgetful (execute settings nested tokens) := by
  match tokens with
  | [] => exact forgetful_throw _
  | name :: arguments =>
    unfold execute
    split
    · exact (say_forgetful _ _).bind fun _ => forgetful_pure _
    · exact forgetful_of_couples fun _ _ => Coupling.couples_runProcess _ _ _
    · refine (say_forgetful _ _).bind fun _ => ?_
      split
      · next plain => exact plain_forgetful settings plain _
      · exact descend_forgetful fun run _ hn => h run (hn ▸ List.mem_cons_self ..) arguments
      · split
        · exact (require_forgetful _ _ _).bind fun _ => forgetful_pure _
        · next path rest =>
          refine (require_forgetful _ _ _).bind fun _ =>
            (decide_forgetful settings path _).bind fun decision => ?_
          split
          · exact forgetful_pure _
          · split
            · exact forgetful_pure _
            · exact descend_forgetful fun run below hn =>
                execute_forgetful (fun r hr => h r (hn ▸ List.mem_cons_of_mem _ hr)) rest
termination_by tokens.length

theorem levels_forgetful (limit : Nat) :
    ∀ run ∈ levels settings limit, ∀ names, Forgetful (run names) := by
  intro run hrun names s j
  obtain ⟨l, -, rfl⟩ := mem_levels hrun
  exact runScripts_after settings (l + 1) names s j

end

def Session.unlogged (s : Session) : Session :=
  { s with world := { s.world with journal := s.world.journal.trace } }

theorem Session.unlogged_announced (s : Session) (command : Command) (arguments : List Text) :
    (s.announced command arguments).unlogged = s.unlogged := by
  simp only [unlogged, announced, Journal.trace_append]
  simp [Journal.trace, Entry.isEvent, Entry.isEffect]

theorem Session.unlogged_after (s : Session) (j : Journal) :
    (s.after j).unlogged = s.unlogged.after j.trace := by
  simp only [unlogged, after, World.after, Journal.trace_append]

/-- Started in sessions that differ in their log at most, a forgetful action ends in such. -/
theorem Forgetful.unlogged {a : Action Session α} (ha : Forgetful a) {s t : Session}
    (h : s.unlogged = t.unlogged) :
    mapEnd Session.unlogged (a s) = mapEnd Session.unlogged (a t) := by
  -- both sessions are one with an empty journal, put after journals of the same events and effects
  let r : Session := { s with world := { s.world with journal := [] } }
  have hs : s = r.after s.world.journal := by simp [r, Session.after, World.after]
  have hbare : t = { s with world := { s.world with journal := t.world.journal } } :=
    (congrArg (fun s : Session => { s with world := { s.world with journal := t.world.journal } })
      h).symm
  have ht : t = r.after t.world.journal := hbare.trans (by simp [r, Session.after, World.after])
  have htrace : s.world.journal.trace = t.world.journal.trace :=
    congrArg (·.world.journal) h
  rw [hs, ht, ha, ha]
  cases a r with
  | ok x r' => simp only [mapEnd, Session.unlogged_after, htrace]
  | error e r' => simp only [mapEnd, Session.unlogged_after, htrace]

/-- A condition on a path: that something is there, or that nothing is. -/
structure Test where
  wanted : Bool
  word : Text
  path : Text
  head : headOf word = .builtin (if wanted then .ifExists else .ifNotExists)
  path_ne : path ≠ []

namespace Test

def tokens (t : Test) : List Text := [t.word, t.path]

def command (t : Test) : Command := if t.wanted then .ifExists else .ifNotExists

def holds (t : Test) (settings : Settings) (w : World) : Bool :=
  w.pathExists (settings.pathOf t.path) == t.wanted

theorem handlerOf_command (t : Test) :
    ∃ condition, handlerOf t.command = .condition condition ∧
      ∀ settings s, condition.decide settings t.path s =
        .ok (if t.holds settings s.world then none else some .next) s := by
  obtain ⟨wanted, word, path, head, path_ne⟩ := t
  cases wanted with
  | true =>
    refine ⟨.fileThere, rfl, fun settings s => congrArg (EStateM.Result.ok · s) ?_⟩
    simp [holds]
  | false =>
    refine ⟨.fileMissing, rfl, fun settings s => congrArg (EStateM.Result.ok · s) ?_⟩
    cases h : s.world.pathExists (settings.pathOf path) <;> simp [holds, h]

end Test

def chainTokens (chain : List Test) : List Text := chain.flatMap Test.tokens

/-- What comes of a conjunction: the rest if all conditions hold, or nothing. -/
def underAll (settings : Settings) (nested : Nested) (chain : List Test) (rest : List Text)
    (s : Session) : EStateM.Result Fault Session Flow :=
  if chain.all (·.holds settings s.world) then
    (if rest.isEmpty then pure .next else execute settings nested rest : Action Session Flow) s
  else .ok .next s

section

variable {settings : Settings} {nested : Nested} {rest : List Text}

theorem execute_test (t : Test) (rest : List Text) (s : Session) :
    execute settings nested (t.tokens ++ rest) s =
      executeRest settings nested rest (if t.holds settings s.world then none else some .next)
        (s.announced t.command (t.path :: rest)) := by
  obtain ⟨condition, hcondition, hdecide⟩ := t.handlerOf_command
  have hdecided : condition.decide settings t.path (s.announced t.command (t.path :: rest)) =
      .ok (if t.holds settings s.world then none else some .next)
        (s.announced t.command (t.path :: rest)) := hdecide settings _
  exact (execute_of_condition t.head hcondition t.path_ne).trans (bind_of_ok hdecided)

theorem underAll_cons (t : Test) (chain : List Test) (rest : List Text) (s : Session) :
    underAll settings nested (t :: chain) rest s =
      if t.holds settings s.world then underAll settings nested chain rest s else .ok .next s := by
  rw [underAll, underAll, List.all_cons]
  cases t.holds settings s.world <;> rfl

theorem underAll_congr {chain chain' : List Test} (h : ∀ t, t ∈ chain' ↔ t ∈ chain)
    (rest : List Text) :
    underAll settings nested chain' rest = underAll settings nested chain rest := by
  have hall (w : World) :
      chain'.all (·.holds settings w) = chain.all (·.holds settings w) := by
    rw [Bool.eq_iff_iff]
    simp only [List.all_eq_true, h]
  funext s
  simp only [underAll, hall]

theorem underAll_unlogged (hn : ∀ run ∈ nested, ∀ names, Forgetful (run names))
    (chain : List Test) (rest : List Text) {s t : Session} (h : s.unlogged = t.unlogged) :
    mapEnd Session.unlogged (underAll settings nested chain rest s) =
      mapEnd Session.unlogged (underAll settings nested chain rest t) := by
  have hall : chain.all (·.holds settings s.world) = chain.all (·.holds settings t.world) :=
    (by rw [h] : chain.all (·.holds settings s.unlogged.world) =
      chain.all (·.holds settings t.unlogged.world))
  unfold underAll
  rw [hall]
  split
  · refine Forgetful.unlogged ?_ h
    split
    · exact forgetful_pure _
    · exact execute_forgetful settings hn rest
  · exact congrArg (EStateM.Result.ok Flow.next) h

theorem chainTokens_cons (t : Test) (chain : List Test) (rest : List Text) :
    chainTokens (t :: chain) ++ rest = t.tokens ++ (chainTokens chain ++ rest) := by
  simp [chainTokens]

theorem chainTokens_append_isEmpty {chain : List Test} :
    (chainTokens chain ++ rest).isEmpty = (chain.isEmpty && rest.isEmpty) := by
  cases chain with
  | nil => rfl
  | cons t chain => rfl

/-- With a level for each condition, a chain is its conjunction, up to the log. -/
theorem execute_chainTokens {chain : List Test} (hlength : chain.length ≤ nested.length)
    (hn : ∀ run ∈ nested, ∀ names, Forgetful (run names)) (h : chain ≠ [] ∨ rest ≠ [])
    (s : Session) :
    mapEnd Session.unlogged (execute settings nested (chainTokens chain ++ rest) s) =
      mapEnd Session.unlogged (underAll settings (nested.drop chain.length) chain rest s) := by
  induction chain generalizing nested s with
  | nil =>
    have hrest : rest.isEmpty = false := by simpa using h
    simp [underAll, chainTokens, hrest]
  | cons t chain ih =>
    obtain ⟨run, below, rfl⟩ := List.exists_cons_of_length_pos (Nat.zero_lt_of_lt hlength)
    rw [chainTokens_cons, execute_test, underAll_cons]
    cases t.holds settings s.world with
    | false => exact congrArg (EStateM.Result.ok Flow.next) (s.unlogged_announced _ _)
    | true =>
      have hbelow : ∀ r ∈ below, ∀ names, Forgetful (r names) :=
        fun r hr => hn r (List.mem_cons_of_mem _ hr)
      simp only [executeRest, if_true, chainTokens_append_isEmpty]
      cases hempty : chain.isEmpty && rest.isEmpty with
      | true =>
        obtain ⟨hchain, hrest⟩ := Bool.and_eq_true_iff.mp hempty
        rw [List.isEmpty_iff.mp hchain]
        simp only [underAll, List.all_nil, if_true, hrest]
        exact congrArg (EStateM.Result.ok Flow.next) (s.unlogged_announced _ _)
      | false =>
        have hne : chain ≠ [] ∨ rest ≠ [] := by
          simpa [Decidable.or_iff_not_imp_left] using hempty
        refine (ih (Nat.le_of_succ_le_succ hlength) hbelow hne _).trans ?_
        refine underAll_unlogged (fun r hr => hbelow r (List.mem_of_mem_drop hr)) chain rest ?_
        exact s.unlogged_announced _ _

/-- With fewer levels than conditions before the rest, the chain fails, and nothing is done. -/
theorem execute_chainTokens_tooDeep {chain : List Test} (hlength : nested.length < chain.length)
    (hrest : rest ≠ []) (s : Session) (hall : chain.all (·.holds settings s.world) = true) :
    ∃ s', execute settings nested (chainTokens chain ++ rest) s = .error .nestedTooDeep s' ∧
      s'.unlogged = s.unlogged := by
  induction chain generalizing nested s with
  | nil => exact absurd hlength (Nat.not_lt_zero _)
  | cons t chain ih =>
    rw [List.all_cons, Bool.and_eq_true] at hall
    have hempty : (chainTokens chain ++ rest).isEmpty = false := by simp [hrest]
    rw [chainTokens_cons, execute_test, if_pos hall.1, executeRest, hempty]
    cases nested with
    | nil => exact ⟨_, rfl, s.unlogged_announced _ _⟩
    | cons run below =>
      obtain ⟨s', hend, hs'⟩ := ih (Nat.lt_of_succ_lt_succ hlength)
        (s.announced t.command (t.path :: (chainTokens chain ++ rest))) hall.2
      exact ⟨s', hend, hs'.trans (s.unlogged_announced _ _)⟩

end

theorem tooDeep_mapEnd (f : Session → Session) (r : EStateM.Result Fault Session Flow) :
    tooDeep (mapEnd f r) = tooDeep r := by
  cases r with
  | ok flow s => rfl
  | error e s => cases e <;> rfl

theorem execute_chain_limit (settings : Settings) (limit : Nat) {chain : List Test}
    {rest : List Text} (h : chain ≠ [] ∨ rest ≠ []) (s : Session) :
    tooDeep (execute settings (levels settings limit) (chainTokens chain ++ rest) s) ∨
      mapEnd Session.unlogged
          (execute settings (levels settings limit) (chainTokens chain ++ rest) s) =
        mapEnd Session.unlogged (underAll settings (levels settings limit) chain rest s) := by
  have hmore := execute_extends settings
    (levels_extends settings (Nat.le_add_right limit chain.length)) (chainTokens chain ++ rest) s
  refine hmore.imp_right fun hmore => ?_
  rw [← hmore, execute_chainTokens (by simp) (levels_forgetful settings _) h, drop_levels,
    Nat.add_sub_cancel]

/-- A chain of conditions with some tokens behind it, if there are any tokens at all, is their
conjunction: the rest is executed when all conditions hold, and otherwise nothing is done. Each
condition that holds takes a level from what comes after it. With a level more for each of them the
chain does what the rest does alone, with the same levels it does so unless it runs out of them, and
it does run out, with nothing done, when all hold and there are fewer levels than conditions. Hence
the order of the conditions and the number of times do not matter. -/
theorem execute_chain (settings : Settings) {chain : List Test} {rest : List Text}
    (h : chain ≠ [] ∨ rest ≠ []) (s : Session) :
    let executed (limit : Nat) (chain : List Test) :=
      mapEnd Session.unlogged
        (execute settings (levels settings limit) (chainTokens chain ++ rest) s)
    let conjunction (limit : Nat) :=
      mapEnd Session.unlogged
        ((if chain.all (·.holds settings s.world) then
            if rest.isEmpty then pure .next else execute settings (levels settings limit) rest
          else pure .next : Action Session Flow) s)
    (∀ limit, executed (limit + chain.length) chain = conjunction limit) ∧
    (∀ limit, tooDeep (executed limit chain) ∨ executed limit chain = conjunction limit) ∧
    (∀ limit < chain.length, chain.all (·.holds settings s.world) → rest ≠ [] →
      executed limit chain = .error .nestedTooDeep s.unlogged) ∧
    ∀ chain', (∀ t, t ∈ chain' ↔ t ∈ chain) →
      (∀ limit, executed (limit + chain'.length) chain' = executed (limit + chain.length) chain) ∧
      ∀ limit, tooDeep (executed limit chain') ∨ tooDeep (executed limit chain) ∨
        executed limit chain' = executed limit chain := by
  intro executed conjunction
  have hunder (limit : Nat) :
      mapEnd Session.unlogged (underAll settings (levels settings limit) chain rest s) =
        conjunction limit := by
    simp only [underAll, conjunction]
    split <;> rfl
  have hsame {chain : List Test} (h : chain ≠ [] ∨ rest ≠ []) (limit : Nat) :
      tooDeep (executed limit chain) ∨
        executed limit chain =
          mapEnd Session.unlogged (underAll settings (levels settings limit) chain rest s) := by
    rw [tooDeep_mapEnd]
    exact execute_chain_limit settings limit h s
  have hadded {chain : List Test} (h : chain ≠ [] ∨ rest ≠ []) (limit : Nat) :
      executed (limit + chain.length) chain =
        mapEnd Session.unlogged (underAll settings (levels settings limit) chain rest s) := by
    have heq := @execute_chainTokens settings (levels settings (limit + chain.length)) rest chain
      (by simp) (levels_forgetful settings _) h s
    rwa [drop_levels, Nat.add_sub_cancel] at heq
  refine ⟨fun limit => (hadded h limit).trans (hunder limit), fun limit => ?_,
    fun limit hlimit hall hrest => ?_, fun chain' hmem => ?_⟩
  · rw [← hunder limit]
    exact hsame h limit
  · obtain ⟨s', hend, hs'⟩ := @execute_chainTokens_tooDeep settings (levels settings limit) rest
      chain (by simpa using hlimit) hrest s hall
    simp only [executed, hend, mapEnd, hs']
  · have h' : chain' ≠ [] ∨ rest ≠ [] := h.imp_left fun hne => by
      obtain ⟨t, ht⟩ := List.exists_mem_of_ne_nil chain hne
      exact List.ne_nil_of_mem ((hmem t).mpr ht)
    constructor
    · intro limit
      rw [hadded h limit, hadded h' limit, underAll_congr hmem]
    · intro limit
      obtain hdeep | heq := hsame h limit
      · exact .inr (.inl hdeep)
      · refine (hsame h' limit).imp_right fun heq' => .inr ?_
        rw [heq, heq', underAll_congr hmem]

namespace Conditions

def kept : Test := ⟨true, "IfExists".toList, "keep".toList, by decide +kernel, by decide⟩

def missing : Test := ⟨false, "IfNotExists".toList, "gone".toList, by decide +kernel, by decide⟩

end Conditions

open Deletion Conditions in
/-- Two conditions that hold before a message, in either order. -/
theorem execute_chain_message :
    (mapEnd Session.unlogged (execute settings (levels settings 3)
        ["IfExists".toList, "keep".toList, "IfNotExists".toList, "gone".toList, "Message".toList,
          "hi".toList] home) =
      .ok .next { home with world := { home.world with journal := [.message "hi".toList] } }) ∧
    mapEnd Session.unlogged (execute settings (levels settings 3)
        ["IfNotExists".toList, "gone".toList, "IfExists".toList, "keep".toList, "Message".toList,
          "hi".toList] home) =
      .ok .next { home with world := { home.world with journal := [.message "hi".toList] } } := by
  obtain ⟨hchain, -, -, horder⟩ := @execute_chain settings [kept, missing]
    ["Message".toList, "hi".toList] (.inl (by simp)) home
  have hmessage : mapEnd Session.unlogged
      ((if [kept, missing].all (·.holds settings home.world) then
          if ["Message".toList, "hi".toList].isEmpty then pure .next
          else execute settings (levels settings 1) ["Message".toList, "hi".toList]
        else pure .next : Action Session Flow) home) =
      .ok .next { home with world := { home.world with journal := [.message "hi".toList] } } := by
    have hall : [kept, missing].all (·.holds settings home.world) = true := by decide +kernel
    have hhead : headOf "Message".toList = .builtin .message := by decide +kernel
    rw [if_pos hall, if_neg (by simp), execute_of_plain hhead rfl]
    rfl
  refine ⟨(hchain 1).trans hmessage, ?_⟩
  exact ((horder [missing, kept] (by simp [or_comm])).1 1).trans ((hchain 1).trans hmessage)

open Deletion Conditions in
/-- Without any tokens there is no command to do nothing. A chain that is longer than the limit does
not come to the message behind it, which is sent when it stands alone. -/
theorem execute_chain_fails :
    execute settings (levels settings nestingLimit) (chainTokens [] ++ []) home =
      .error .noTokens home ∧
    tooDeep (execute settings (levels settings nestingLimit)
      (chainTokens (List.replicate (nestingLimit + 1) kept) ++ ["Message".toList, "hi".toList])
      home) ∧
    (List.replicate (nestingLimit + 1) kept).all (·.holds settings home.world) ∧
    ∃ s, execute settings (levels settings nestingLimit) ["Message".toList, "hi".toList] home =
      .ok .next s := by
  have hall : (List.replicate (nestingLimit + 1) kept).all (·.holds settings home.world) := by
    have hkept : kept.holds settings home.world = true := by decide +kernel
    exact List.all_eq_true.mpr fun t ht => List.eq_of_mem_replicate ht ▸ hkept
  have hhead : headOf "Message".toList = .builtin .message := by decide +kernel
  obtain ⟨s, hend, -⟩ := @execute_chainTokens_tooDeep settings (levels settings nestingLimit)
    ["Message".toList, "hi".toList] _ (by simp) (by simp) home hall
  refine ⟨rfl, ?_, hall, _, execute_of_plain hhead rfl⟩
  rw [hend]
  rfl

end Rollout
