import Rollout.Proofs.Coupling
import Rollout.Proofs.Macro
import Rollout.Proofs.Path

namespace Rollout

open Text Script Interpreter

theorem trim_part (t : Text) : trim t <:+: t := by
  have hleft : trimLeft t <:+ t := List.dropWhile_suffix _
  have hright : trim t <+: trimLeft t := by
    rw [trim, trimRight, ← List.reverse_suffix, List.reverse_reverse]
    exact List.dropWhile_suffix _
  exact hright.isInfix.trans hleft.isInfix

theorem cut_parts {mark : Char} {quoted : Bool} {t l r : Text}
    (h : cutUnquoted mark quoted t = some (l, r)) : l <:+: t ∧ r <:+: t := by
  rw [cutUnquoted_eq_append h]
  exact ⟨(List.prefix_append _ _).isInfix,
    ((List.suffix_cons mark r).trans (List.suffix_append _ _)).isInfix⟩

theorem stripComment_part (line : Text) : stripComment line <:+: line := by
  unfold stripComment
  split
  · next code rest h =>
    split
    · exact List.infix_rfl
    · have hcode : trimRight code <+: code := by
        rw [trimRight, ← List.reverse_suffix, List.reverse_reverse]
        exact List.dropWhile_suffix _
      exact hcode.isInfix.trans (cut_parts h).1
  · exact List.infix_rfl

theorem splitAssignment_parts {line left right : Text}
    (h : splitAssignment line = some (left, right)) : left <:+: line ∧ right <:+: line := by
  obtain ⟨⟨l, r⟩, hcut, heq⟩ := Option.map_eq_some_iff.mp h
  cases heq
  obtain ⟨hl, hr⟩ := cut_parts hcut
  exact ⟨(trim_part l).trans hl, (trim_part r).trans hr⟩

theorem name_part (name : Text) : name <:+: spell name :=
  ⟨"$(".toList, ")".toList, rfl⟩

theorem macroName_part {t name : Text} (h : macroName t = some name) : name <:+: t := by
  unfold macroName at h
  dsimp only at h
  split at h
  · next name' length hm =>
    obtain ⟨-, -, rest, hrest⟩ := macroAt_eq_some hm
    split at h
    · cases h
      refine (name_part name).trans (List.IsInfix.trans ?_ (trim_part t))
      rw [hrest]
      exact (List.prefix_append _ _).isInfix
    · cases h
  · cases h

theorem pieces_part {t name : Text} (h : .found name ∈ pieces t) : name <:+: t := by
  obtain ⟨before, after, hps⟩ := List.append_of_mem h
  obtain ⟨-, ht⟩ := eq_of_pieces hps
  refine (name_part name).trans ⟨written spell before, written spell after, ht.symm⟩

theorem part_of_mem_activeLines {t line : Text} (h : line ∈ activeLines t) : line <:+: t := by
  obtain ⟨hline, -⟩ := List.mem_filter.mp h
  obtain ⟨piece, hpiece, rfl⟩ := List.mem_map.mp hline
  exact (trim_part piece).trans (part_of_mem_splitOn hpiece)

namespace Coupling

variable {C : Coupling} {d d' : Nat}

theorem valueOf_eq {vs vs' : Variables} (hvs : C.stores vs vs') {name : Text} (h : C.safe name) :
    valueOf vs' Derived.lookup name = valueOf vs Derived.lookup name := by
  have htarget : vs'.target = vs.target := by rw [C.stores_eq hvs]
  unfold valueOf
  split
  · rfl
  · cases hv : Variable.ofName? name with
    | none => simp only [htarget]
    | some v =>
      have hname : v.name = name := by simpa using List.find?_some hv
      have hget : vs'.get v = vs.get v := C.stores_get hvs (hname ▸ h)
      simp only [hget]

theorem resolve_eq {vs vs' : Variables} (hvs : C.stores vs vs') {line : Text} (h : C.safe line) :
    resolve vs' Derived.lookup line = resolve vs Derived.lookup line := by
  have hnames : ∀ name, .found name ∈ occurrences macroAt 0 line → C.safe name :=
    fun name hname => C.safe_part h (pieces_part hname)
  unfold resolve
  generalize occurrences macroAt 0 line = ps at hnames
  induction ps with
  | nil => rfl
  | cons piece rest ih =>
    have hrest := ih fun name hname => hnames name (List.mem_cons_of_mem _ hname)
    cases piece with
    | plain c => rw [substitute, substitute, hrest]
    | found name =>
      rw [substitute, substitute, hrest, C.valueOf_eq hvs (hnames name (List.mem_cons_self ..))]

theorem couples_resolveMacros {P : Text → Prop} {line : Text} (h : C.safe line) :
    C.Couples d d' P (resolveMacros line) (resolveMacros line) := by
  refine couples_read (fun {s t} hst => ?_) fun s => ?_
  · rw [C.resolve_eq (C.inStep_store hst) h]
  · exact couples_onWorld ⟨resolve_oblivious _ _, resolve_evolves _ _⟩

theorem set_eq_error {vs : Variables} {v : Variable} {t : Text} {e : ScriptError}
    (h : vs.set v t = .error e) (vs' : Variables) : vs'.set v t = .error e := by
  cases v with
  | processTimeout =>
    unfold Variables.set at h ⊢
    cases ht : toInt t with
    | ok n => simp [ht] at h
    | error e' => simpa [ht] using h
  | _ => exact absurd h nofun

theorem couples_assign {name value : Text} (hname : C.safe name) (hvalue : C.safe value) :
    C.Couples d d' Never (assign name value) (assign name value) := by
  refine (couples_resolveMacros hvalue).andThen fun value s t hst hs ht => ?_
  rw [get_bind, get_bind, Variables.assign, Variables.assign]
  cases hv : Variable.ofName? name with
  | none => exact .error (C.alike_refl _) hst hs ht
  | some v =>
    have hsafe : C.safe v.name := by
      have heq : v.name = name := by simpa using List.find?_some hv
      exact heq ▸ hname
    dsimp only
    cases hset : s.store.set v value with
    | error e =>
      rw [set_eq_error hset t.store]
      exact .error (C.alike_refl _) hst hs ht
    | ok vs =>
      obtain ⟨vs', hset', hvs⟩ := C.stores_set (C.inStep_store hst) hsafe hset
      rw [hset']
      exact .ok (C.inStep_update hst hvs) hs ht

theorem couples_executeAssignment {left right : Text} (hl : C.safe left) (hr : C.safe right) :
    C.Couples d d' Never (executeAssignment left right) (executeAssignment left right) := by
  unfold executeAssignment
  split
  · exact couples_located _
  · next name hname =>
    have hsafe : C.safe name := C.safe_part hl (macroName_part hname)
    refine (couples_assign hsafe hr).andThen fun _ => couples_read (fun {s t} hst => ?_) fun s => ?_
    · rw [C.valueOf_eq (C.inStep_store hst) hsafe]
    · refine Couples.andThen (couples_onWorld ?_) fun value => couples_say .debug nofun _
      exact ⟨valueOf_oblivious _ _, valueOf_evolves _ _⟩

def Within (C : Coupling) (limit limit' : Nat) : Prop :=
  limit = limit' ∨ (limit ≤ limit' ∧ C.firstYields .nestedTooDeep) ∨
    (limit' ≤ limit ∧ C.secondYields .nestedTooDeep)

theorem Within.pred {limit limit' : Nat} (h : C.Within (limit + 1) (limit' + 1)) :
    C.Within limit limit' :=
  h.imp Nat.succ.inj (Or.imp (And.imp_left Nat.le_of_succ_le_succ)
    (And.imp_left Nat.le_of_succ_le_succ))

theorem coupled_tooDeep {limit limit' : Nat} (hl : C.Within limit limit')
    (hz : limit = 0 ∨ limit' = 0) {P : Flow → Prop} {a b : Action Session Flow} {s t : Session}
    (ha : limit = 0 → a s = .error .nestedTooDeep s)
    (hb : limit' = 0 → b t = .error .nestedTooDeep t)
    (hst : C.inStep s t) (hs : s.depth = d) (ht : t.depth = d') :
    C.Coupled d d' P (a s) (b t) := by
  obtain rfl | ⟨hle, hyields⟩ | ⟨hle, hyields⟩ := hl
  · rw [ha (hz.elim id id), hb (hz.elim id id)]
    exact .error (C.alike_refl _) hst hs ht
  · rw [ha (by omega)]
    exact .first hyields
  · rw [hb (by omega)]
    exact .second hyields

/-- Started in `s` and in `t`, the step does the same in both runs however scripts are run, or it
hands over to the same scripts. -/
inductive Hands (C : Coupling) (d d' limit limit' : Nat) (step : Nested → Action Session Flow)
    (s t : Session) : Prop
  | alone (coupled : ∀ nested nested', nested.length = limit → nested'.length = limit' →
      (∀ run ∈ nested', ∀ names, Conducts IsExit (run names)) →
      C.Coupled d d' IsExit (step nested s) (step nested' t))
  | scripts {l l' : Nat} {names : List Text} {s' t' : Session} (levels : C.Within l l')
      (defers : Defers limit step s l names s') (defers' : Defers limit' step t l' names t')
      (inStep : C.inStep s' t') (hs : s'.depth = d) (ht : t'.depth = d')

variable {limit limit' : Nat}

theorem Couples.hands {a : Action Session Flow} (h : C.Couples d d' IsExit a a) {s t : Session}
    (hst : C.inStep s t) (hs : s.depth = d) (ht : t.depth = d') :
    C.Hands d d' limit limit' (fun _ => a) s t := .alone fun _ _ _ _ _ => h s t hst hs ht

/-- What comes before does the same however scripts are run. -/
theorem Couples.bind_hands {α : Type} {P : α → Prop} {a : Action Session α}
    {f : α → Nested → Action Session Flow} (ha : C.Couples d d' P a a)
    (hf : ∀ x s t, C.inStep s t → s.depth = d → t.depth = d' →
      C.Hands d d' limit limit' (f x) s t)
    (hP : ∀ x, P x → (∀ nested, f x nested = pure .exit) ∧ 0 < d' ∧
      ∀ x nested, (∀ run ∈ nested, ∀ names, Conducts IsExit (run names)) →
        Conducts IsExit (f x nested))
    {s t : Session} (hst : C.inStep s t) (hs : s.depth = d) (ht : t.depth = d') :
    C.Hands d d' limit limit' (fun nested => a >>= fun x => f x nested) s t := by
  have hcoupled := ha s t hst hs ht
  by_cases hsame : ∃ x s₁ t₁, a s = .ok x s₁ ∧ a t = .ok x t₁ ∧ C.inStep s₁ t₁ ∧
      s₁.depth = d ∧ t₁.depth = d'
  · obtain ⟨x, s₁, t₁, has, hat, hst₁, hs₁, ht₁⟩ := hsame
    cases hf x s₁ t₁ hst₁ hs₁ ht₁ with
    | alone coupled =>
      refine .alone fun nested nested' hn hn' hc => ?_
      rw [bind_of_ok has, bind_of_ok hat]
      exact coupled nested nested' hn hn' hc
    | scripts levels defers defers' inStep hs₂ ht₂ =>
      exact .scripts levels (defers.bind has) (defers'.bind hat) inStep hs₂ ht₂
  · refine .alone fun nested nested' _ _ hc => hcoupled.bind ?_ fun x hx => ?_
    · intro x s₁ t₁ has hat hst₁ hs₁ ht₁
      exact absurd ⟨x, s₁, t₁, has, hat, hst₁, hs₁, ht₁⟩ hsame
    · obtain ⟨hexit, hd, hconducts⟩ := hP x hx
      exact ⟨⟨.exit, rfl, hexit nested⟩, hd, fun x => hconducts x nested' hc⟩

theorem Couples.andThen_hands {α : Type} {a : Action Session α}
    {f : α → Nested → Action Session Flow} (ha : C.Couples d d' Never a a)
    (hf : ∀ x s t, C.inStep s t → s.depth = d → t.depth = d' →
      C.Hands d d' limit limit' (f x) s t)
    {s t : Session} (hst : C.inStep s t) (hs : s.depth = d) (ht : t.depth = d') :
    C.Hands d d' limit limit' (fun nested => a >>= fun x => f x nested) s t :=
  ha.bind_hands hf nofun hst hs ht

theorem Hands.down {f : Nested → Action Session Flow} {s t : Session} (hl : C.Within limit limit')
    (hf : ∀ limit limit', C.Within limit limit' → C.Hands d d' limit limit' f s t)
    (hst : C.inStep s t) (hs : s.depth = d) (ht : t.depth = d') :
    C.Hands d d' limit limit' (fun nested => descend nested fun _ below => f below) s t := by
  by_cases hz : limit = 0 ∨ limit' = 0
  · refine .alone fun nested nested' hn hn' _ => coupled_tooDeep hl hz ?_ ?_ hst hs ht
    · intro h
      rw [List.length_eq_zero_iff.mp (hn.trans h)]
      rfl
    · intro h
      rw [List.length_eq_zero_iff.mp (hn'.trans h)]
      rfl
  · obtain ⟨m, rfl⟩ := Nat.exists_eq_succ_of_ne_zero fun h => hz (.inl h)
    obtain ⟨m', rfl⟩ := Nat.exists_eq_succ_of_ne_zero fun h => hz (.inr h)
    cases hf m m' hl.pred with
    | alone coupled =>
      refine .alone fun nested nested' hn hn' hc => ?_
      obtain ⟨run, below, rfl⟩ := List.exists_cons_of_length_eq_add_one hn
      obtain ⟨run', below', rfl⟩ := List.exists_cons_of_length_eq_add_one hn'
      exact coupled below below' (Nat.succ.inj hn) (Nat.succ.inj hn')
        fun r hr => hc r (List.mem_cons_of_mem _ hr)
    | scripts levels defers defers' inStep hs' ht' =>
      exact .scripts levels defers.down defers'.down inStep hs' ht'

theorem execute_hands (hd : 0 < d') (hl : C.Within limit limit') (settings : Settings)
    (tokens : List Text) {s t : Session} (hst : C.inStep s t) (hs : s.depth = d)
    (ht : t.depth = d') :
    C.Hands d d' limit limit' (fun nested => execute settings nested tokens) s t := by
  -- on the number of tokens, since a condition that holds takes two of them
  induction hlength : tokens.length using Nat.strong_induction_on
    generalizing tokens limit limit' s t with
  | _ n ih =>
    match tokens with
    | [] => exact (couples_throw _).hands hst hs ht
    | name :: arguments =>
      unfold execute
      split
      · exact (couples_said .debug nofun _ _).hands hst hs ht
      · exact (couples_runProcess _ _ _).hands hst hs ht
      · refine (couples_say .debug nofun _).andThen_hands (fun _ s t hst hs ht => ?_) hst hs ht
        split
        · next plain => exact (couples_plain hd plain _ _).hands hst hs ht
        · exact .scripts hl (.here _ _ _) (.here _ _ _) hst hs ht
        · split
          · exact ((couples_require _ _ _).andThen fun _ => couples_pure _).hands hst hs ht
          · next path rest =>
            refine (couples_require _ _ _).andThen_hands (fun _ s t hst hs ht => ?_) hst hs ht
            refine (couples_decide hd settings path _).bind_hands
              (fun decision s t hst hs ht => ?_) ?_
              hst hs ht
            · split
              · exact (couples_pure _).hands hst hs ht
              · split
                · exact (couples_pure _).hands hst hs ht
                · have hless : rest.length < n := by
                    rw [← hlength]
                    simp only [List.length_cons]
                    omega
                  exact .down hl (fun _ _ hl => ih _ hless hl rest hst hs ht rfl) hst hs ht
            · rintro _ rfl
              refine ⟨fun _ => rfl, hd, fun decision nested hc => ?_⟩
              split
              · exact .of_calm (obeys_pure _)
              · split
                · exact .of_calm (obeys_pure _)
                · exact descend_conducts fun run below h =>
                    execute_conducts (fun r hr => hc r (h ▸ List.mem_cons_of_mem _ hr)) rest

theorem executeLine_hands (hd : 0 < d') (hl : C.Within limit limit') (settings : Settings)
    {line : Text} (h : C.safe line) {s t : Session} (hst : C.inStep s t) (hs : s.depth = d)
    (ht : t.depth = d') :
    C.Hands d d' limit limit' (fun nested => executeLine settings nested line) s t := by
  unfold executeLine
  split
  · next left right hparts =>
    obtain ⟨hl, hr⟩ := splitAssignment_parts hparts
    refine Couples.hands ?_ hst hs ht
    exact (couples_executeAssignment (C.safe_part h hl) (C.safe_part h hr)).andThen
      fun _ => couples_pure _
  · exact (couples_resolveMacros h).andThen_hands
      (fun resolved s t hst hs ht => execute_hands hd hl settings (tokenize resolved) hst hs ht)
      hst hs ht

theorem inStep_begin {s t : Session} (h : C.inStep s t) (a : Activation) :
    C.inStep (s.begin a) (t.begin a) := by
  have hplace := C.inStep_place h (some a.script) (some a.line)
  obtain ⟨j, hworld, hgrow⟩ := C.inStep_world hplace
  have ht : t.world = { s.world with journal := j } := hworld
  have hbegin := hgrow s.world [.log .debug .interpreter (a.script ++ ": ".toList ++ a.line)]
  rw [Session.begin, Session.begin, ht]
  exact hbegin

theorem Hands.coupled {step : Nested → Action Session Flow} {s t : Session}
    (h : C.Hands d d' limit limit' step s t) (settings settings' : Settings)
    (hn : ∀ l l' names s' t', C.Within l l' → Defers limit step s l names s' → C.inStep s' t' →
      s'.depth = d → t'.depth = d' →
      C.Coupled d d' IsExit (runScripts settings l names s') (runScripts settings' l' names t')) :
    C.Coupled d d' IsExit (step (levels settings limit) s) (step (levels settings' limit') t) := by
  cases h with
  | alone coupled =>
    exact coupled _ _ (length_levels settings limit) (length_levels settings' limit')
      (levels_conducts settings' limit')
  | scripts levels defers defers' inStep hs ht =>
    rw [defers.eq_runScripts settings, defers'.eq_runScripts settings']
    exact hn _ _ _ _ _ levels defers inStep hs ht

end Coupling

def LooksUp (settings : Settings) (limit : Nat) (names : List Text) (s : Session) (name : Text)
    (s' : Session) : Prop :=
  ∃ active limit₁ names₁ s₁ before after,
    Course settings limit names s active (limit₁ + 1) names₁ s₁ ∧
    names₁ = before ++ name :: after ∧ name ≠ exitToken ∧
    Passes settings limit₁ before s₁.deepened s'

section

variable {settings : Settings} {limit : Nat} {names : List Text} {s s₁ s' : Session} {name : Text}

theorem LooksUp.here {before after : List Text} (hnames : names = before ++ name :: after)
    (hne : name ≠ exitToken) (hpasses : Passes settings limit before s.deepened s') :
    LooksUp settings (limit + 1) names s name s' :=
  ⟨[], limit, names, s, before, after, .here, hnames, hne, hpasses⟩

theorem LooksUp.call {limit₁ : Nat} {names₁ : List Text} {s₂ : Session} {a : Activation}
    (begins : Begins settings limit names s.deepened a s₁)
    (calls : Calls settings limit a.line s₁ limit₁ names₁ s₂)
    (h : LooksUp settings limit₁ names₁ s₂ name s') :
    LooksUp settings (limit + 1) names s name s' := by
  obtain ⟨active, limit₂, names₂, s₃, before, after, course, h⟩ := h
  exact ⟨active ++ [a], limit₂, names₂, s₃, before, after, .call begins calls course, h⟩

end

theorem onWorld_of_ok {α : Type} {a : Action World α} {s : Session} {x : α} {w : World}
    (h : a s.world = .ok x w) : onWorld a s = .ok x { s with world := w } := by
  rw [onWorld, h]

theorem onWorld_of_error {α : Type} {a : Action World α} {s : Session} {e : Fault} {w : World}
    (h : a s.world = .error e w) : onWorld a s = .error e { s with world := w } := by
  rw [onWorld, h]

theorem onWorld_eq_ok {α : Type} {a : Action World α} {s s' : Session} {x : α}
    (h : onWorld a s = .ok x s') : ∃ w, a s.world = .ok x w ∧ s' = { s with world := w } := by
  unfold onWorld at h
  cases ha : a s.world with
  | ok y w =>
    rw [ha] at h
    cases h
    exact ⟨w, rfl, rfl⟩
  | error e w =>
    rw [ha] at h
    cases h

theorem onWorld_eq_error {α : Type} {a : Action World α} {s s' : Session} {e : Fault}
    (h : onWorld a s = .error e s') : ∃ w, a s.world = .error e w ∧ s' = { s with world := w } := by
  unfold onWorld at h
  cases ha : a s.world with
  | ok y w =>
    rw [ha] at h
    cases h
  | error e w =>
    rw [ha] at h
    cases h
    exact ⟨w, rfl, rfl⟩

def Session.concluded (s : Session) : Session :=
  if s.depth = 0 ∧ s.failed = false ∧ s.status = .ok then s.succeeded else s

theorem Session.concluded_of_depth {s : Session} (h : 0 < s.depth) : s.concluded = s :=
  if_neg fun hs => absurd hs.1 (Nat.pos_iff_ne_zero.mp h)

theorem Session.depth_concluded (s : Session) : s.concluded.depth = s.depth := by
  unfold concluded
  split <;> rfl

def surfaced : EStateM.Result Fault Session Flow → EStateM.Result Fault Session Flow
  | .ok flow s => .ok flow s.raised.concluded
  | .error e s => .error e s.raised

theorem runScripts_eq (settings : Settings) (limit : Nat) (names : List Text) (s : Session) :
    runScripts settings (limit + 1) names s =
      surfaced (untilExit (runNamed settings (levels settings limit)) names s.deepened) := by
  cases h : untilExit (runNamed settings (levels settings limit)) names s.deepened with
  | error e t => exact runScripts_of_error h
  | ok flow t =>
    have hdeeper : deeper (untilExit (runNamed settings (levels settings limit)) names) s =
        .ok flow t.raised := by
      rw [Session.deepened] at h
      simp only [deeper, h]
      rfl
    exact (bind_of_ok hdeeper).trans (bind_of_ok (reportSuccess_eq _))

theorem Session.depth_raised {s : Session} {n : Nat} (h : s.depth = n + 1) : s.raised.depth = n := by
  rw [raised, h]
  rfl

/-- Within scripts, nobody is told of success. -/
theorem runScripts_within {settings : Settings} {limit : Nat} {names : List Text} {s : Session}
    (hd : 0 < s.depth) :
    runScripts settings (limit + 1) names s =
      mapEnd Session.raised
        (untilExit (runNamed settings (levels settings limit)) names s.deepened) := by
  let scripts := untilExit (runNamed settings (levels settings limit)) names
  have hconducts : ConductsAt IsExit scripts s.deepened :=
    untilExit_conducts (runNamed_conducts (levels_conducts settings limit)) names _ (Nat.succ_pos _)
  rw [ConductsAt] at hconducts
  rw [runScripts_eq]
  change surfaced (scripts s.deepened) = mapEnd Session.raised (scripts s.deepened)
  cases hscripts : scripts s.deepened with
  | error e t => rfl
  | ok flow t =>
    rw [hscripts] at hconducts
    have hdepth : t.depth = s.depth + 1 := by
      obtain hcalm | ⟨-, hhalts⟩ := hconducts
      · exact hcalm.depth
      · exact hhalts.depth
    have hraised : 0 < t.raised.depth := Session.depth_raised hdepth ▸ hd
    exact congrArg _ (Session.concluded_of_depth hraised)

/-- Two answers of the same world: values that are related, or the same fault. -/
inductive SameAnswer {α : Type} (R : α → α → Prop) :
    EStateM.Result Fault World α → EStateM.Result Fault World α → Prop
  | ok {x x' : α} {w : World} (related : R x x') : SameAnswer R (.ok x w) (.ok x' w)
  | error {e : Fault} {w : World} : SameAnswer R (.error e w) (.error e w)

namespace Coupling

variable {C : Coupling} {L : Text → Text → Prop} {d d' : Nat} {settings settings' : Settings}
  {limit limit' : Nat}

/-- Lines that may stand for each other: they have the same code, and the runs stay in step when
they begin. -/
structure Exchanges (C : Coupling) (L : Text → Text → Prop) : Prop where
  code {line line' : Text} (h : L line line') : stripComment line' = stripComment line
  begins {line line' : Text} (h : L line line') {s t : Session} (hst : C.inStep s t)
    (script : Text) : C.inStep (s.begin ⟨script, line⟩) (t.begin ⟨script, line'⟩)

theorem exchanges_eq : C.Exchanges Eq where
  code h := by rw [h]
  begins h _ _ hst script := h ▸ inStep_begin hst ⟨script, _⟩

structure SameScript (C : Coupling) (L : Text → Text → Prop) (text text' : Text) : Prop where
  safe : C.safe text
  lines : List.Forall₂ L (activeLines text) (activeLines text')

/-- Scripts of a list, one after the other, when those that their lines run are coupled. -/
theorem coupled_names {names : List Text} {s t : Session} (hd : 0 < d') (hL : C.Exchanges L)
    (hl : C.Within limit limit')
    (hscripts : ∀ before name after s₁, names = before ++ name :: after → name ≠ exitToken →
      Passes settings limit before s s₁ →
      SameAnswer (C.SameScript L) (settings.resources.readText (unquote name) s₁.world)
        (settings'.resources.readText (unquote name) s₁.world))
    (hlines : ∀ a s₁, Begins settings limit names s a s₁ → ∀ nested : Nested,
      nested.length = limit →
        executeLine settings' nested (stripComment a.line) s₁ =
          executeLine settings nested (stripComment a.line) s₁)
    (hnested : ∀ a s₁ limit₁ limit₁' names₁ s₂ t₂, Begins settings limit names s a s₁ →
      Calls settings limit a.line s₁ limit₁ names₁ s₂ → C.Within limit₁ limit₁' →
      C.inStep s₂ t₂ → s₂.depth = d → t₂.depth = d' →
      C.Coupled d d' IsExit (runScripts settings limit₁ names₁ s₂)
        (runScripts settings' limit₁' names₁ t₂))
    (hst : C.inStep s t) (hs : s.depth = d) (ht : t.depth = d') :
    C.Coupled d d' IsExit (untilExit (runNamed settings (levels settings limit)) names s)
      (untilExit (runNamed settings' (levels settings' limit')) names t) := by
  have hc := levels_conducts settings' limit'
  refine coupled_untilExit hd (runNamed_conducts hc) ?_ hst hs ht
  intro before name after s₁ t₁ hnames hpasses hst₁ hs₁ ht₁
  by_cases hne : name = exitToken
  · rw [runNamed, runNamed, if_pos hne, if_pos hne]
    exact .ok hst₁ hs₁ ht₁
  rw [runNamed_of_ne hne, runNamed_of_ne hne]
  have hanswer := hscripts before name after s₁ hnames hne hpasses
  generalize hread : settings.resources.readText (unquote name) s₁.world = r at hanswer
  generalize hread' : settings'.resources.readText (unquote name) s₁.world = r' at hanswer
  -- what the second run reads is what is read where the first one is
  obtain ⟨s₂, t₂, hst₂, hs₂, ht₂, ⟨text', hx, hx'⟩ | ⟨e, he, he'⟩⟩ :=
    C.onWorld_cases ⟨settings'.resources.readText_oblivious (unquote name),
      settings'.resources.readText_evolves (unquote name)⟩ hst₁
  · -- the script is found, and its lines are executed
    obtain ⟨w, hw, rfl⟩ := onWorld_eq_ok hx
    obtain ⟨w', hw', rfl⟩ := onWorld_eq_ok hx'
    cases hread'.symm.trans hw
    cases hanswer with
    | @ok text _ _ same =>
      rw [runScript_of_ok hread, runScript_of_ok hw']
      refine coupled_untilExit_of_related hd (runLine_conducts hc _) same.lines ?_ hst₂
        (hs₂.trans hs₁) (ht₂.trans ht₁)
      intro linesBefore line linesAfter line' s₃ t₃ hlist hline hpassed hst₃ hs₃ ht₃
      let a : Activation := ⟨unquote name, line⟩
      let b : Activation := ⟨unquote name, line'⟩
      have hbegins : Begins settings limit names s a (s₃.begin a) := by
        rw [hnames]
        exact .intro hpasses hne hread hlist hpassed
      have hsafe : C.safe (stripComment line) := by
        have hmem : line ∈ activeLines text := by simp [hlist]
        exact C.safe_part same.safe ((stripComment_part line).trans (part_of_mem_activeLines hmem))
      have heq := hlines a (s₃.begin a) hbegins
      have hbegin : C.inStep (s₃.begin a) (t₃.begin b) := hL.begins hline hst₃ _
      rw [runLine_eq _ a, runLine_eq _ b, hL.code hline, ← heq _ (length_levels settings limit)]
      refine (executeLine_hands hd hl settings' hsafe hbegin hs₃ ht₃).coupled settings settings'
        fun l l' names₁ s₄ t₄ hl' hdefers => ?_
      have hcalls : Calls settings limit line (s₃.begin a) l names₁ s₄ :=
        ⟨hdefers.within, fun nested hn => (heq nested hn).symm.trans (hdefers.eq nested hn)⟩
      exact hnested a (s₃.begin a) l l' names₁ s₄ t₄ hbegins hcalls hl'
  · obtain ⟨w, hw, rfl⟩ := onWorld_eq_error he
    obtain ⟨w', hw', rfl⟩ := onWorld_eq_error he'
    cases hread'.symm.trans hw
    cases hanswer
    by_cases hm : ∃ missing location, e = .missingResource missing location
    · obtain ⟨missing, location, rfl⟩ := hm
      rw [runScript_of_missing hread, runScript_of_missing hw']
      exact couples_fail _ _ _ _ _ hst₂ (hs₂.trans hs₁) (ht₂.trans ht₁)
    · have hother : ∀ missing location, e ≠ .missingResource missing location :=
        fun missing location heq => hm ⟨missing, location, heq⟩
      rw [runScript_of_error hread hother, runScript_of_error hw' hother]
      exact .error (C.alike_refl e) hst₂ (hs₂.trans hs₁) (ht₂.trans ht₁)

/-- Within scripts, one level deeper and back. -/
theorem coupled_deeper {names : List Text} {s t : Session} (hd : 0 < s.depth) (hd' : 0 < t.depth)
    (h : C.Coupled (s.depth + 1) (t.depth + 1) IsExit
      (untilExit (runNamed settings (levels settings limit)) names s.deepened)
      (untilExit (runNamed settings' (levels settings' limit')) names t.deepened)) :
    C.Coupled s.depth t.depth IsExit (runScripts settings (limit + 1) names s)
      (runScripts settings' (limit' + 1) names t) := by
  rw [runScripts_within hd, runScripts_within hd']
  generalize untilExit (runNamed settings (levels settings limit)) names s.deepened = r at h
  generalize untilExit (runNamed settings' (levels settings' limit')) names t.deepened = r' at h
  cases h with
  | ok step hs ht =>
    exact .ok (C.inStep_depth step _ _) (Session.depth_raised hs) (Session.depth_raised ht)
  | error alike step hs ht =>
    exact .error alike (C.inStep_depth step _ _) (Session.depth_raised hs) (Session.depth_raised ht)
  | first yields => exact .first yields
  | second yields => exact .second yields
  | parted exits apart hs ht =>
    have hend : endState (mapEnd Session.raised r') = (endState r').raised := by cases r' <;> rfl
    refine .parted exits ?_ (Session.depth_raised hs) (hend ▸ Session.depth_raised ht)
    rw [hend]
    exact C.apart_depth apart _ _

/-- What the first run comes to is the same under the settings of the second: the scripts that it
looks up have lines that may stand for each other, and a line does the same. -/
structure Follows (C : Coupling) (L : Text → Text → Prop) (settings settings' : Settings)
    (limit : Nat) (names : List Text) (s : Session) : Prop where
  scripts (name : Text) (s₁ : Session) (looksUp : LooksUp settings limit names s name s₁) :
    SameAnswer (C.SameScript L) (settings.resources.readText (unquote name) s₁.world)
      (settings'.resources.readText (unquote name) s₁.world)
  lines (limit₁ : Nat) (names₁ : List Text) (active : List Activation) (a : Activation)
    (s₁ s₂ : Session) (course : Course settings limit names s active (limit₁ + 1) names₁ s₁)
    (begins : Begins settings limit₁ names₁ s₁.deepened a s₂) (nested : Nested)
    (length : nested.length = limit₁) :
    executeLine settings' nested (stripComment a.line) s₂ =
      executeLine settings nested (stripComment a.line) s₂

theorem Follows.call {limit₁ : Nat} {names names₁ : List Text} {s s₁ s₂ : Session}
    {a : Activation} (h : C.Follows L settings settings' (limit + 1) names s)
    (begins : Begins settings limit names s.deepened a s₁)
    (calls : Calls settings limit a.line s₁ limit₁ names₁ s₂) :
    C.Follows L settings settings' limit₁ names₁ s₂ where
  scripts name s₃ looksUp := h.scripts name s₃ (looksUp.call begins calls)
  lines limit₂ names₂ active b s₃ s₄ course begins' :=
    h.lines limit₂ names₂ (active ++ [a]) b s₃ s₄ (.call begins calls course) begins'

/-- A list of scripts in two runs, when those that their lines run are coupled. -/
theorem coupled_list {names : List Text} {s t : Session} (hL : C.Exchanges L)
    (hl : C.Within limit limit')
    (hnested : ∀ limit₁ limit₁' names s t, limit₁ ≤ limit → C.Within limit₁ limit₁' →
      C.Follows L settings settings' limit₁ names s → C.inStep s t → 0 < s.depth → 0 < t.depth →
      C.Coupled s.depth t.depth IsExit (runScripts settings limit₁ names s)
        (runScripts settings' limit₁' names t))
    (hfollows : C.Follows L settings settings' (limit + 1) names s) (hst : C.inStep s t) :
    C.Coupled (s.depth + 1) (t.depth + 1) IsExit
      (untilExit (runNamed settings (levels settings limit)) names s.deepened)
      (untilExit (runNamed settings' (levels settings' limit')) names t.deepened) := by
  refine coupled_names (Nat.succ_pos _) hL hl ?_ ?_ ?_ (C.inStep_depth hst _ _) rfl rfl
  · intro before name after s₁ hnames hne hpasses
    exact hfollows.scripts name s₁ (.here hnames hne hpasses)
  · intro a s₁ hbegins
    exact hfollows.lines limit names [] a s s₁ .here hbegins
  · intro a s₁ limit₁ limit₁' names₁ s₂ t₂ hbegins hcalls hl₁ hst₂ hs₂ ht₂
    have h := hnested limit₁ limit₁' names₁ s₂ t₂ hcalls.within hl₁
      (hfollows.call hbegins hcalls) hst₂ (hs₂ ▸ Nat.succ_pos _) (ht₂ ▸ Nat.succ_pos _)
    rwa [hs₂, ht₂] at h

theorem Follows.coupled_nested (hL : C.Exchanges L) (hl : C.Within limit limit')
    {names : List Text} {s t : Session} (h : C.Follows L settings settings' limit names s)
    (hst : C.inStep s t) (hd : 0 < s.depth) (hd' : 0 < t.depth) :
    C.Coupled s.depth t.depth IsExit (runScripts settings limit names s)
      (runScripts settings' limit' names t) := by
  induction limit using Nat.strongRecOn generalizing limit' names s t with
  | ind limit ih =>
    by_cases hz : limit = 0 ∨ limit' = 0
    · exact coupled_tooDeep hl hz (fun h => h ▸ rfl) (fun h => h ▸ rfl) hst rfl rfl
    · obtain ⟨m, rfl⟩ := Nat.exists_eq_succ_of_ne_zero fun h => hz (.inl h)
      obtain ⟨m', rfl⟩ := Nat.exists_eq_succ_of_ne_zero fun h => hz (.inr h)
      refine coupled_deeper hd hd' (coupled_list hL hl.pred ?_ h hst)
      exact fun limit₁ _ _ _ _ hle hl h => ih limit₁ (Nat.lt_succ_of_le hle) hl h

theorem Follows.coupled_scripts (hL : C.Exchanges L) (hl : C.Within limit limit')
    {names : List Text} {s t : Session} (h : C.Follows L settings settings' (limit + 1) names s)
    (hst : C.inStep s t) :
    C.Coupled (s.depth + 1) (t.depth + 1) IsExit
      (untilExit (runNamed settings (levels settings limit)) names s.deepened)
      (untilExit (runNamed settings' (levels settings' limit')) names t.deepened) :=
  coupled_list hL hl (fun _ _ _ _ _ _ hl h => h.coupled_nested hL hl) h hst

/-- All scripts that the first run looks up are safe. -/
def SafeLookups (C : Coupling) (settings : Settings) (limit : Nat) (names : List Text)
    (s : Session) : Prop :=
  ∀ name s₁ text w, LooksUp settings limit names s name s₁ →
    settings.resources.readText (unquote name) s₁.world = .ok text w → C.safe text

theorem SafeLookups.follows {names : List Text} {s : Session}
    (h : C.SafeLookups settings limit names s) : C.Follows Eq settings settings limit names s where
  scripts name s₁ looksUp := by
    cases hread : settings.resources.readText (unquote name) s₁.world with
    | ok text w =>
      exact .ok ⟨h name s₁ text w looksUp hread, List.forall₂_same.mpr fun _ _ => rfl⟩
    | error e w => exact .error
  lines _ _ _ _ _ _ _ _ _ _ := rfl

theorem coupled_nested (hl : C.Within limit limit') {names : List Text} {s t : Session}
    (hsafe : C.SafeLookups settings limit names s) (hst : C.inStep s t) (hd : 0 < s.depth)
    (hd' : 0 < t.depth) :
    C.Coupled s.depth t.depth IsExit (runScripts settings limit names s)
      (runScripts settings limit' names t) :=
  hsafe.follows.coupled_nested exchanges_eq hl hst hd hd'

theorem coupled_scripts (hl : C.Within limit limit') {names : List Text} {s t : Session}
    (hsafe : C.SafeLookups settings (limit + 1) names s) (hst : C.inStep s t) :
    C.Coupled (s.depth + 1) (t.depth + 1) IsExit
      (untilExit (runNamed settings (levels settings limit)) names s.deepened)
      (untilExit (runNamed settings (levels settings limit')) names t.deepened) :=
  hsafe.follows.coupled_scripts exchanges_eq hl hst

end Coupling

end Rollout
