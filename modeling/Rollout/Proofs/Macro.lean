import Mathlib.Data.List.Infix
import Mathlib.Tactic.Choose
import Rollout.Host.Derived
import Rollout.Proofs.Action

namespace Rollout

open Text Script

def IsMacroName (name : Text) : Prop := name ≠ [] ∧ ∀ c ∈ name, isMacroChar c

instance (name : Text) : Decidable (IsMacroName name) := inferInstanceAs (Decidable (_ ∧ _))

theorem spell_eq (name : Text) : spell name = '$' :: '(' :: (name ++ [')']) := by simp [spell]

theorem spell_append (name t : Text) : spell name ++ t = '$' :: '(' :: (name ++ ')' :: t) := by
  simp [spell]

theorem takeWhile_isMacroChar {name : Text} (h : IsMacroName name) (t : Text) :
    (name ++ ')' :: t).takeWhile isMacroChar = name := by
  rw [List.takeWhile_append_of_pos h.2]
  simp [isMacroChar]

theorem macroAt_spell {name : Text} (h : IsMacroName name) (t : Text) :
    macroAt (spell name ++ t) = some (name, name.length + 3) := by
  have hafter : after? "$(".toList (spell name ++ t) = some (name ++ ')' :: t) := by
    rw [spell_append]
    exact after?_append "$(".toList _
  have hne : name.isEmpty = false := by simpa using h.1
  simp only [macroAt, hafter, takeWhile_isMacroChar h]
  simp [hne]

theorem length_spell (name : Text) : (spell name).length = name.length + 3 := by simp [spell]

theorem macroAt_eq_some {t name : Text} {n : Nat} (h : macroAt t = some (name, n)) :
    IsMacroName name ∧ n = name.length + 3 ∧ ∃ rest, t = spell name ++ rest := by
  unfold macroAt at h
  cases hafter : after? "$(".toList t with
  | none =>
    rw [hafter] at h
    cases h
  | some rest =>
    simp only [hafter, Bool.and_eq_true, Bool.not_eq_true', beq_iff_eq] at h
    split_ifs at h with hname
    obtain ⟨rfl, rfl⟩ := Prod.mk.inj (Option.some.inj h)
    obtain ⟨hne, hclose⟩ := hname
    have hchars : ∀ c ∈ rest.takeWhile isMacroChar, isMacroChar c :=
      List.all_eq_true.mp List.all_takeWhile
    obtain ⟨tail, htail⟩ := List.head?_eq_some_iff.mp hclose
    refine ⟨⟨by simpa using hne, hchars⟩, rfl, tail, ?_⟩
    have hrest : rest = rest.takeWhile isMacroChar ++ ')' :: tail := by
      rw [← htail]
      exact (List.prefix_iff_eq_append.mp (List.takeWhile_prefix _)).symm
    rw [eq_append_of_after? hafter, spell_append]
    exact congrArg (fun r => '$' :: '(' :: r) hrest

theorem macroAt_append {t name : Text} {n : Nat} (h : macroAt t = some (name, n)) (u : Text) :
    macroAt (t ++ u) = some (name, n) := by
  obtain ⟨hname, rfl, rest, rfl⟩ := macroAt_eq_some h
  rw [List.append_assoc]
  exact macroAt_spell hname _

theorem dollar_not_mem {name : Text} (h : IsMacroName name) : '$' ∉ '(' :: (name ++ [')']) := by
  have hname : '$' ∉ name := fun hc => absurd (h.2 _ hc) (by decide)
  simpa using hname

/-- A macro that begins before another one ends before it. -/
theorem macroAt_of_append_dollar {t u name : Text} {n : Nat} (ht : t ≠ [])
    (h : macroAt (t ++ '$' :: u) = some (name, n)) : macroAt t = some (name, n) := by
  obtain ⟨hname, rfl, rest, heq⟩ := macroAt_eq_some h
  obtain ⟨v, hv⟩ | ⟨v, hv⟩ : spell name <+: t ∨ t <+: spell name :=
    List.prefix_or_prefix_of_prefix ⟨rest, heq.symm⟩ (List.prefix_append _ _)
  · rw [← hv]
    exact macroAt_spell hname v
  · rw [← hv, List.append_assoc] at heq
    have hrest := List.append_cancel_left heq
    cases v with
    | nil =>
      rw [List.append_nil] at hv
      simpa [hv] using macroAt_spell hname []
    | cons c v =>
      -- the second dollar sign would stand within the macro
      obtain ⟨rfl, -⟩ := List.cons.inj hrest
      obtain ⟨d, t, rfl⟩ := List.exists_cons_of_ne_nil ht
      rw [spell_eq, List.cons_append] at hv
      have hmem : '$' ∈ t ++ '$' :: v := by simp
      rw [(List.cons.inj hv).2] at hmem
      exact (dollar_not_mem hname hmem).elim

def written (image : Text → Text) (ps : List (Piece Char Text)) : Text :=
  ps.flatMap (Piece.expand image)

section

variable (image : Text → Text) (ps qs : List (Piece Char Text))

@[simp] theorem written_nil : written image [] = [] := rfl

@[simp] theorem written_plain (c : Char) : written image (.plain c :: ps) = c :: written image ps :=
  rfl

@[simp] theorem written_found (name : Text) :
    written image (.found name :: ps) = image name ++ written image ps := by
  simp [written, Piece.expand]

theorem written_append : written image (ps ++ qs) = written image ps ++ written image qs :=
  List.flatMap_append

end

/-- The pieces are those into which their own text is cut. -/
def Proper : List (Piece Char Text) → Prop
  | [] => True
  | .plain c :: ps => macroAt (c :: written spell ps) = none ∧ Proper ps
  | .found name :: ps => IsMacroName name ∧ Proper ps

namespace Proper

variable {ps qs : List (Piece Char Text)}

theorem occurrences_written (h : Proper ps) : occurrences macroAt 0 (written spell ps) = ps := by
  induction ps with
  | nil => rfl
  | cons p ps ih =>
    cases p with
    | plain c => rw [written_plain, occurrences, h.1, ih h.2]
    | found name =>
      have hat := macroAt_spell h.1 (written spell ps)
      have hdrop : (spell name ++ written spell ps).tail.drop (name.length + 2) =
          written spell ps := by
        rw [List.drop_tail, ← length_spell name, List.drop_left]
      rw [written_found]
      rw [spell_eq, List.cons_append] at hat hdrop ⊢
      rw [occurrences, hat]
      dsimp only
      rw [occurrences_skip]
      exact congrArg _ ((congrArg _ hdrop).trans (ih h.2))

theorem of_append_left (h : Proper (ps ++ qs)) : Proper ps := by
  induction ps with
  | nil => trivial
  | cons p ps ih =>
    cases p with
    | plain c =>
      refine ⟨?_, ih h.2⟩
      cases hat : macroAt (c :: written spell ps) with
      | none => rfl
      | some found =>
        have hlong := macroAt_append hat (written spell qs)
        rw [List.cons_append, ← written_append] at hlong
        exact absurd (hlong.symm.trans h.1) nofun
    | found name => exact ⟨h.1, ih h.2⟩

theorem of_append_right (h : Proper (ps ++ qs)) : Proper qs := by
  induction ps with
  | nil => exact h
  | cons p ps ih =>
    cases p with
    | plain c => exact ih h.2
    | found name => exact ih h.2

/-- No macro straddles the beginning of another. -/
theorem append_found {name : Text} (hp : Proper ps) (hn : IsMacroName name) (hq : Proper qs) :
    Proper (ps ++ .found name :: qs) := by
  induction ps with
  | nil => exact ⟨hn, hq⟩
  | cons p ps ih =>
    cases p with
    | found other => exact ⟨hp.1, ih hp.2⟩
    | plain c =>
      refine ⟨?_, ih hp.2⟩
      cases hat : macroAt (c :: written spell (ps ++ .found name :: qs)) with
      | none => rfl
      | some found =>
        rw [written_append, written_found, spell_append, ← List.cons_append] at hat
        have hshort := macroAt_of_append_dollar (List.cons_ne_nil c (written spell ps)) hat
        exact absurd (hshort.symm.trans hp.1) nofun

end Proper

def pieces (t : Text) : List (Piece Char Text) := occurrences macroAt 0 t

theorem written_pieces (t : Text) : written spell (pieces t) = t := by
  refine replaceOccurrences_self macroAt spell (fun t name n h => ?_) t
  obtain ⟨-, rfl, rest, rfl⟩ := macroAt_eq_some h
  rw [← length_spell name, List.take_left]
  exact ⟨by simp [length_spell], rfl⟩

theorem proper_pieces (t : Text) : Proper (pieces t) := by
  induction hn : t.length using Nat.strongRecOn generalizing t with
  | ind n ih =>
    subst hn
    cases t with
    | nil => trivial
    | cons c t =>
      have hrest (u : Text) (hu : u.length ≤ t.length) : Proper (pieces u) :=
        ih u.length (by simpa using Nat.lt_succ_of_le hu) u rfl
      cases hat : macroAt (c :: t) with
      | none =>
        have heq : pieces (c :: t) = .plain c :: pieces t := by simp [pieces, occurrences, hat]
        rw [heq]
        exact ⟨by rw [written_pieces, hat], hrest t le_rfl⟩
      | some found =>
        obtain ⟨name, n⟩ := found
        have heq : pieces (c :: t) = .found name :: pieces (t.drop (n - 1)) := by
          simp [pieces, occurrences, hat, occurrences_skip]
        rw [heq]
        exact ⟨(macroAt_eq_some hat).1, hrest _ (by simp)⟩

theorem Proper.pieces_written {ps : List (Piece Char Text)} (h : Proper ps) :
    pieces (written spell ps) = ps := h.occurrences_written

theorem pieces_append_spell {name : Text} (h : IsMacroName name) (t u : Text) :
    pieces (t ++ spell name ++ u) = pieces t ++ .found name :: pieces u := by
  have hp := (proper_pieces t).append_found h (proper_pieces u)
  have hw := hp.pieces_written
  rwa [written_append, written_found, written_pieces, written_pieces, ← List.append_assoc] at hw

theorem eq_of_pieces {t name : Text} {ps qs : List (Piece Char Text)}
    (h : pieces t = ps ++ .found name :: qs) :
    IsMacroName name ∧ t = written spell ps ++ spell name ++ written spell qs := by
  have hp := proper_pieces t
  rw [h] at hp
  refine ⟨hp.of_append_right.1, ?_⟩
  rw [← written_pieces t, h, written_append, written_found, List.append_assoc]

section

variable {σ : Type}

/-- In the states of `I`, the derived values do not depend on when they are computed. -/
structure Repeatable (lookup : Lookup σ) (I : σ → Prop) : Prop where
  value : ∀ {name : Text} {compute : Action σ (Option Text)}, lookup name = some compute →
    ∃ outcome, ∀ s, I s → ∃ s', attempt compute s = .ok outcome s' ∧ I s'

def Valued (vs : Variables) (lookup : Lookup σ) (I : σ → Prop) (name x : Text) : Prop :=
  ∀ s, I s → ∃ s', valueOf vs lookup name s = .ok x s' ∧ I s'

variable {vs : Variables} {lookup : Lookup σ} {I : σ → Prop}

/-- Where the value of a macro comes from. -/
inductive Origin (vs : Variables) (lookup : Lookup σ) (name : Text) : Prop
  | reserved (isReserved : isReserved name) (eq : valueOf vs lookup name = pure (spell name))
  | stored (v : Variable) (eq : valueOf vs lookup name = pure (quote (vs.get v)))
  | derived {compute : Action σ (Option Text)} (known : lookup name = some compute)
      (eq : valueOf vs lookup name = do
        match ← compute with
        | some value => pure (quote value)
        | none => throw (unresolved name))
  | file (eq : valueOf vs lookup name = pure (quote (Path.join (unquote vs.target) name)))
  | missing (eq : valueOf vs lookup name = throw (unresolved name))

theorem originOf (vs : Variables) (lookup : Lookup σ) (name : Text) : Origin vs lookup name := by
  by_cases hr : isReserved name
  · exact .reserved hr (if_pos hr)
  · have heq : valueOf vs lookup name = _ := if_neg hr
    cases hv : Variable.ofName? name with
    | some v => exact .stored v (by rw [heq, hv])
    | none =>
      cases hl : lookup name with
      | some compute =>
        rw [hv, hl] at heq
        exact .derived hl heq
      | none =>
        by_cases hf : isFileName name
        · exact .file (by rw [heq, hv, hl]; exact if_pos hf)
        · exact .missing (by rw [heq, hv, hl]; exact if_neg hf)

theorem valued_of_pure {name x y : Text} {s s' : σ} (h : valueOf vs lookup name = pure y) (hs : I s)
    (hx : valueOf vs lookup name s = .ok x s') : Valued vs lookup I name x ∧ I s' := by
  rw [h] at hx
  cases hx
  exact ⟨fun s hs => ⟨s, by rw [h]; rfl, hs⟩, hs⟩

theorem Repeatable.valued (h : Repeatable lookup I) {name x : Text} {s s' : σ} (hs : I s)
    (hx : valueOf vs lookup name s = .ok x s') : Valued vs lookup I name x ∧ I s' := by
  cases originOf vs lookup name with
  | reserved _ eq => exact valued_of_pure eq hs hx
  | stored v eq => exact valued_of_pure eq hs hx
  | file eq => exact valued_of_pure eq hs hx
  | missing eq =>
    rw [eq] at hx
    cases hx
  | derived known eq =>
    obtain ⟨outcome, hv⟩ := h.value known
    obtain ⟨s₁, hc, hs₁⟩ := hv s hs
    cases outcome with
    | error e =>
      rw [eq, bind_of_error (attempt_eq_error.mp hc)] at hx
      cases hx
    | ok v =>
      rw [eq, bind_of_ok (attempt_eq_ok.mp hc)] at hx
      cases v with
      | none => cases hx
      | some v =>
        cases hx
        refine ⟨fun s hs => ?_, hs₁⟩
        obtain ⟨s₂, hc, hs₂⟩ := hv s hs
        exact ⟨s₂, by rw [eq, bind_of_ok (attempt_eq_ok.mp hc)]; rfl, hs₂⟩

theorem substitute_valued {image : Text → Text} {ps : List (Piece Char Text)}
    (h : ∀ name, .found name ∈ ps → Valued vs lookup I name (image name)) {s : σ} (hs : I s) :
    ∃ s', substitute (valueOf vs lookup) ps s = .ok (written image ps) s' ∧ I s' := by
  induction ps generalizing s with
  | nil => exact ⟨s, rfl, hs⟩
  | cons p ps ih =>
    have hps : ∀ name, .found name ∈ ps → Valued vs lookup I name (image name) :=
      fun name hn => h name (List.mem_cons_of_mem p hn)
    cases p with
    | plain c =>
      obtain ⟨s', htail, hs'⟩ := ih hps hs
      exact ⟨s', (bind_of_ok htail).trans rfl, hs'⟩
    | found name =>
      obtain ⟨s₁, hhead, hs₁⟩ := h name (List.mem_cons_self ..) s hs
      obtain ⟨s', htail, hs'⟩ := ih hps hs₁
      refine ⟨s', ?_, hs'⟩
      rw [written_found]
      exact (bind_of_ok hhead).trans ((bind_of_ok htail).trans rfl)

theorem Repeatable.valued_of_substitute (h : Repeatable lookup I) {ps : List (Piece Char Text)}
    {s s' : σ}
    {t : Text} (hs : I s) (ht : substitute (valueOf vs lookup) ps s = .ok t s') :
    ∀ name, .found name ∈ ps → ∃ x, Valued vs lookup I name x := by
  induction ps generalizing s s' t with
  | nil => exact fun _ hn => absurd hn List.not_mem_nil
  | cons p ps ih =>
    intro name hn
    cases p with
    | plain c =>
      obtain ⟨tail, s₁, htail, -⟩ := bind_eq_ok.mp ht
      exact ih hs htail name (by simpa using hn)
    | found other =>
      obtain ⟨x, s₁, hx, hrest⟩ := bind_eq_ok.mp ht
      obtain ⟨tail, s₂, htail, -⟩ := bind_eq_ok.mp hrest
      obtain ⟨hv, hs₁⟩ := h.valued hs hx
      obtain hn | hn := List.mem_cons.mp hn
      · cases hn
        exact ⟨x, hv⟩
      · exact ih hs₁ htail name hn

theorem Repeatable.resolve_eq (h : Repeatable lookup I) {line t : Text} {s s' : σ} (hs : I s)
    (ht : resolve vs lookup line s = .ok t s') :
    ∃ image : Text → Text, t = written image (pieces line) ∧
      ∀ name, .found name ∈ pieces line → Valued vs lookup I name (image name) := by
  have hv := h.valued_of_substitute hs ht
  choose! image himage using hv
  obtain ⟨s₁, hok, -⟩ := substitute_valued himage hs
  refine ⟨image, ?_, himage⟩
  have heq := hok.symm.trans ht
  cases heq
  rfl

theorem resolve_valued {image : Text → Text} {ps : List (Piece Char Text)} (hp : Proper ps)
    (h : ∀ name, .found name ∈ ps → Valued vs lookup I name (image name)) {s : σ} (hs : I s) :
    ∃ s', resolve vs lookup (written spell ps) s = .ok (written image ps) s' ∧ I s' := by
  rw [resolve, hp.occurrences_written]
  exact substitute_valued h hs

end

def World.kept (w : World) (d : Derived) (computed : Option Text) : Option Text :=
  (w.memo.lookup d).getD computed

namespace Derived

def valueIn (w : World) : Derived → Option Text
  | solutionDirectory =>
    w.kept .solutionDirectory (w.nearestMarked w.current.length w.current)
  | platformTag => w.kept .platformTag (some w.platformTag)
  | programFiles =>
    w.kept .programFiles <|
      match w.setting "ProgramFiles(x86)" with
      | some (c :: directory) =>
        if w.kept .platformTag (some w.platformTag) = some "x86".toList then some (c :: directory)
        else w.setting "ProgramFiles"
      | _ => w.setting "ProgramFiles"
  | windowsDirectory => w.kept .windowsDirectory w.windowsDirectory
  | systemDirectory =>
    w.kept .systemDirectory <|
      match w.kept .windowsDirectory w.windowsDirectory with
      | some (c :: root) => some (Path.join (c :: root) "System32".toList)
      | _ => none
  | runtimeDirectory => w.kept .runtimeDirectory (some w.runtimeDirectory)
  | nativeCompiler =>
    w.kept .nativeCompiler <|
      (w.kept .runtimeDirectory (some w.runtimeDirectory)).map (Path.join · "NGen.exe".toList)

/-- A derived value is asked for that has not been kept, and it needs a directory that is lost. -/
def fails (w : World) : Derived → Bool
  | solutionDirectory => (w.memo.lookup .solutionDirectory).isNone && w.isLost
  | runtimeDirectory =>
    (w.memo.lookup .runtimeDirectory).isNone && (!Path.isAbsolute w.host.executable && w.isLost)
  | nativeCompiler =>
    (w.memo.lookup .nativeCompiler).isNone && ((w.memo.lookup .runtimeDirectory).isNone &&
      (!Path.isAbsolute w.host.executable && w.isLost))
  | _ => false

def outcome (w : World) (d : Derived) : Except Fault (Option Text) :=
  if d.fails w then .error .lostDirectory else .ok (d.valueIn w)

theorem outcome_of_fails {w : World} {d : Derived} (h : d.fails w = true) :
    d.outcome w = .error .lostDirectory := if_pos h

theorem outcome_of_not_fails {w : World} {d : Derived} (h : d.fails w = false) :
    d.outcome w = .ok (d.valueIn w) := if_neg (by simp [h])

/-- The worlds differ in what has been kept, and not in the derived values. -/
def Agrees (w w' : World) : Prop :=
  (∃ memo, w' = { w with memo }) ∧ valueIn w' = valueIn w ∧ fails w' = fails w

theorem Agrees.refl (w : World) : Agrees w w := ⟨⟨w.memo, rfl⟩, rfl, rfl⟩

theorem Agrees.trans {u v w : World} (h : Agrees u v) (h' : Agrees v w) : Agrees u w := by
  obtain ⟨⟨memo, rfl⟩, hv, hf⟩ := h
  obtain ⟨⟨memo', rfl⟩, hv', hf'⟩ := h'
  exact ⟨⟨memo', rfl⟩, hv'.trans hv, hf'.trans hf⟩

theorem Agrees.outcome_eq {w w' : World} (h : Agrees w w') (d : Derived) :
    d.outcome w' = d.outcome w := by
  rw [outcome, outcome, h.2.1, h.2.2]

theorem valueIn_of_lookup {w : World} {d : Derived} {value : Option Text}
    (h : w.memo.lookup d = some value) : d.valueIn w = value := by
  cases d <;> simp only [valueIn, World.kept, h, Option.getD_some]

theorem nearestMarked_memo (w : World) (memo : List (Derived × Option Text)) (height : Nat)
    (here : Text) :
    World.nearestMarked { w with memo } height here = w.nearestMarked height here := by
  induction height generalizing here with
  | zero => rfl
  | succ height ih => simp only [World.nearestMarked, ih]; rfl

theorem kept_cons_of_ne {w : World} {d d' : Derived} (h : d' ≠ d) (value computed : Option Text) :
    World.kept { w with memo := (d, value) :: w.memo } d' computed = w.kept d' computed := by
  have hne : (d' == d) = false := by simpa using h
  simp only [World.kept, List.lookup_cons, hne]

theorem kept_cons_self (w : World) (d : Derived) (value computed : Option Text) :
    World.kept { w with memo := (d, value) :: w.memo } d computed = value := by
  simp [World.kept]

theorem fails_of_lookup {w : World} {d : Derived} {value : Option Text}
    (h : w.memo.lookup d = some value) : d.fails w = false := by
  cases d <;> simp only [fails, h, Option.isNone_some, Bool.false_and]

/-- A value that is kept is needed no more, and neither is what it has been computed from. -/
theorem fails_keep {w : World} {d : Derived} (hd : d.fails w = false) (value : Option Text) :
    fails { w with memo := (d, value) :: w.memo } = fails w := by
  have hother (b : Derived) (hb : b ≠ d) :
      List.lookup b ((d, value) :: w.memo) = w.memo.lookup b := by
    have hne : (b == d) = false := by simpa using hb
    rw [List.lookup_cons, hne]
  have hlost : World.isLost { w with memo := (d, value) :: w.memo } = w.isLost := rfl
  funext d'
  by_cases hd' : d' = d
  · subst hd'
    rw [hd]
    have hlookup : ((d', value) :: w.memo).lookup d' = some value := List.lookup_cons_self
    exact fails_of_lookup hlookup
  · cases d' with
    | solutionDirectory => simp only [fails, hother _ hd', hlost]
    | runtimeDirectory => simp only [fails, hother _ hd', hlost]
    | nativeCompiler =>
      simp only [fails, hother _ hd', hlost]
      by_cases hruntime : Derived.runtimeDirectory = d
      · subst hruntime
        rw [List.lookup_cons_self, Option.isNone_some, Bool.false_and, ← fails, hd]
      · rw [hother _ hruntime]
    | _ => rfl

theorem agrees_keep {w : World} {d : Derived} (hd : d.fails w = false) :
    Agrees w { w with memo := (d, d.valueIn w) :: w.memo } := by
  refine ⟨⟨_, rfl⟩, funext fun d' => ?_, fails_keep hd _⟩
  by_cases hd : d' = d
  · subst hd
    exact valueIn_of_lookup (by simp)
  · -- a value that others are computed from is the same whether it is kept or not
    have hbase (b : Derived) (computed : Option Text) (hb : b.valueIn w = w.kept b computed) :
        World.kept { w with memo := (d, d.valueIn w) :: w.memo } b computed = w.kept b computed := by
      by_cases h : b = d
      · subst h
        rw [kept_cons_self, hb]
      · exact kept_cons_of_ne h _ _
    have hplatform := hbase .platformTag (some w.platformTag) rfl
    have hwindows := hbase .windowsDirectory w.windowsDirectory rfl
    have hruntime := hbase .runtimeDirectory (some w.runtimeDirectory) rfl
    cases d' with
    | solutionDirectory =>
      have hnearest := nearestMarked_memo w ((d, d.valueIn w) :: w.memo) w.current.length w.current
      exact (kept_cons_of_ne hd _ _).trans (congrArg _ hnearest)
    | platformTag => exact hplatform
    | programFiles =>
      refine (kept_cons_of_ne hd _ _).trans (congrArg _ ?_)
      change (match w.setting "ProgramFiles(x86)" with
        | some (c :: directory) =>
          if World.kept { w with memo := (d, d.valueIn w) :: w.memo } .platformTag
            (some w.platformTag) = some "x86".toList then some (c :: directory)
          else w.setting "ProgramFiles"
        | _ => w.setting "ProgramFiles") = _
      rw [hplatform]
    | windowsDirectory => exact hwindows
    | systemDirectory =>
      refine (kept_cons_of_ne hd _ _).trans (congrArg _ ?_)
      change (match World.kept { w with memo := (d, d.valueIn w) :: w.memo } .windowsDirectory
          w.windowsDirectory with
        | some (c :: root) => some (Path.join (c :: root) "System32".toList)
        | _ => none) = _
      rw [hwindows]
    | runtimeDirectory => exact hruntime
    | nativeCompiler =>
      refine (kept_cons_of_ne hd _ _).trans (congrArg _ ?_)
      exact congrArg (Option.map (Path.join · "NGen.exe".toList)) hruntime

/-- The action comes to the outcome of the derived value, and at most keeps values on the way. -/
def Computes (d : Derived) (compute : Action World (Option Text)) (w : World) : Prop :=
  ∃ w', attempt compute w = .ok (d.outcome w) w' ∧ Agrees w w' ∧ (d.fails w → w' = w)

/-- A value that is computed only once. -/
theorem computes_memoized {d : Derived} {compute : Action World (Option Text)} {w : World}
    (h : w.memo.lookup d = none → d.Computes compute w) : d.Computes (memoized d compute) w := by
  cases hl : w.memo.lookup d with
  | some value =>
    refine ⟨w, ?_, .refl w, fun _ => rfl⟩
    rw [outcome, fails_of_lookup hl, valueIn_of_lookup hl]
    refine attempt_eq_ok.mpr ?_
    rw [memoized, get_bind, hl]
    rfl
  | none =>
    obtain ⟨w₁, hc, ha, hstays⟩ := h hl
    have hrest : memoized d compute w = (do
        let value ← compute
        modify fun w => { w with memo := (d, value) :: w.memo }
        pure value : Action World (Option Text)) w := by
      rw [memoized, get_bind, hl]
    rw [Computes]
    cases hfails : d.fails w with
    | true =>
      rw [outcome_of_fails hfails] at hc ⊢
      refine ⟨w₁, attempt_eq_error.mpr ?_, ha, fun _ => hstays hfails⟩
      rw [hrest, bind_of_error (attempt_eq_error.mp hc)]
    | false =>
      rw [outcome_of_not_fails hfails] at hc ⊢
      have hkeep := agrees_keep (w := w₁) (d := d) (by rw [ha.2.2, hfails])
      rw [ha.2.1] at hkeep
      refine ⟨_, attempt_eq_ok.mpr ?_, ha.trans hkeep, nofun⟩
      rw [hrest, bind_of_ok (attempt_eq_ok.mp hc)]
      rfl

theorem kept_of_none {w : World} {d : Derived} (h : w.memo.lookup d = none)
    (computed : Option Text) : w.kept d computed = computed := by
  rw [World.kept, h, Option.getD_none]

theorem needDirectory_eq (needed : Bool) (w : World) :
    needDirectory needed w = if needed && w.isLost then .error .lostDirectory w else .ok () w := by
  rw [needDirectory, get_bind]
  split <;> rfl

theorem attempt_needDirectory {needed : Bool} {w : World} {rest : Action World (Option Text)}
    {value : Option Text} (hrest : rest w = .ok value w) :
    attempt (needDirectory needed >>= fun _ => rest) w =
      .ok (if needed && w.isLost then .error .lostDirectory else .ok value) w := by
  have h := needDirectory_eq needed w
  split at h
  · next hlost =>
    rw [if_pos hlost]
    exact attempt_eq_error.mpr (bind_of_error h)
  · next hlost =>
    rw [if_neg hlost]
    exact attempt_eq_ok.mpr ((bind_of_ok h).trans hrest)

theorem computes_platformTag (w : World) : platformTag.Computes platformTagValue w := by
  refine computes_memoized fun h => ⟨w, ?_, .refl w, fun _ => rfl⟩
  rw [outcome, valueIn, kept_of_none h]
  rfl

theorem computes_windowsDirectory (w : World) :
    windowsDirectory.Computes windowsDirectoryValue w := by
  refine computes_memoized fun h => ⟨w, ?_, .refl w, fun _ => rfl⟩
  rw [outcome, valueIn, kept_of_none h]
  rfl

theorem computes_runtimeDirectory (w : World) :
    runtimeDirectory.Computes runtimeDirectoryValue w := by
  refine computes_memoized fun h => ⟨w, ?_, .refl w, fun _ => rfl⟩
  rw [outcome, valueIn, kept_of_none h, fails, h]
  exact @attempt_needDirectory (!Path.isAbsolute w.host.executable) w _ _ rfl

theorem computes_solutionDirectory (w : World) :
    solutionDirectory.Computes solutionDirectory.value w := by
  refine computes_memoized fun h => ⟨w, ?_, .refl w, fun _ => rfl⟩
  rw [outcome, valueIn, kept_of_none h, fails, h]
  exact @attempt_needDirectory true w _ _ rfl

theorem computes_programFiles (w : World) : programFiles.Computes programFiles.value w := by
  refine computes_memoized fun h => ?_
  obtain ⟨w₁, hc, ha, -⟩ := computes_platformTag w
  have hv : valueIn w .programFiles = _ := kept_of_none h _
  refine ⟨w₁, attempt_eq_ok.mpr ((bind_of_ok (attempt_eq_ok.mp hc)).trans ?_), ha,
    fun hfails => absurd hfails Bool.false_ne_true⟩
  obtain ⟨⟨memo, rfl⟩, -⟩ := ha
  have hsetting (name : String) : World.setting { w with memo } name = w.setting name := rfl
  rw [get_bind, hv]
  simp only [hsetting]
  cases w.setting "ProgramFiles(x86)" with
  | none => rfl
  | some directory =>
    cases directory with
    | nil => rfl
    | cons c directory =>
      change (if w.kept .platformTag (some w.platformTag) = some "x86".toList then
        pure (some (c :: directory)) else pure (w.setting "ProgramFiles") :
          Action World (Option Text)) _ = _
      split_ifs <;> rfl

theorem computes_systemDirectory (w : World) :
    systemDirectory.Computes systemDirectory.value w := by
  refine computes_memoized fun h => ?_
  obtain ⟨w₁, hc, ha, -⟩ := computes_windowsDirectory w
  have hv : valueIn w .systemDirectory = _ := kept_of_none h _
  refine ⟨w₁, attempt_eq_ok.mpr ((bind_of_ok (attempt_eq_ok.mp hc)).trans ?_), ha,
    fun hfails => absurd hfails Bool.false_ne_true⟩
  rw [hv, valueIn]
  cases w.kept .windowsDirectory w.windowsDirectory with
  | none => rfl
  | some root => cases root <;> rfl

theorem computes_nativeCompiler (w : World) : nativeCompiler.Computes nativeCompiler.value w := by
  refine computes_memoized fun h => ?_
  obtain ⟨w₁, hc, ha, hstays⟩ := computes_runtimeDirectory w
  have hv : valueIn w .nativeCompiler = _ := kept_of_none h _
  have hf : fails w .nativeCompiler = fails w .runtimeDirectory := by
    simp only [fails, h, Option.isNone_none, Bool.true_and]
  refine ⟨w₁, ?_, ha, fun hfails => hstays (hf ▸ hfails)⟩
  cases hfails : fails w .runtimeDirectory with
  | true =>
    rw [outcome_of_fails hfails] at hc
    rw [outcome_of_fails (hf.trans hfails)]
    exact attempt_eq_error.mpr (bind_of_error (attempt_eq_error.mp hc))
  | false =>
    rw [outcome_of_not_fails hfails] at hc
    rw [outcome_of_not_fails (hf.trans hfails), hv]
    exact attempt_eq_ok.mpr (bind_of_ok (attempt_eq_ok.mp hc))

theorem computes_value (d : Derived) (w : World) : d.Computes d.value w := by
  cases d with
  | solutionDirectory => exact computes_solutionDirectory w
  | platformTag => exact computes_platformTag w
  | programFiles => exact computes_programFiles w
  | windowsDirectory => exact computes_windowsDirectory w
  | systemDirectory => exact computes_systemDirectory w
  | runtimeDirectory => exact computes_runtimeDirectory w
  | nativeCompiler => exact computes_nativeCompiler w

theorem value_eq_ok {d : Derived} {v : Option Text} {w w' : World} (h : d.value w = .ok v w') :
    d.fails w = false ∧ v = d.valueIn w ∧ Agrees w w' := by
  obtain ⟨w₁, houtcome, ha, -⟩ := d.computes_value w
  obtain ⟨hv, rfl⟩ := EStateM.Result.ok.inj (houtcome.symm.trans (attempt_eq_ok.mpr h))
  cases hfails : d.fails w with
  | true =>
    rw [outcome_of_fails hfails] at hv
    cases hv
  | false =>
    rw [outcome_of_not_fails hfails] at hv
    exact ⟨rfl, (Except.ok.inj hv).symm, ha⟩

theorem value_eq_error {d : Derived} {e : Fault} {w w' : World} (h : d.value w = .error e w') :
    d.fails w = true ∧ e = .lostDirectory ∧ w' = w := by
  obtain ⟨w₁, houtcome, -, hstays⟩ := d.computes_value w
  obtain ⟨he, rfl⟩ := EStateM.Result.ok.inj (houtcome.symm.trans (attempt_eq_error.mpr h))
  cases hfails : d.fails w with
  | true =>
    rw [outcome_of_fails hfails] at he
    exact ⟨rfl, (Except.error.inj he).symm, hstays hfails⟩
  | false =>
    rw [outcome_of_not_fails hfails] at he
    cases he

theorem value_of_fails {d : Derived} {w : World} (h : d.fails w = true) :
    d.value w = .error .lostDirectory w := by
  obtain ⟨w₁, houtcome, -, hstays⟩ := d.computes_value w
  rw [outcome_of_fails h, hstays h] at houtcome
  exact attempt_eq_error.mp houtcome

theorem repeatable (w : World) : Repeatable lookup (Agrees w) := by
  refine ⟨fun {name compute} h => ?_⟩
  obtain ⟨d, -, rfl⟩ := Option.map_eq_some_iff.mp h
  refine ⟨d.outcome w, fun w₁ ha => ?_⟩
  obtain ⟨w₂, hv, ha₂, -⟩ := d.computes_value w₁
  rw [ha.outcome_eq] at hv
  exact ⟨w₂, hv, ha.trans ha₂⟩

end Derived

end Rollout
