import Rollout.Proofs.Macro

namespace Rollout

open Text Script

def HasMacro (t : Text) (i : Nat) (name : Text) : Prop := IsMacroName name ∧ spell name <+: t.drop i

theorem HasMacro.not_overlapping {t name other : Text} {i j : Nat} (h : HasMacro t i name)
    (h' : HasMacro t j other) (hij : i < j) : i + (spell name).length ≤ j := by
  by_contra hlt
  obtain ⟨hname, rest, hrest⟩ := h
  obtain ⟨-, rest', hrest'⟩ := h'
  obtain ⟨k, rfl⟩ : ∃ k, j = i + (k + 1) := ⟨j - i - 1, by omega⟩
  have hk : k < ('(' :: (name ++ [')'])).length := by
    rw [length_spell] at hlt
    simp only [List.length_cons, List.length_append, List.length_nil]
    omega
  -- the dollar sign of the second macro would stand within the first one
  rw [← List.drop_drop, ← hrest, spell_eq name, List.cons_append, List.drop_succ_cons,
    List.drop_append_of_le_length hk.le, List.drop_eq_getElem_cons hk, spell_eq other] at hrest'
  have hmem : '$' ∈ '(' :: (name ++ [')']) := by
    rw [(List.cons.inj hrest').1]
    exact List.getElem_mem hk
  exact dollar_not_mem hname hmem

/-- The macros of a text are those among its pieces. -/
theorem hasMacro_iff {t name : Text} {i : Nat} :
    HasMacro t i name ↔ ∃ before after, pieces t = before ++ .found name :: after ∧
      i = (written spell before).length := by
  constructor
  · rintro ⟨hname, rest, hrest⟩
    have hi : i ≤ t.length := by
      by_contra hlt
      rw [List.drop_eq_nil_of_le (by omega), spell_append] at hrest
      cases hrest
    have ht : t = t.take i ++ spell name ++ rest := by
      rw [List.append_assoc, hrest, List.take_append_drop]
    refine ⟨pieces (t.take i), pieces rest, ?_, ?_⟩
    · conv_lhs => rw [ht]
      exact pieces_append_spell hname _ _
    · rw [written_pieces, List.length_take, Nat.min_eq_left hi]
  · rintro ⟨before, after, hp, rfl⟩
    obtain ⟨hname, ht⟩ := eq_of_pieces hp
    refine ⟨hname, written spell after, ?_⟩
    rw [ht, List.append_assoc, List.drop_left]

def IsReserved (name : Text) : Prop := name = exitName ∨ ∃ command : Command, command.name = name

theorem isReserved_iff {name : Text} : isReserved name = true ↔ IsReserved name := by
  have hcommand : (Command.ofName? name).isSome = true ↔
      ∃ command : Command, command.name = name := by
    simp [Command.ofName?, List.find?_isSome, Command.mem_all]
  simp [isReserved, IsReserved, hcommand]

theorem ofName?_eq_some {name : Text} {v : Variable} :
    Variable.ofName? name = some v ↔ v.name = name := by
  refine ⟨fun h => ?_, fun h => h ▸ v.ofName?_name⟩
  simpa using List.find?_some h

theorem ofName?_eq_none {name : Text} :
    Variable.ofName? name = none ↔ ∀ v : Variable, v.name ≠ name := by
  rw [Option.eq_none_iff_forall_ne_some]
  exact forall_congr' fun v => not_congr ofName?_eq_some

def IsFileName (name : Text) : Prop :=
  ∃ stem extension, name = stem ++ '.' :: extension ∧ stem ≠ [] ∧ ')' ∉ stem ∧
    2 ≤ extension.length ∧ ∀ c ∈ extension, 'a' ≤ c ∧ c ≤ 'z'

theorem isFileName_append {stem extension : Text} (h : '.' ∉ extension) :
    isFileName (stem ++ '.' :: extension) = true ↔ stem ≠ [] ∧ ')' ∉ stem ∧
      2 ≤ extension.length ∧ ∀ c ∈ extension, 'a' ≤ c ∧ c ≤ 'z' := by
  have hletter : ∀ c ∈ extension.reverse, decide (c ≠ '.') = true := fun c hc =>
    decide_eq_true (by rintro rfl; exact h (List.mem_reverse.mp hc))
  have hextension : (stem ++ '.' :: extension).reverse.takeWhile (· ≠ '.') = extension.reverse := by
    rw [List.reverse_append, List.reverse_cons, List.append_assoc,
      List.takeWhile_append_of_pos hletter]
    simp
  have hstem : (stem ++ '.' :: extension).length - extension.length - 1 = stem.length := by
    simp only [List.length_append, List.length_cons]
    omega
  simp only [isFileName, hextension, List.reverse_reverse, hstem, List.take_left]
  simp [List.forall_mem_ne', and_assoc]

theorem isFileName_iff {name : Text} : isFileName name = true ↔ IsFileName name := by
  constructor
  · intro h
    have hdot : '.' ∈ name.reverse := by
      by_contra hmem
      simp [isFileName, show '.' ∉ name by simpa using hmem] at h
    obtain ⟨extension, stem, hname, hlast⟩ := List.eq_append_cons_of_mem hdot
    obtain rfl : name = stem.reverse ++ '.' :: extension.reverse := by
      rw [← List.reverse_reverse name, hname]
      simp
    exact ⟨_, _, rfl, (isFileName_append (by simpa using hlast)).mp h⟩
  · rintro ⟨stem, extension, rfl, hname⟩
    have hdot : '.' ∉ extension := fun hmem => absurd (hname.2.2.2 _ hmem) (by decide)
    exact (isFileName_append hdot).mpr hname

variable {σ : Type}

/-- What a name stands for: a text, nothing, or the fault of a value that cannot be computed. Names
for the dispatcher stand for themselves, then come variables, derived values and file names. -/
inductive StandsFor (vs : Variables) (lookup : Lookup σ) (name : Text) (s : σ) :
    Except Fault (Option Text) → σ → Prop
  | reserved (reserved : IsReserved name) : StandsFor vs lookup name s (.ok (some (spell name))) s
  | stored {v : Variable} (free : ¬IsReserved name) (named : v.name = name) :
      StandsFor vs lookup name s (.ok (some (quote (vs.get v)))) s
  | derived {compute : Action σ (Option Text)} {value : Option Text} {s' : σ}
      (free : ¬IsReserved name) (unstored : ∀ v : Variable, v.name ≠ name)
      (known : lookup name = some compute) (computed : compute s = .ok value s') :
      StandsFor vs lookup name s (.ok (value.map quote)) s'
  | broken {compute : Action σ (Option Text)} {e : Fault} {s' : σ}
      (free : ¬IsReserved name) (unstored : ∀ v : Variable, v.name ≠ name)
      (known : lookup name = some compute) (failed : compute s = .error e s') :
      StandsFor vs lookup name s (.error e) s'
  | file (free : ¬IsReserved name) (unstored : ∀ v : Variable, v.name ≠ name)
      (unknown : lookup name = none) (isFile : IsFileName name) :
      StandsFor vs lookup name s (.ok (some (quote (Path.join (unquote vs.target) name)))) s
  | nothing (free : ¬IsReserved name) (unstored : ∀ v : Variable, v.name ≠ name)
      (unknown : lookup name = none) (noFile : ¬IsFileName name) :
      StandsFor vs lookup name s (.ok none) s

def ending (name : Text) : Except Fault (Option Text) → σ → EStateM.Result Fault σ Text
  | .ok (some x), s => .ok x s
  | .ok none, s => .error (unresolved name) s
  | .error e, s => .error e s

section

variable {vs : Variables} {lookup : Lookup σ} {name x : Text} {e : Fault} {s s' : σ}

theorem StandsFor.valueOf_eq {r : Except Fault (Option Text)}
    (h : StandsFor vs lookup name s r s') :
    valueOf vs lookup name s = ending name r s' := by
  have hfree (free : ¬IsReserved name) : ¬isReserved name = true := fun h =>
    free (isReserved_iff.mp h)
  unfold valueOf
  cases h with
  | reserved reserved => rw [if_pos (isReserved_iff.mpr reserved)]; rfl
  | stored free named => rw [if_neg (hfree free), ofName?_eq_some.mpr named]; rfl
  | @derived compute value s' free unstored known computed =>
    rw [if_neg (hfree free), ofName?_eq_none.mpr unstored, known]
    refine (bind_of_ok computed).trans ?_
    cases value <;> rfl
  | broken free unstored known failed =>
    rw [if_neg (hfree free), ofName?_eq_none.mpr unstored, known]
    exact bind_of_error failed
  | file free unstored unknown isFile =>
    rw [if_neg (hfree free), ofName?_eq_none.mpr unstored, unknown]
    dsimp only
    rw [if_pos (isFileName_iff.mpr isFile)]
    rfl
  | nothing free unstored unknown noFile =>
    rw [if_neg (hfree free), ofName?_eq_none.mpr unstored, unknown]
    dsimp only
    rw [if_neg fun h => noFile (isFileName_iff.mp h)]
    rfl

theorem exists_standsFor (vs : Variables) (lookup : Lookup σ) (name : Text) (s : σ) :
    ∃ r s', StandsFor vs lookup name s r s' := by
  by_cases free : IsReserved name
  · exact ⟨_, _, .reserved free⟩
  by_cases named : ∃ v : Variable, v.name = name
  · obtain ⟨v, named⟩ := named
    exact ⟨_, _, .stored free named⟩
  have unstored : ∀ v : Variable, v.name ≠ name := fun v hv => named ⟨v, hv⟩
  cases known : lookup name with
  | some compute =>
    cases computed : compute s with
    | ok value s' => exact ⟨_, _, .derived free unstored known computed⟩
    | error e s' => exact ⟨_, _, .broken free unstored known computed⟩
  | none =>
    by_cases isFile : IsFileName name
    · exact ⟨_, _, .file free unstored known isFile⟩
    · exact ⟨_, _, .nothing free unstored known isFile⟩

theorem valueOf_eq_ok :
    valueOf vs lookup name s = .ok x s' ↔ StandsFor vs lookup name s (.ok (some x)) s' := by
  refine ⟨fun h => ?_, fun h => h.valueOf_eq⟩
  obtain ⟨r, s₁, hr⟩ := exists_standsFor vs lookup name s
  rw [hr.valueOf_eq] at h
  match r, h with
  | .ok (some _), rfl => exact hr

theorem valueOf_eq_error :
    valueOf vs lookup name s = .error e s' ↔
      StandsFor vs lookup name s (.ok none) s' ∧ e = unresolved name ∨
        StandsFor vs lookup name s (.error e) s' := by
  constructor
  · intro h
    obtain ⟨r, s₁, hr⟩ := exists_standsFor vs lookup name s
    rw [hr.valueOf_eq] at h
    match r, h with
    | .ok none, rfl => exact .inl ⟨hr, rfl⟩
    | .error _, rfl => exact .inr hr
  · rintro (⟨h, rfl⟩ | h)
    · exact h.valueOf_eq
    · exact h.valueOf_eq

/-- The text is what the pieces spell with values in the place of names. The values are looked up
from left to right. -/
inductive Substitutes (vs : Variables) (lookup : Lookup σ) :
    List (Piece Char Text) → σ → Text → σ → Prop
  | nil {s : σ} : Substitutes vs lookup [] s [] s
  | plain {c : Char} {ps : List (Piece Char Text)} {t : Text} {s s' : σ}
      (rest : Substitutes vs lookup ps s t s') :
      Substitutes vs lookup (.plain c :: ps) s (c :: t) s'
  | found {name x t : Text} {ps : List (Piece Char Text)} {s s₁ s' : σ}
      (value : StandsFor vs lookup name s (.ok (some x)) s₁)
      (rest : Substitutes vs lookup ps s₁ t s') :
      Substitutes vs lookup (.found name :: ps) s (x ++ t) s'

theorem substitute_eq_ok {ps : List (Piece Char Text)} {t : Text} :
    substitute (valueOf vs lookup) ps s = .ok t s' ↔ Substitutes vs lookup ps s t s' := by
  induction ps generalizing s t with
  | nil =>
    constructor
    · rintro ⟨⟩
      exact .nil
    · rintro ⟨⟩
      rfl
  | cons p ps ih =>
    cases p with
    | plain c =>
      rw [substitute, bind_eq_ok]
      constructor
      · rintro ⟨tail, s₁, htail, ⟨⟩⟩
        exact .plain (ih.mp htail)
      · intro h
        cases h with
        | plain rest => exact ⟨_, _, ih.mpr rest, rfl⟩
    | found name =>
      rw [substitute, bind_eq_ok]
      simp only [bind_eq_ok]
      constructor
      · rintro ⟨x, s₁, hx, tail, s₂, htail, ⟨⟩⟩
        exact .found (valueOf_eq_ok.mp hx) (ih.mp htail)
      · intro h
        cases h with
        | found value rest => exact ⟨_, _, valueOf_eq_ok.mpr value, _, _, ih.mpr rest, rfl⟩

/-- A substitution fails at the first name that has no value. -/
theorem substitute_eq_error {ps : List (Piece Char Text)} :
    substitute (valueOf vs lookup) ps s = .error e s' ↔
      ∃ before name after t s₁, ps = before ++ .found name :: after ∧
        Substitutes vs lookup before s t s₁ ∧ valueOf vs lookup name s₁ = .error e s' := by
  induction ps generalizing s with
  | nil =>
    refine ⟨nofun, ?_⟩
    rintro ⟨before, name, after, t, s₁, hps, -⟩
    simp at hps
  | cons p ps ih =>
    cases p with
    | plain c =>
      have htail : substitute (valueOf vs lookup) (.plain c :: ps) s = .error e s' ↔
          substitute (valueOf vs lookup) ps s = .error e s' := by
        rw [substitute, bind_eq_error]
        refine or_iff_left ?_
        rintro ⟨x, s₁, -, ⟨⟩⟩
      rw [htail, ih]
      constructor
      · rintro ⟨before, name, after, t, s₁, rfl, hbefore, hname⟩
        exact ⟨.plain c :: before, name, after, c :: t, s₁, rfl, .plain hbefore, hname⟩
      · rintro ⟨before, name, after, t, s₁, hps, hbefore, hname⟩
        cases hbefore with
        | nil => cases hps
        | found value rest => cases hps
        | plain rest =>
          obtain ⟨-, rfl⟩ := List.cons.inj hps
          exact ⟨_, name, after, _, s₁, rfl, rest, hname⟩
    | found first =>
      have hfirst : substitute (valueOf vs lookup) (.found first :: ps) s = .error e s' ↔
          valueOf vs lookup first s = .error e s' ∨ ∃ x s₁, valueOf vs lookup first s = .ok x s₁ ∧
            substitute (valueOf vs lookup) ps s₁ = .error e s' := by
        rw [substitute, bind_eq_error]
        refine or_congr_right
          (exists_congr fun x => exists_congr fun s₁ => and_congr_right fun _ => ?_)
        rw [bind_eq_error]
        refine or_iff_left ?_
        rintro ⟨x, s₁, -, ⟨⟩⟩
      rw [hfirst]
      constructor
      · rintro (h | ⟨x, s₁, hx, h⟩)
        · exact ⟨[], first, ps, [], s, rfl, .nil, h⟩
        · obtain ⟨before, name, after, t, s₂, rfl, hbefore, hname⟩ := ih.mp h
          exact ⟨.found first :: before, name, after, x ++ t, s₂, rfl,
            .found (valueOf_eq_ok.mp hx) hbefore, hname⟩
      · rintro ⟨before, name, after, t, s₁, hps, hbefore, hname⟩
        cases hbefore with
        | nil =>
          obtain ⟨h, -⟩ := List.cons.inj hps
          cases h
          exact .inl hname
        | plain rest => cases hps
        | found value rest =>
          obtain ⟨h, rfl⟩ := List.cons.inj hps
          cases h
          exact .inr ⟨_, _, valueOf_eq_ok.mpr value,
            ih.mpr ⟨_, name, after, _, s₁, rfl, rest, hname⟩⟩

end

/-- Macros are replaced at once. No two of a line overlap. Where every name stands for a text, all
macros are replaced and the rest of the line stays. Where one does not, the first of these names is
reported. -/
theorem resolve_substitutes (vs : Variables) (lookup : Lookup σ) (line : Text) (s : σ) :
    (∀ {i j : Nat} {name other : Text}, HasMacro line i name → HasMacro line j other → i < j →
      i + (spell name).length ≤ j) ∧
    ∃ ps : List (Piece Char Text), written spell ps = line ∧
      (∀ i name, HasMacro line i name ↔ ∃ before after, ps = before ++ .found name :: after ∧
        i = (written spell before).length) ∧
      (∀ t s', resolve vs lookup line s = .ok t s' ↔ Substitutes vs lookup ps s t s') ∧
      ∀ e s', resolve vs lookup line s = .error e s' ↔
        ∃ before name after t s₁, ps = before ++ .found name :: after ∧
          Substitutes vs lookup before s t s₁ ∧
          (StandsFor vs lookup name s₁ (.ok none) s' ∧ e = unresolved name ∨
            StandsFor vs lookup name s₁ (.error e) s') := by
  refine ⟨fun h h' hij => h.not_overlapping h' hij, pieces line, written_pieces line,
    fun i name => hasMacro_iff, fun t s' => substitute_eq_ok, fun e s' => ?_⟩
  simp only [← valueOf_eq_error]
  exact substitute_eq_error

/-- A value that completes a macro, one that holds a macro, and a bracket without a name. -/
example :
    let vs : Variables := { source := "$(Tar".toList, target := "$(Source)".toList }
    resolve vs Derived.lookup "$(Source)get) $($(Target)) $(Run)$()".toList {} =
      .ok "$(Target) $($(Source)) $(Run)$()".toList {} := rfl

end Rollout
