import Mathlib.Data.List.Infix
import Rollout.Proofs.VersionOrder

namespace Rollout

variable {α β : Type}

theorem occurrences_append_of_none {pattern : List α → Option (β × Nat)} {r u : List α}
    (h : ∀ v, v <:+ r → v ≠ [] → pattern (v ++ u) = none) :
    occurrences pattern 0 (r ++ u) = r.map .plain ++ occurrences pattern 0 u := by
  induction r with
  | nil => rfl
  | cons a r ih =>
    have hhead := h (a :: r) (List.suffix_refl _) (List.cons_ne_nil a r)
    rw [List.cons_append] at hhead ⊢
    rw [occurrences, hhead, List.map_cons, List.cons_append]
    exact congrArg _ (ih fun v hv hne => h v (hv.trans (List.suffix_cons a r)) hne)

theorem occurrences_append_of_some {pattern : List α → Option (β × Nat)} {r u : List α} {b : β}
    (hr : r ≠ []) (h : pattern (r ++ u) = some (b, r.length)) :
    occurrences pattern 0 (r ++ u) = .found b :: occurrences pattern 0 u := by
  obtain ⟨a, r, rfl⟩ := List.exists_cons_of_ne_nil hr
  rw [List.cons_append] at h ⊢
  rw [occurrences, h]
  dsimp only
  rw [occurrences_skip, List.length_cons, Nat.add_sub_cancel, List.drop_left]

theorem firstOccurrence?_cons (pattern : List α → Option (β × Nat)) (a : α) (t : List α) :
    firstOccurrence? pattern (a :: t) =
      ((pattern (a :: t)).map Prod.fst).or (firstOccurrence? pattern t) := by
  unfold firstOccurrence?
  rw [occurrences]
  cases hat : pattern (a :: t) with
  | none => rfl
  | some found => rfl

/-- The first occurrence is at the first position where the pattern finds something. -/
theorem firstOccurrence?_eq_some {pattern : List α → Option (β × Nat)} {t : List α} {b : β}
    (h : firstOccurrence? pattern t = some b) :
    ∃ i n, pattern (t.drop i) = some (b, n) ∧ ∀ j < i, pattern (t.drop j) = none := by
  induction t with
  | nil => cases h
  | cons a t ih =>
    rw [firstOccurrence?_cons] at h
    cases hat : pattern (a :: t) with
    | some found =>
      obtain ⟨d, n⟩ := found
      rw [hat] at h
      cases h
      exact ⟨0, n, hat, fun j hj => absurd hj (Nat.not_lt_zero j)⟩
    | none =>
      rw [hat] at h
      obtain ⟨i, n, hi, hbefore⟩ := ih h
      refine ⟨i + 1, n, hi, fun j hj => ?_⟩
      cases j with
      | zero => exact hat
      | succ j => exact hbefore j (Nat.lt_of_succ_lt_succ hj)

theorem firstOccurrence?_eq_none {pattern : List α → Option (β × Nat)} {t : List α}
    (hnil : pattern [] = none) (h : firstOccurrence? pattern t = none) (i : Nat) :
    pattern (t.drop i) = none := by
  induction t generalizing i with
  | nil => rwa [List.drop_nil]
  | cons a t ih =>
    rw [firstOccurrence?_cons, Option.or_eq_none_iff, Option.map_eq_none_iff] at h
    cases i with
    | zero => exact h.1
    | succ i => exact ih h.2 i

/-- A word that begins with what stands neither before nor after it is replaced there alone. -/
theorem replaceWord_between [BEq α] [LawfulBEq α] {d : α} {word before after : List α}
    (hbefore : d ∉ before) (hafter : d ∉ after) (new : List α) :
    replaceWord (d :: word) new (before ++ d :: word ++ after) = before ++ new ++ after := by
  have hplain {t : List α} (ht : d ∉ t) (u : List α) :
      occurrences (wordAt (d :: word)) 0 (t ++ u) =
        t.map .plain ++ occurrences (wordAt (d :: word)) 0 u := by
    refine occurrences_append_of_none fun v hv hne => if_neg ?_
    obtain ⟨c, v, rfl⟩ := List.exists_cons_of_ne_nil hne
    rw [List.cons_append, List.isPrefixOf_iff_prefix, List.cons_prefix_cons]
    rintro ⟨rfl, -⟩
    exact ht (hv.subset (List.mem_cons_self ..))
  have hfound (u : List α) : occurrences (wordAt (d :: word)) 0 (d :: word ++ u) =
      .found () :: occurrences (wordAt (d :: word)) 0 u :=
    occurrences_append_of_some (List.cons_ne_nil d word) (if_pos (by simp))
  have hend := hplain hafter []
  rw [List.append_nil, occurrences, List.append_nil] at hend
  rw [replaceWord, replaceOccurrences, List.append_assoc, hplain hbefore, hfound, hend]
  simp [List.flatMap_append, List.flatMap_map, Piece.expand]

namespace Metadata

open Text Version

inductive Kind
  | assembly
  | file
  deriving DecidableEq, Repr

def Kind.label : Kind → Text
  | .assembly => "AssemblyVersion".toList
  | .file => "AssemblyFileVersion".toList

def Kind.pattern (k : Kind) : Text → Option (Declaration × Nat) := attributeAt k.label

/-- An assembly attribute that gives a version, with any number of spaces after the colon. -/
structure Attribute where
  kind : Kind
  spaces : Nat
  version : Text
  deriving DecidableEq, Repr

namespace Attribute

def declaration (a : Attribute) : Declaration where
  opening := "[assembly:".toList ++ List.replicate a.spaces ' ' ++ (a.kind.label ++ "(\"".toList)
  version := a.version
  closing := "\")]".toList

def text (a : Attribute) : Text := a.declaration.text

def IsOf (k : Kind) (a : Attribute) : Prop := a.kind = k ∧ a.version ≠ []

instance (k : Kind) (a : Attribute) : Decidable (a.IsOf k) := inferInstanceAs (Decidable (_ ∧ _))

theorem text_eq (a : Attribute) :
    a.text = "[assembly:".toList ++ (List.replicate a.spaces ' ' ++
      (a.kind.label ++ "(\"".toList ++ (a.version ++ "\")]".toList))) := by
  unfold text declaration Declaration.text
  dsimp only
  rw [List.append_assoc, List.append_assoc, List.append_assoc, List.append_assoc]

theorem text_ne_nil (a : Attribute) : a.text ≠ [] := by
  rw [text_eq]
  exact List.cons_ne_nil _ _

def body (a : Attribute) : Text :=
  "assembly:".toList ++ (List.replicate a.spaces ' ' ++
    (a.kind.label ++ "(\"".toList ++ (a.version ++ "\")]".toList)))

theorem text_eq_cons (a : Attribute) : a.text = '[' :: a.body := a.text_eq

end Attribute

theorem takeWhile_eq_of_stop {p : Char → Bool} {t u : Text} {c : Char} (ht : ∀ d ∈ t, p d)
    (hc : p c = false) : (t ++ c :: u).takeWhile p = t := by
  rw [List.takeWhile_append_of_pos ht, List.takeWhile_cons_of_neg (by simp [hc]), List.append_nil]

theorem declaration?_closed (opening : Text) {version closing u : Text} {c : Char}
    {closing? : Text → Option Text} (hv : IsDotted version) (hc : isVersionChar c = false)
    (hclosing : closing? (c :: u) = some closing) :
    declaration? opening (version ++ c :: u) closing? =
      if version = [] then none
      else
        some (⟨opening, version, closing⟩, (Declaration.mk opening version closing).text.length) := by
  unfold declaration?
  rw [takeWhile_eq_of_stop hv hc]
  dsimp only
  rw [List.drop_left, hclosing]
  by_cases hne : version = [] <;> simp [hne]

theorem after?_label (k : Kind) (a : Attribute) (u : Text) :
    after? (k.label ++ "(\"".toList) (a.kind.label ++ "(\"".toList ++ u) =
      if a.kind = k then some u else none := by
  by_cases hk : a.kind = k
  · rw [if_pos hk, hk, after?_append]
  · rw [if_neg hk]
    cases k <;> cases ha : a.kind
    · exact absurd ha hk
    · rfl
    · rfl
    · exact absurd ha hk

/-- At an attribute, the pattern of its kind finds it, and the pattern of another kind nothing. -/
theorem Kind.pattern_text (k : Kind) {a : Attribute} (hv : IsDotted a.version) (u : Text) :
    k.pattern (a.text ++ u) = if a.IsOf k then some (a.declaration, a.text.length) else none := by
  have htext : a.text ++ u = "[assembly:".toList ++ (List.replicate a.spaces ' ' ++
      (a.kind.label ++ "(\"".toList ++ (a.version ++ '"' :: (")]".toList ++ u)))) := by
    rw [a.text_eq]
    simp only [List.append_assoc]
    rfl
  have hspaces (t : Text) : (List.replicate a.spaces ' ' ++ (a.kind.label ++ t)).takeWhile
      (· = ' ') = List.replicate a.spaces ' ' := by
    obtain ⟨t', ht⟩ : ∃ t', a.kind.label ++ t = 'A' :: t' := by cases a.kind <;> exact ⟨_, rfl⟩
    rw [ht]
    refine takeWhile_eq_of_stop (fun d hd => ?_) (by decide)
    simpa using (List.mem_replicate.mp hd).2
  unfold Kind.pattern attributeAt
  rw [htext]
  dsimp only
  rw [after?_append]
  dsimp only [bind, Option.bind]
  rw [List.append_assoc a.kind.label, hspaces, List.drop_left, ← List.append_assoc a.kind.label,
    after?_label]
  by_cases hk : a.kind = k
  · rw [if_pos hk]
    dsimp only
    rw [declaration?_closed _ hv (by decide) (if_pos (by simp [startsWith]))]
    subst hk
    by_cases hne : a.version = []
    · rw [if_pos hne, if_neg fun h => h.2 hne]
    · rw [if_neg hne, if_pos ⟨rfl, hne⟩]
      rfl
  · rw [if_neg hk, if_neg fun h => hk h.1]

theorem declaration?_eq_some {opening rest : Text} {closing? : Text → Option Text}
    {d : Declaration} {n : Nat} (h : declaration? opening rest closing? = some (d, n)) :
    IsDotted d.version ∧ d.version ≠ [] ∧ d.opening = opening ∧ n = d.text.length ∧
      ∃ u, rest = d.version ++ u ∧ closing? u = some d.closing := by
  unfold declaration? at h
  dsimp only at h
  obtain ⟨closing, hclosing, h⟩ := Option.bind_eq_some_iff.mp h
  split_ifs at h with hempty
  cases h
  have hdotted : IsDotted (rest.takeWhile isVersionChar) := List.all_eq_true.mp List.all_takeWhile
  refine ⟨hdotted, by simpa using hempty, rfl, rfl, _, ?_, hclosing⟩
  exact (List.prefix_iff_eq_append.mp (List.takeWhile_prefix _)).symm

/-- What the pattern of a kind finds is an attribute of this kind. -/
theorem Kind.pattern_eq_some {k : Kind} {t : Text} {d : Declaration} {n : Nat}
    (h : k.pattern t = some (d, n)) :
    ∃ (a : Attribute) (u : Text), a.IsOf k ∧ IsDotted a.version ∧ d = a.declaration ∧
      n = a.text.length ∧ t = a.text ++ u := by
  unfold Kind.pattern attributeAt at h
  dsimp only at h
  obtain ⟨rest, hhead, h⟩ := Option.bind_eq_some_iff.mp h
  obtain ⟨tail, hlabel, h⟩ := Option.bind_eq_some_iff.mp h
  obtain ⟨hdotted, hne, hopening, rfl, u, htail, hclosing⟩ := declaration?_eq_some h
  split_ifs at hclosing with hstart
  obtain ⟨v, rfl⟩ := List.isPrefixOf_iff_prefix.mp hstart
  have hspaces : ∃ spaces, rest.takeWhile (· = ' ') = List.replicate spaces ' ' :=
    ⟨_, List.eq_replicate_of_mem fun c hc => by
      simpa using List.all_eq_true.mp List.all_takeWhile c hc⟩
  obtain ⟨spaces, hspaces⟩ := hspaces
  have hd : d = Attribute.declaration ⟨k, spaces, d.version⟩ := by
    obtain ⟨opening, version, closing⟩ := d
    rw [hspaces] at hopening
    dsimp only at hopening hclosing
    rw [hopening, ← Option.some.inj hclosing]
    rfl
  have hrest : rest = List.replicate spaces ' ' ++ rest.drop (rest.takeWhile (· = ' ')).length := by
    rw [← hspaces]
    exact (List.prefix_iff_eq_append.mp (List.takeWhile_prefix _)).symm
  refine ⟨⟨k, spaces, d.version⟩, v, ⟨rfl, hne⟩, hdotted, hd, congrArg (·.text.length) hd, ?_⟩
  rw [eq_append_of_after? hlabel, htail] at hrest
  rw [Attribute.text_eq, eq_append_of_after? hhead, hrest]
  simp only [List.append_assoc]

def HasAttribute (t : Text) (i : Nat) (a : Attribute) : Prop :=
  a.version ≠ [] ∧ IsDotted a.version ∧ a.text <+: t.drop i

instance (t : Text) (i : Nat) (a : Attribute) : Decidable (HasAttribute t i a) :=
  inferInstanceAs (Decidable (_ ∧ _ ∧ _))

theorem Attribute.declaration_inj {a b : Attribute} (hk : a.kind = b.kind)
    (h : a.declaration = b.declaration) : a = b := by
  obtain ⟨k, m, v⟩ := a
  obtain ⟨_, n, w⟩ := b
  obtain rfl : k = _ := hk
  obtain rfl : v = w := congrArg Declaration.version h
  have hopening := congrArg Declaration.opening h
  have hspaces : List.replicate m ' ' = List.replicate n ' ' :=
    List.append_cancel_left (List.append_cancel_right hopening)
  obtain rfl : m = n := by simpa using congrArg List.length hspaces
  rfl

theorem hasAttribute_iff {t : Text} {i : Nat} {a : Attribute} :
    HasAttribute t i a ↔ a.kind.pattern (t.drop i) = some (a.declaration, a.text.length) := by
  constructor
  · rintro ⟨hne, hdotted, u, hu⟩
    rw [← hu, a.kind.pattern_text hdotted, if_pos ⟨rfl, hne⟩]
  · intro h
    obtain ⟨b, u, ⟨hk, hne⟩, hdotted, hd, -, hu⟩ := Kind.pattern_eq_some h
    obtain rfl := Attribute.declaration_inj hk.symm hd
    exact ⟨hne, hdotted, u, hu.symm⟩

theorem Kind.pattern_drop {k : Kind} {t : Text} {i n : Nat} {d : Declaration}
    (h : k.pattern (t.drop i) = some (d, n)) :
    ∃ a, HasAttribute t i a ∧ a.kind = k ∧ d = a.declaration := by
  obtain ⟨a, u, ⟨hk, hne⟩, hdotted, rfl, -, hu⟩ := Kind.pattern_eq_some h
  exact ⟨a, ⟨hne, hdotted, u, hu.symm⟩, hk, rfl⟩

theorem Kind.pattern_ne_none {k : Kind} {a : Attribute} (ha : a.IsOf k) (h : IsDotted a.version)
    (u : Text) : k.pattern (a.text ++ u) ≠ none := by
  rw [k.pattern_text h, if_pos ha]
  nofun

theorem Kind.exists_of_pattern {k : Kind} {t : Text} (h : k.pattern t ≠ none) :
    ∃ (a : Attribute) (u : Text), a.IsOf k ∧ IsDotted a.version ∧ t = a.text ++ u := by
  obtain ⟨⟨d, n⟩, hat⟩ := Option.ne_none_iff_exists'.mp h
  obtain ⟨a, u, ha, hdotted, -, -, ht⟩ := Kind.pattern_eq_some hat
  exact ⟨a, u, ha, hdotted, ht⟩

theorem Kind.pattern_eq_none {k : Kind} {t : Text}
    (h : ∀ (a : Attribute) (u : Text), a.IsOf k → IsDotted a.version → t ≠ a.text ++ u) :
    k.pattern t = none := by
  by_contra hat
  obtain ⟨a, u, ha, hdotted, ht⟩ := Kind.exists_of_pattern hat
  exact h a u ha hdotted ht

theorem Kind.pattern_of_append {k : Kind} {t u : Text} (h : k.pattern (t ++ u) = none) :
    k.pattern t = none := by
  refine Kind.pattern_eq_none fun a v ha hdotted ht => ?_
  rw [ht, List.append_assoc] at h
  exact Kind.pattern_ne_none ha hdotted _ h

theorem Attribute.not_mem_body {a : Attribute} (h : IsDotted a.version) {c : Char}
    (hversion : isVersionChar c = false)
    (hc : c ∉ "assembly: AssemblyFileVersion(\")]".toList) : c ∉ a.body := by
  have hhead : "assembly:".toList ⊆ "assembly: AssemblyFileVersion(\")]".toList := by decide
  have hlabel (k : Kind) :
      k.label ++ "(\"".toList ⊆ "assembly: AssemblyFileVersion(\")]".toList := by
    cases k <;> decide
  have hclosing : "\")]".toList ⊆ "assembly: AssemblyFileVersion(\")]".toList := by decide
  intro hmem
  obtain hmem | hmem := List.mem_append.mp hmem
  · exact hc (hhead hmem)
  obtain hmem | hmem := List.mem_append.mp hmem
  · obtain rfl := List.eq_of_mem_replicate hmem
    exact hc (by decide)
  obtain hmem | hmem := List.mem_append.mp hmem
  · exact hc (hlabel a.kind hmem)
  obtain hmem | hmem := List.mem_append.mp hmem
  · rw [h c hmem] at hversion
    cases hversion
  · exact hc (hclosing hmem)

def hasNone (t : Text) : Bool := t.all fun c => !isVersionChar c

theorem isVersionChar_of_hasNone {t : Text} (h : hasNone t = true) {c : Char} (hc : c ∈ t) :
    isVersionChar c = false := by simpa using List.all_eq_true.mp h c hc

theorem hasNone_append {t u : Text} (ht : hasNone t = true) (hu : hasNone u = true) :
    hasNone (t ++ u) = true := by
  rw [hasNone, List.all_append, ← hasNone, ← hasNone, ht, hu, Bool.and_self]

theorem Attribute.hasNone_opening (a : Attribute) : hasNone a.declaration.opening = true := by
  have hhead : hasNone "[assembly:".toList = true := by decide
  have hspaces : hasNone (List.replicate a.spaces ' ') = true := by
    simp [hasNone, isVersionChar]
  have hlabel (k : Kind) : hasNone (k.label ++ "(\"".toList) = true := by cases k <;> decide
  exact hasNone_append (hasNone_append hhead hspaces) (hlabel a.kind)

theorem Attribute.replaceWord_text {a : Attribute} (hne : a.version ≠ []) (h : IsDotted a.version)
    (v : Text) : replaceWord a.version v a.text = ({ a with version := v } : Attribute).text := by
  obtain ⟨d, version, hversion⟩ := List.exists_cons_of_ne_nil hne
  have hd : isVersionChar d = true := h d (by simp [hversion])
  have hnot {t : Text} (ht : hasNone t = true) : d ∉ t := by
    intro hmem
    rw [isVersionChar_of_hasNone ht hmem] at hd
    cases hd
  have htext : a.text = a.declaration.opening ++ d :: version ++ "\")]".toList := by
    rw [← hversion]
    rfl
  rw [hversion, htext, replaceWord_between (hnot a.hasNone_opening) (hnot (by decide))]
  rfl

/-- No attribute begins before a bracket and ends behind it. -/
theorem Kind.pattern_append_bracket {k : Kind} {t u : Text} (ht : t ≠ [])
    (h : k.pattern t = none) (hu : u = [] ∨ u.head? = some '[') : k.pattern (t ++ u) = none := by
  refine Kind.pattern_eq_none fun a v ha hdotted heq => ?_
  obtain ⟨w, hw⟩ | ⟨w, hw⟩ : a.text <+: t ∨ t <+: a.text :=
    List.prefix_or_prefix_of_prefix ⟨v, heq.symm⟩ (List.prefix_append t u)
  · rw [← hw] at h
    exact Kind.pattern_ne_none ha hdotted w h
  · cases w with
    | nil =>
      rw [List.append_nil] at hw
      rw [hw, ← List.append_nil a.text] at h
      exact Kind.pattern_ne_none ha hdotted [] h
    | cons c w =>
      -- the bracket would stand within the attribute
      rw [← hw, List.append_assoc] at heq
      obtain rfl : u = c :: w ++ v := List.append_cancel_left heq
      obtain rfl : c = '[' := by simpa using hu
      obtain ⟨d, t, rfl⟩ := List.exists_cons_of_ne_nil ht
      rw [Attribute.text_eq_cons, List.cons_append] at hw
      have hmem : '[' ∈ t ++ '[' :: w := by simp
      rw [(List.cons.inj hw).2] at hmem
      exact Attribute.not_mem_body hdotted (by decide) (by decide) hmem

theorem Kind.pattern_of_head {k : Kind} {t : Text} (h : t.head? ≠ some '[') :
    k.pattern t = none := by
  refine Kind.pattern_eq_none fun a u _ _ ht => h ?_
  rw [ht, Attribute.text_eq_cons]
  rfl

theorem Kind.pattern_of_suffix {k : Kind} {a : Attribute} (h : IsDotted a.version) {t : Text}
    (ht : t <:+ a.body) (hne : t ≠ []) (u : Text) : k.pattern (t ++ u) = none := by
  obtain ⟨c, t, rfl⟩ := List.exists_cons_of_ne_nil hne
  refine Kind.pattern_of_head fun hc => ?_
  obtain rfl : c = '[' := by simpa using hc
  exact Attribute.not_mem_body h (by decide) (by decide) (ht.subset (List.mem_cons_self ..))

def Plain (r : Text) : Prop := ∀ t, t <:+ r → ∀ k : Kind, k.pattern t = none

theorem plain_nil : Plain [] := by
  intro t ht k
  rw [List.suffix_nil.mp ht]
  exact Kind.pattern_of_head nofun

theorem Plain.cons {c : Char} {r : Text} (hr : Plain r)
    (h : ∀ k : Kind, k.pattern (c :: r) = none) : Plain (c :: r) := by
  intro t ht k
  obtain rfl | ht := List.suffix_cons_iff.mp ht
  · exact h k
  · exact hr t ht k

def Attribute.pieces (k : Kind) (a : Attribute) : List (Piece Char Declaration) :=
  if a.IsOf k then [.found a.declaration] else a.text.map .plain

theorem Plain.occurrences_append {r u : Text} (hr : Plain r) (hu : u = [] ∨ u.head? = some '[')
    (k : Kind) :
    occurrences k.pattern 0 (r ++ u) = r.map .plain ++ occurrences k.pattern 0 u :=
  occurrences_append_of_none fun v hv hne => Kind.pattern_append_bracket hne (hr v hv k) hu

theorem Attribute.occurrences_append {a : Attribute} (h : IsDotted a.version) (k : Kind)
    (u : Text) :
    occurrences k.pattern 0 (a.text ++ u) = a.pieces k ++ occurrences k.pattern 0 u := by
  have hat := k.pattern_text h u
  rw [pieces]
  split_ifs with hk
  · rw [if_pos hk] at hat
    exact occurrences_append_of_some a.text_ne_nil hat
  · rw [if_neg hk] at hat
    refine occurrences_append_of_none fun v hv hne => ?_
    rw [a.text_eq_cons, List.suffix_cons_iff, ← a.text_eq_cons] at hv
    obtain rfl | hv := hv
    · exact hat
    · exact Kind.pattern_of_suffix h hv hne u

/-- The version of the first attribute of a kind, or nothing where there is none. -/
inductive FirstVersion (k : Kind) (t : Text) : Text → Prop
  | found {i : Nat} {a : Attribute} (stands : HasAttribute t i a) (kind : a.kind = k)
      (first : ∀ j < i, ∀ b, HasAttribute t j b → b.kind ≠ k) : FirstVersion k t a.version
  | absent (none : ∀ i a, HasAttribute t i a → a.kind ≠ k) : FirstVersion k t []

theorem kind_ne_of_pattern {k : Kind} {t : Text} {i : Nat} (h : k.pattern (t.drop i) = none)
    (a : Attribute) (ha : HasAttribute t i a) : a.kind ≠ k := by
  rintro rfl
  rw [hasAttribute_iff, h] at ha
  cases ha

theorem firstVersion_spec (k : Kind) (t : Text) : FirstVersion k t (firstVersion k.pattern t) := by
  unfold firstVersion
  cases hfirst : firstOccurrence? k.pattern t with
  | none =>
    exact .absent fun i => kind_ne_of_pattern
      (firstOccurrence?_eq_none (Kind.pattern_of_head nofun) hfirst i)
  | some d =>
    obtain ⟨i, n, hat, hbefore⟩ := firstOccurrence?_eq_some hfirst
    obtain ⟨a, ha, hk, rfl⟩ := Kind.pattern_drop hat
    exact .found ha hk fun j hj => kind_ne_of_pattern (hbefore j hj)

theorem FirstVersion.isDotted {k : Kind} {t v : Text} (h : FirstVersion k t v) : IsDotted v := by
  cases h with
  | found stands => exact stands.2.1
  | absent => nofun

theorem FirstVersion.ne_nil {k : Kind} {t v : Text} (h : FirstVersion k t v) {i : Nat}
    {a : Attribute} (ha : HasAttribute t i a) (hk : a.kind = k) : v ≠ [] := by
  cases h with
  | found stands => exact stands.1
  | absent none => exact absurd hk (none i a ha)

theorem unifyNewlines_append {t : Text} (h : '\r' ∉ t) (u : Text) :
    unifyNewlines (t ++ u) = t ++ unifyNewlines u := by
  induction t with
  | nil => rfl
  | cons c t ih =>
    rw [List.mem_cons, not_or] at h
    rw [List.cons_append, unifyNewlines, ih h.2, if_neg (Ne.symm h.1), List.cons_append]
    exact fun rest hc => absurd hc.symm h.1

theorem eq_append_of_unifyNewlines {t u v : Text} (hr : '\r' ∉ t) (hn : '\n' ∉ t)
    (h : unifyNewlines u = t ++ v) : ∃ w, u = t ++ w := by
  induction t generalizing u with
  | nil => exact ⟨u, rfl⟩
  | cons c t ih =>
    rw [List.mem_cons, not_or] at hr hn
    unfold unifyNewlines at h
    split at h
    · cases h
    · exact absurd (List.cons.inj h).1 hn.1
    · next d rest _ =>
      obtain ⟨hhead, htail⟩ := List.cons.inj h
      split_ifs at hhead with hd
      · exact absurd hhead hn.1
      · obtain ⟨w, rfl⟩ := ih hr.2 hn.2 htail
        exact ⟨w, by rw [hhead]; rfl⟩

theorem Attribute.newline_not_mem {a : Attribute} (h : IsDotted a.version) :
    '\r' ∉ a.text ∧ '\n' ∉ a.text := by
  rw [a.text_eq_cons, List.mem_cons, List.mem_cons, not_or, not_or]
  exact ⟨⟨by decide, not_mem_body h (by decide) (by decide)⟩,
    by decide, not_mem_body h (by decide) (by decide)⟩

theorem Kind.pattern_unifyNewlines (k : Kind) (t : Text) :
    k.pattern (unifyNewlines t) = k.pattern t := by
  cases hat : k.pattern t with
  | some found =>
    obtain ⟨d, n⟩ := found
    obtain ⟨a, u, ha, hdotted, rfl, rfl, rfl⟩ := Kind.pattern_eq_some hat
    rw [unifyNewlines_append (Attribute.newline_not_mem hdotted).1, k.pattern_text hdotted,
      if_pos ha]
  | none =>
    refine Kind.pattern_eq_none fun a u ha hdotted heq => ?_
    obtain ⟨hr, hn⟩ := Attribute.newline_not_mem hdotted
    obtain ⟨w, rfl⟩ := eq_append_of_unifyNewlines hr hn heq
    exact Kind.pattern_ne_none ha hdotted w hat

theorem Kind.firstOccurrence?_cons_of_ne {k : Kind} {c : Char} (hc : c ≠ '[') (t : Text) :
    firstOccurrence? k.pattern (c :: t) = firstOccurrence? k.pattern t := by
  rw [firstOccurrence?_cons, Kind.pattern_of_head (by simpa using hc)]
  rfl

theorem Kind.firstOccurrence?_unifyNewlines (k : Kind) (t : Text) :
    firstOccurrence? k.pattern (unifyNewlines t) = firstOccurrence? k.pattern t := by
  induction t using unifyNewlines.induct with
  | case1 => rfl
  | case2 rest ih =>
    rw [unifyNewlines, k.firstOccurrence?_cons_of_ne (by decide),
      k.firstOccurrence?_cons_of_ne (by decide), k.firstOccurrence?_cons_of_ne (by decide), ih]
  | case3 c rest hcr ih =>
    have hpattern := k.pattern_unifyNewlines (c :: rest)
    have hunify := unifyNewlines.eq_3 c rest hcr
    rw [hunify] at hpattern ⊢
    rw [firstOccurrence?_cons, hpattern, ih, ← firstOccurrence?_cons]

theorem declared?_of_firstVersion {t : Text} (h : firstVersion Kind.assembly.pattern t ≠ []) :
    declared? t = some (firstVersion Kind.assembly.pattern t) := by
  cases hfirst : firstOccurrence? Kind.assembly.pattern t with
  | some d =>
    have hassembly : firstOccurrence? assemblyVersionAt t = some d := hfirst
    rw [declared?, hassembly, firstVersion, hfirst]
    rfl
  | none =>
    rw [firstVersion, hfirst] at h
    exact absurd rfl h

theorem moduleVersionAt_eq_some {t : Text} {d : Declaration} {n : Nat}
    (h : moduleVersionAt t = some (d, n)) : IsDotted d.version := by
  unfold moduleVersionAt at h
  dsimp only at h
  obtain ⟨rest, -, h⟩ := Option.bind_eq_some_iff.mp h
  obtain ⟨rest, -, h⟩ := Option.bind_eq_some_iff.mp h
  split at h
  · cases h
  · split_ifs at h
    exact (declaration?_eq_some h).1

theorem isDotted_of_declared? {t v : Text} (h : declared? t = some v) : IsDotted v := by
  unfold declared? at h
  split at h
  · next d hd =>
    cases h
    obtain ⟨i, n, hat, -⟩ := firstOccurrence?_eq_some hd
    obtain ⟨a, ⟨-, hdotted, -⟩, -, rfl⟩ := Kind.pattern_drop (k := .assembly) hat
    exact hdotted
  · obtain ⟨d, hd, rfl⟩ := Option.map_eq_some_iff.mp h
    obtain ⟨i, n, hat, -⟩ := firstOccurrence?_eq_some hd
    exact moduleVersionAt_eq_some hat

end Metadata

end Rollout
