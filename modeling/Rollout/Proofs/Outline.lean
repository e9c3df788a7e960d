import Mathlib.Data.List.Find
import Rollout.Proofs.Attributes

namespace Rollout.Metadata

open Text Version

theorem drop_append_cases (t u : Text) (i : Nat) :
    (t.drop i ≠ [] ∧ (t ++ u).drop i = t.drop i ++ u) ∨
      ∃ j, i = t.length + j ∧ (t ++ u).drop i = u.drop j := by
  obtain hlt | hle := Nat.lt_or_ge i t.length
  · exact .inl ⟨by simpa using hlt, List.drop_append_of_le_length hlt.le⟩
  · obtain ⟨j, rfl⟩ := Nat.exists_eq_add_of_le hle
    refine .inr ⟨j, rfl, ?_⟩
    rw [List.drop_append, List.drop_eq_nil_of_le hle, List.nil_append, Nat.add_sub_cancel_left]

/-- A text as what stands before the first attribute, and each attribute with what follows it. -/
structure Outline where
  start : Text
  parts : List (Attribute × Text)

namespace Outline

def tail (parts : List (Attribute × Text)) : Text := parts.flatMap fun p => p.1.text ++ p.2

def text (o : Outline) : Text := o.start ++ tail o.parts

def revise (version : Attribute → Text) (o : Outline) : Outline where
  start := o.start
  parts := o.parts.map fun p => ({ p.1 with version := version p.1 }, p.2)

/-- No attribute but those of the outline can be found in its text. -/
structure Proper (o : Outline) : Prop where
  start : Plain o.start
  dotted : ∀ p ∈ o.parts, IsDotted p.1.version
  run : ∀ p ∈ o.parts, Plain p.2

theorem tail_cons (a : Attribute) (r : Text) (parts : List (Attribute × Text)) :
    tail ((a, r) :: parts) = a.text ++ (r ++ tail parts) := by
  simp [tail]

theorem head?_tail (parts : List (Attribute × Text)) :
    tail parts = [] ∨ (tail parts).head? = some '[' := by
  cases parts with
  | nil => exact .inl rfl
  | cons p parts =>
    right
    rw [show p = (p.1, p.2) from rfl, tail_cons, Attribute.text_eq_cons]
    rfl

theorem Proper.of_cons {start r : Text} {a : Attribute} {parts : List (Attribute × Text)}
    (h : Proper ⟨start, (a, r) :: parts⟩) :
    Plain start ∧ IsDotted a.version ∧ Proper ⟨r, parts⟩ :=
  ⟨h.start, h.dotted (a, r) (by simp), h.run (a, r) (by simp),
    fun p hp => h.dotted p (by simp [hp]), fun p hp => h.run p (by simp [hp])⟩

theorem Proper.revise {o : Outline} (h : o.Proper) {version : Attribute → Text}
    (hv : ∀ p ∈ o.parts, IsDotted (version p.1)) : (o.revise version).Proper := by
  refine ⟨h.start, fun p hp => ?_, fun p hp => ?_⟩
  · obtain ⟨q, hq, rfl⟩ := List.mem_map.mp hp
    exact hv q hq
  · obtain ⟨q, hq, rfl⟩ := List.mem_map.mp hp
    exact h.run q hq

theorem Proper.occurrences_text {o : Outline} (h : o.Proper) (k : Kind) :
    occurrences k.pattern 0 o.text =
      o.start.map .plain ++ o.parts.flatMap fun p => p.1.pieces k ++ p.2.map .plain := by
  obtain ⟨start, parts⟩ := o
  induction parts generalizing start with
  | nil => exact h.start.occurrences_append (.inl rfl) k
  | cons p parts ih =>
    obtain ⟨a, r⟩ := p
    obtain ⟨hstart, hdotted, hrest⟩ := h.of_cons
    rw [text, hstart.occurrences_append (head?_tail _), tail_cons,
      Attribute.occurrences_append hdotted]
    have htail := ih r hrest
    rw [text] at htail
    rw [htail]
    simp

theorem exists_proper (t : Text) :
    ∃ o : Outline, o.Proper ∧ o.text = t ∧ ∀ p ∈ o.parts, p.1.version ≠ [] := by
  induction hn : t.length using Nat.strongRecOn generalizing t with
  | ind n ih =>
    subst hn
    by_cases hat : ∃ k : Kind, k.pattern t ≠ none
    · obtain ⟨k, hk⟩ := hat
      obtain ⟨a, u, ⟨-, hne⟩, hdotted, rfl⟩ := Kind.exists_of_pattern hk
      have hlt : u.length < (a.text ++ u).length := by
        simpa using List.length_pos_iff.mpr a.text_ne_nil
      obtain ⟨o, ho, rfl, hversion⟩ := ih u.length hlt u rfl
      refine ⟨⟨[], (a, o.start) :: o.parts⟩, ⟨plain_nil, ?_, ?_⟩, tail_cons .., ?_⟩
      · exact List.forall_mem_cons.mpr ⟨hdotted, ho.dotted⟩
      · exact List.forall_mem_cons.mpr ⟨ho.start, ho.run⟩
      · exact List.forall_mem_cons.mpr ⟨hne, hversion⟩
    · cases t with
      | nil => exact ⟨⟨[], []⟩, ⟨plain_nil, nofun, nofun⟩, rfl, nofun⟩
      | cons c t =>
        obtain ⟨o, ho, rfl, hversion⟩ := ih t.length (by simp) t rfl
        have hplain : Plain (c :: o.start) := ho.start.cons fun k =>
          Kind.pattern_of_append (u := tail o.parts) (not_not.mp (not_exists.mp hat k))
        exact ⟨⟨c :: o.start, o.parts⟩, ⟨hplain, ho.dotted, ho.run⟩, rfl, hversion⟩

theorem flatMap_plain (r : Text) (image : Declaration → Text) :
    (r.map Piece.plain).flatMap (Piece.expand image) = r := by
  rw [List.flatMap_map]
  simp [Piece.expand]

theorem flatMap_pieces {a : Attribute} (h : IsDotted a.version) (k : Kind) (v : Text) :
    (a.pieces k).flatMap (Piece.expand fun d => replaceWord d.version v d.text) =
      ({ a with version := if a.IsOf k then v else a.version } : Attribute).text := by
  rw [Attribute.pieces]
  by_cases hk : a.IsOf k
  · rw [if_pos hk, if_pos hk, List.flatMap_singleton, Piece.expand]
    exact a.replaceWord_text hk.2 h v
  · rw [if_neg hk, if_neg hk, flatMap_plain]

theorem Proper.replaceVersions_text {o : Outline} (h : o.Proper) (k : Kind) (v : Text) :
    replaceVersions k.pattern v o.text =
      (o.revise fun a => if a.IsOf k then v else a.version).text := by
  rw [replaceVersions, replaceOccurrences, h.occurrences_text, List.flatMap_append, flatMap_plain,
    List.flatMap_assoc, text, Outline.revise, tail, List.flatMap_map]
  refine congrArg _ (List.flatMap_congr fun p hp => ?_)
  rw [List.flatMap_append, flatMap_plain, flatMap_pieces (h.dotted p hp)]

theorem Proper.firstOccurrence?_text {o : Outline} (h : o.Proper) (k : Kind) :
    firstOccurrence? k.pattern o.text =
      (o.parts.find? fun p => p.1.IsOf k).map fun p => p.1.declaration := by
  have hplain (r : Text) :
      (r.map .plain : List (Piece Char Declaration)).findSome? Piece.found? = none := by
    simp [Piece.found?]
  rw [firstOccurrence?, h.occurrences_text, List.findSome?_append, hplain, Option.none_or]
  induction o.parts with
  | nil => rfl
  | cons p parts ih =>
    rw [List.flatMap_cons, List.findSome?_append, ih, List.findSome?_append, hplain,
      Option.or_none, Attribute.pieces]
    by_cases hk : p.1.IsOf k
    · rw [if_pos hk, List.find?_cons_of_pos (by simpa using hk)]
      rfl
    · rw [if_neg hk, List.find?_cons_of_neg (by simpa using hk), hplain, Option.none_or]

/-- An attribute stands at a position only where the outline has it. -/
theorem Proper.of_hasAttribute {o : Outline} (h : o.Proper) {i : Nat} {a : Attribute}
    (ha : HasAttribute o.text i a) :
    ∃ before r after, o.parts = before ++ (a, r) :: after ∧
      i = (Outline.mk o.start before).text.length := by
  rw [hasAttribute_iff] at ha
  obtain ⟨start, parts⟩ := o
  induction parts generalizing start i with
  | nil =>
    rw [text, tail, List.flatMap_nil, List.append_nil,
      h.start _ (List.drop_suffix i start)] at ha
    cases ha
  | cons p parts ih =>
    obtain ⟨b, r⟩ := p
    obtain ⟨hstart, hdotted, hrest⟩ := h.of_cons
    obtain ⟨hne, hdrop⟩ | ⟨j, rfl, hdrop⟩ := drop_append_cases start (tail ((b, r) :: parts)) i
    · rw [text, hdrop, Kind.pattern_append_bracket hne
        (hstart _ (List.drop_suffix i start) _) (head?_tail _)] at ha
      cases ha
    rw [text, hdrop, tail_cons] at ha
    obtain rfl | hpos := Nat.eq_zero_or_pos j
    · rw [List.drop_zero, a.kind.pattern_text hdotted] at ha
      split_ifs at ha with hk
      obtain rfl := Attribute.declaration_inj hk.1 (Prod.mk.inj (Option.some.inj ha)).1
      exact ⟨[], r, parts, rfl, by simp [text, tail]⟩
    obtain ⟨hne, hdrop⟩ | ⟨l, rfl, hdrop⟩ := drop_append_cases b.text (r ++ tail parts) j
    · have hsuffix : b.text.drop j <:+ b.body := by
        rw [b.text_eq_cons, ← Nat.sub_add_cancel hpos, List.drop_succ_cons]
        exact List.drop_suffix _ _
      rw [hdrop, Kind.pattern_of_suffix hdotted hsuffix hne] at ha
      cases ha
    · rw [hdrop] at ha
      obtain ⟨before, r', after, rfl, rfl⟩ := ih r hrest ha
      refine ⟨(b, r) :: before, r', after, rfl, ?_⟩
      simp only [text, tail_cons, List.length_append]

def Complete (o : Outline) : Prop :=
  ∀ i a, HasAttribute o.text i a ↔ a.version ≠ [] ∧ ∃ before r after,
    o.parts = before ++ (a, r) :: after ∧ i = (Outline.mk o.start before).text.length

theorem Proper.complete {o : Outline} (h : o.Proper) : o.Complete := by
  refine fun i a => ⟨fun ha => ⟨ha.1, h.of_hasAttribute ha⟩, ?_⟩
  rintro ⟨hne, before, r, after, hparts, rfl⟩
  refine ⟨hne, h.dotted (a, r) (by simp [hparts]), r ++ tail after, ?_⟩
  have htext : o.text = (Outline.mk o.start before).text ++ (a.text ++ (r ++ tail after)) := by
    rw [text, hparts, text, List.append_assoc, ← tail_cons]
    exact congrArg _ List.flatMap_append
  rw [htext, List.drop_left]

theorem revise_revise (o : Outline) (f g : Attribute → Text) :
    (o.revise f).revise g = o.revise fun a => g { a with version := f a } := by
  simp [Outline.revise, Function.comp_def]

theorem revise_congr {o : Outline} {f g : Attribute → Text}
    (h : ∀ p ∈ o.parts, f p.1 = g p.1) : o.revise f = o.revise g := by
  rw [Outline.revise, Outline.revise]
  refine congrArg _ (List.map_congr_left fun p hp => ?_)
  dsimp only
  rw [h p hp]

theorem Proper.passText_text {o : Outline} (h : o.Proper) (given : Text) :
    passText given o.text =
      (o.revise fun a =>
        if a.version = [] then [] else firstVersion a.kind.pattern given).text := by
  have hrevised : (o.revise fun a => if a.IsOf .assembly then
      firstVersion Kind.assembly.pattern given else a.version).Proper := by
    refine h.revise fun p hp => ?_
    split_ifs
    · exact (firstVersion_spec _ given).isDotted
    · exact h.dotted p hp
  change replaceVersions Kind.file.pattern (firstVersion Kind.file.pattern given)
    (replaceVersions Kind.assembly.pattern (firstVersion Kind.assembly.pattern given) o.text) = _
  rw [h.replaceVersions_text, hrevised.replaceVersions_text, revise_revise]
  refine congrArg _ (revise_congr fun p _ => ?_)
  obtain ⟨⟨k, n, v⟩, r⟩ := p
  cases k <;> by_cases hv : v = [] <;> simp [Attribute.IsOf, hv]

theorem Proper.firstVersion_text {o : Outline} (h : o.Proper) (k : Kind) :
    firstVersion k.pattern o.text =
      ((o.parts.find? fun p => p.1.IsOf k).map (·.1.version)).getD [] := by
  rw [firstVersion, h.firstOccurrence?_text, Option.map_map]
  rfl

theorem Proper.passText_of_ne {o : Outline} (h : o.Proper)
    (hne : ∀ p ∈ o.parts, p.1.version ≠ []) (given : Text) :
    passText given o.text = (o.revise fun a => firstVersion a.kind.pattern given).text := by
  rw [h.passText_text]
  exact congrArg _ (revise_congr fun p hp => if_neg (hne p hp))

theorem Proper.reviseFirst {o : Outline} (h : o.Proper) (given : Text) :
    (o.revise fun a => firstVersion a.kind.pattern given).Proper :=
  h.revise fun _ _ => (firstVersion_spec _ given).isDotted

theorem head?_text_revise (o : Outline) (version : Attribute → Text) :
    (o.revise version).text.head? = o.text.head? := by
  obtain ⟨start, parts⟩ := o
  cases start with
  | cons c start => rfl
  | nil =>
    cases parts with
    | nil => rfl
    | cons p parts =>
      obtain ⟨a, r⟩ := p
      simp [Outline.revise, text, tail_cons, Attribute.text_eq_cons]

end Outline

/-- The first attribute of a kind has the passed version, as all of them have. -/
theorem firstVersion_passText (k : Kind) (given t : Text) :
    firstVersion k.pattern (passText given t) =
      if firstVersion k.pattern t = [] then [] else firstVersion k.pattern given := by
  obtain ⟨o, ho, rfl, hne⟩ := Outline.exists_proper t
  rw [ho.passText_of_ne hne, (ho.reviseFirst given).firstVersion_text, ho.firstVersion_text,
    Outline.revise, List.find?_map, Option.map_map]
  change ((o.parts.find? fun p => Attribute.IsOf k
    { p.1 with version := firstVersion p.1.kind.pattern given }).map fun p =>
      firstVersion p.1.kind.pattern given).getD [] = _
  by_cases hgiven : firstVersion k.pattern given = []
  · have hnone : ∀ p : Attribute × Text, ¬ Attribute.IsOf k
        { p.1 with version := firstVersion p.1.kind.pattern given } := by
      rintro p ⟨rfl, h⟩
      exact h hgiven
    rw [List.find?_eq_none.mpr fun p _ => by simpa using hnone p, hgiven, ite_self]
    rfl
  · have hsame : ∀ p ∈ o.parts, Attribute.IsOf k
        { p.1 with version := firstVersion p.1.kind.pattern given } ↔ p.1.IsOf k := by
      intro p hp
      refine and_congr_right fun hk => iff_of_true ?_ (hne p hp)
      rwa [show p.1.kind = k from hk]
    rw [List.find?_congr fun p hp => decide_eq_decide.mpr (hsame p hp)]
    cases hfind : o.parts.find? fun p => p.1.IsOf k with
    | none => rfl
    | some p =>
      obtain ⟨hk, hversion⟩ : p.1.IsOf k := by simpa using List.find?_some hfind
      rw [Option.map_some, Option.map_some, Option.getD_some, Option.getD_some, if_neg hversion, hk]

theorem passText_congr {given given' : Text}
    (h : ∀ k : Kind, firstVersion k.pattern given = firstVersion k.pattern given') (t : Text) :
    passText given t = passText given' t := by
  have hassembly : firstVersion assemblyVersionAt given = firstVersion assemblyVersionAt given' :=
    h .assembly
  have hfile : firstVersion fileVersionAt given = firstVersion fileVersionAt given' := h .file
  rw [passText, passText, hassembly, hfile]

theorem passText_passText (given t : Text) :
    passText given (passText given t) = passText given t := by
  obtain ⟨o, ho, rfl, hne⟩ := Outline.exists_proper t
  rw [ho.passText_of_ne hne, (ho.reviseFirst given).passText_text, Outline.revise_revise]
  refine congrArg _ (Outline.revise_congr fun p _ => ?_)
  dsimp only
  split_ifs with h
  · exact h.symm
  · rfl

theorem firstVersion_passText_self (k : Kind) (t : Text) :
    firstVersion k.pattern (passText t t) = firstVersion k.pattern t := by
  rw [firstVersion_passText]
  split_ifs with h
  · exact h.symm
  · rfl

theorem passText_passText_self (t : Text) :
    passText (passText t t) (passText t t) = passText t t := by
  rw [passText_congr (firstVersion_passText_self · t), passText_passText]

theorem head?_passText (given t : Text) : (passText given t).head? = t.head? := by
  obtain ⟨o, ho, rfl, hne⟩ := Outline.exists_proper t
  rw [ho.passText_of_ne hne, Outline.head?_text_revise]

end Rollout.Metadata
