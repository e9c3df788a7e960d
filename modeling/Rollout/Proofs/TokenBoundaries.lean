import Mathlib.Algebra.Ring.Parity
import Mathlib.Data.List.Forall2
import Rollout.Proofs.Macro

namespace Rollout

open Text Script

def quotedAfter : (quoted : Bool) → Text → Bool
  | quoted, [] => quoted
  | quoted, c :: t => quotedAfter (if c = '"' then !quoted else quoted) t

def escapedAfter : (escaped : Bool) → Text → Bool
  | escaped, [] => escaped
  | _, c :: t => escapedAfter (c = '\\') t

/-- No space of the text ends a token. -/
def Solid : (quoted escaped : Bool) → Text → Prop
  | _, _, [] => True
  | quoted, escaped, c :: t =>
    (c = ' ' → quoted = true ∨ escaped = true) ∧
      Solid (if c = '"' then !quoted else quoted) (c = '\\') t

def prepend (t : Text) : List Text → List Text
  | [] => [t]
  | token :: more => (t ++ token) :: more

theorem quotedAfter_append (quoted : Bool) (t u : Text) :
    quotedAfter quoted (t ++ u) = quotedAfter (quotedAfter quoted t) u := by
  induction t generalizing quoted with
  | nil => rfl
  | cons c t ih => exact ih _

theorem escapedAfter_append (escaped : Bool) (t u : Text) :
    escapedAfter escaped (t ++ u) = escapedAfter (escapedAfter escaped t) u := by
  induction t generalizing escaped with
  | nil => rfl
  | cons c t ih => exact ih _

theorem quotedAfter_of_not_mem {t : Text} (h : '"' ∉ t) (quoted : Bool) :
    quotedAfter quoted t = quoted := by
  induction t with
  | nil => rfl
  | cons c t ih =>
    rw [List.mem_cons, not_or] at h
    rw [quotedAfter, if_neg (Ne.symm h.1), ih h.2]

theorem quotedAfter_iff_odd (t : Text) : quotedAfter false t = true ↔ Odd (t.count '"') := by
  have h (quoted : Bool) : quotedAfter quoted t = (quoted != decide (Odd (t.count '"'))) := by
    induction t generalizing quoted with
    | nil => simp [quotedAfter]
    | cons c t ih =>
      rw [quotedAfter, ih, List.count_cons]
      by_cases hc : c = '"'
      · by_cases ho : Odd (t.count '"') <;> simp [hc, ho, Nat.odd_add_one]
      · simp [hc]
  simp [h]

theorem escapedAfter_iff (escaped : Bool) (t : Text) :
    escapedAfter escaped t = true ↔ t.getLast? = some '\\' ∨ t = [] ∧ escaped = true := by
  induction t generalizing escaped with
  | nil => simp [escapedAfter]
  | cons c t ih =>
    rw [escapedAfter, ih]
    cases t with
    | nil => simp
    | cons d t => simp [List.getLast?_cons_cons]

theorem prepend_append (t u : Text) {tokens : List Text} (h : tokens ≠ []) :
    prepend (t ++ u) tokens = prepend t (prepend u tokens) := by
  cases tokens with
  | nil => exact absurd rfl h
  | cons token more => simp [prepend]

theorem prepend_inj {t : Text} {tokens tokens' : List Text} (h : tokens ≠ [])
    (h' : tokens' ≠ []) : prepend t tokens = prepend t tokens' ↔ tokens = tokens' := by
  cases tokens with
  | nil => exact absurd rfl h
  | cons token more =>
    cases tokens' with
    | nil => exact absurd rfl h'
    | cons token' more' => simp [prepend]

theorem prepend_ne_cons_nil {t : Text} (h : t ≠ []) (tokens more : List Text) :
    prepend t tokens ≠ [] :: more := by
  cases tokens with
  | nil => simp [prepend, h]
  | cons token rest => simp [prepend, h]

theorem prepend_nil {tokens : List Text} (h : tokens ≠ []) : prepend [] tokens = tokens := by
  cases tokens with
  | nil => exact absurd rfl h
  | cons token more => rfl

theorem consToken_eq (c : Char) (tokens : List Text) : consToken c tokens = prepend [c] tokens := by
  cases tokens <;> rfl

theorem tokensFrom_cons (quoted escaped : Bool) (c : Char) (t : Text) :
    tokensFrom quoted escaped (c :: t) =
      if c = ' ' ∧ quoted = false ∧ escaped = false then [] :: tokensFrom quoted false t
      else prepend [c] (tokensFrom (if c = '"' then !quoted else quoted) (c = '\\') t) := by
  rw [tokensFrom]
  by_cases hq : c = '"'
  · simp [hq, consToken_eq]
  · by_cases hs : c = ' '
    · cases quoted <;> cases escaped <;> simp [hs, consToken_eq]
    · simp [hq, hs, consToken_eq]

theorem Solid.tokensFrom_append {quoted escaped : Bool} {t : Text} (h : Solid quoted escaped t)
    (u : Text) :
    tokensFrom quoted escaped (t ++ u) =
      prepend t (tokensFrom (quotedAfter quoted t) (escapedAfter escaped t) u) := by
  induction t generalizing quoted escaped with
  | nil => exact (prepend_nil (tokensFrom_ne_nil _ _ _)).symm
  | cons c t ih =>
    have hnot : ¬(c = ' ' ∧ quoted = false ∧ escaped = false) := by
      rintro ⟨hc, rfl, rfl⟩
      obtain hq | he := h.1 hc
      · cases hq
      · cases he
    rw [List.cons_append, tokensFrom_cons, if_neg hnot, ih h.2]
    exact (prepend_append [c] t (tokensFrom_ne_nil _ _ _)).symm

/-- A text that is not solid ends a token before its own end. -/
theorem exists_token_of_not_solid {quoted escaped : Bool} {t : Text} (h : ¬Solid quoted escaped t)
    (u : Text) :
    ∃ token rest more, t = token ++ ' ' :: rest ∧
      tokensFrom quoted escaped (t ++ u) = token :: more := by
  induction t generalizing quoted escaped with
  | nil => exact absurd trivial h
  | cons c t ih =>
    rw [List.cons_append, tokensFrom_cons]
    by_cases hc : c = ' ' ∧ quoted = false ∧ escaped = false
    · rw [if_pos hc]
      exact ⟨[], t, _, by rw [hc.1]; rfl, rfl⟩
    · rw [if_neg hc]
      have ht : ¬Solid (if c = '"' then !quoted else quoted) (c = '\\') t := by
        refine fun ht => h ⟨fun hspace => ?_, ht⟩
        cases quoted with
        | true => exact .inl rfl
        | false =>
          cases escaped with
          | true => exact .inr rfl
          | false => exact absurd ⟨hspace, rfl, rfl⟩ hc
      obtain ⟨token, rest, more, rfl, htokens⟩ := ih ht
      exact ⟨c :: token, rest, more, rfl, by rw [htokens]; rfl⟩

theorem tokensFrom_append_iff (quoted escaped : Bool) (t u : Text) {tokens : List Text}
    (hne : tokens ≠ []) :
    tokensFrom quoted escaped (t ++ u) = prepend t tokens ↔
      Solid quoted escaped t ∧
        tokensFrom (quotedAfter quoted t) (escapedAfter escaped t) u = tokens := by
  by_cases h : Solid quoted escaped t
  · rw [h.tokensFrom_append]
    rw [prepend_inj (tokensFrom_ne_nil _ _ _) hne, and_iff_right h]
  · refine ⟨fun heq => ?_, fun hs => absurd hs.1 h⟩
    obtain ⟨token, rest, more, rfl, htokens⟩ := exists_token_of_not_solid h u
    obtain ⟨first, others, rfl⟩ := List.exists_cons_of_ne_nil hne
    have hlength := congrArg List.length (List.cons.inj (htokens.symm.trans heq)).1
    simp only [List.length_append, List.length_cons] at hlength
    omega

/-- A text is solid when all its spaces are quoted or escaped. -/
theorem solid_iff {quoted escaped : Bool} {t : Text} :
    Solid quoted escaped t ↔ ∀ u v, t = u ++ ' ' :: v →
      quotedAfter quoted u = true ∨ escapedAfter escaped u = true := by
  induction t generalizing quoted escaped with
  | nil => simp [Solid]
  | cons c t ih =>
    rw [Solid, ih]
    constructor
    · rintro ⟨hc, ht⟩ u v heq
      cases u with
      | nil => exact hc (List.cons.inj heq).1
      | cons d u =>
        obtain ⟨rfl, rfl⟩ := List.cons.inj heq
        exact ht u v rfl
    · intro h
      refine ⟨?_, ?_⟩
      · rintro rfl
        exact h [] t rfl
      · rintro u v rfl
        exact h (c :: u) v rfl

def consPiece (p : Piece Char Text) : List (List (Piece Char Text)) → List (List (Piece Char Text))
  | [] => [[p]]
  | ps :: more => (p :: ps) :: more

def cutPieces : (quoted escaped : Bool) → List (Piece Char Text) → List (List (Piece Char Text))
  | _, _, [] => [[]]
  | quoted, escaped, .plain c :: ps =>
    if c = ' ' ∧ quoted = false ∧ escaped = false then [] :: cutPieces quoted false ps
    else consPiece (.plain c) (cutPieces (if c = '"' then !quoted else quoted) (c = '\\') ps)
  | quoted, _, .found name :: ps => consPiece (.found name) (cutPieces quoted false ps)

/-- With something in the place of macros, the tokens of a line end where they end with the macros.
There are two answers to whether a backslash has just been read: one for the line with its macros,
and one for the line without them. -/
def Kept (image : Text → Text) : (quoted escaped escaped' : Bool) → List (Piece Char Text) → Prop
  | _, _, _, [] => True
  | quoted, escaped, escaped', .plain c :: ps =>
    (c = ' ' → quoted = false → escaped = escaped') ∧
      Kept image (if c = '"' then !quoted else quoted) (c = '\\') (c = '\\') ps
  | quoted, _, escaped', .found name :: ps =>
    Solid quoted escaped' (image name) ∧
      Kept image quoted false (escapedAfter escaped' (image name)) ps

theorem cutPieces_ne_nil (quoted escaped : Bool) (ps : List (Piece Char Text)) :
    cutPieces quoted escaped ps ≠ [] := by
  have hcons (p : Piece Char Text) (cuts : List (List (Piece Char Text))) :
      consPiece p cuts ≠ [] := by cases cuts <;> simp [consPiece]
  cases ps with
  | nil => simp [cutPieces]
  | cons p ps =>
    cases p with
    | plain c =>
      unfold cutPieces
      split
      · simp
      · exact hcons _ _
    | found name => exact hcons _ _

theorem map_written_consPiece (image : Text → Text) (p : Piece Char Text)
    {cuts : List (List (Piece Char Text))} (h : cuts ≠ []) :
    (consPiece p cuts).map (written image) =
      prepend (p.expand image) (cuts.map (written image)) := by
  cases cuts with
  | nil => exact absurd rfl h
  | cons ps more => simp [consPiece, prepend, written]

theorem map_written_ne_nil (image : Text → Text) (quoted escaped : Bool)
    (ps : List (Piece Char Text)) : (cutPieces quoted escaped ps).map (written image) ≠ [] := by
  simpa using cutPieces_ne_nil quoted escaped ps

theorem tokensFrom_written_iff {image : Text → Text} {ps : List (Piece Char Text)}
    (h : ∀ name quoted, .found name ∈ ps → quotedAfter quoted (image name) = quoted)
    (quoted escaped escaped' : Bool) :
    tokensFrom quoted escaped' (written image ps) =
        (cutPieces quoted escaped ps).map (written image) ↔
      Kept image quoted escaped escaped' ps := by
  induction ps generalizing quoted escaped escaped' with
  | nil => simp [tokensFrom, cutPieces, Kept]
  | cons p ps ih =>
    have hps : ∀ name quoted, .found name ∈ ps → quotedAfter quoted (image name) = quoted :=
      fun name quoted hn => h name quoted (List.mem_cons_of_mem p hn)
    cases p with
    | found name =>
      rw [written_found, cutPieces, map_written_consPiece image _ (cutPieces_ne_nil _ _ _)]
      have hiff := tokensFrom_append_iff quoted escaped' (image name) (written image ps)
        (map_written_ne_nil image quoted false ps)
      rw [h name quoted (List.mem_cons_self ..), ih hps] at hiff
      exact hiff
    | plain c =>
      have hrest := ih hps (if c = '"' then !quoted else quoted) (c = '\\') (c = '\\')
      have hgo : prepend [c] (tokensFrom (if c = '"' then !quoted else quoted) (c = '\\')
            (written image ps)) =
          (consPiece (.plain c) (cutPieces (if c = '"' then !quoted else quoted) (c = '\\') ps)).map
            (written image) ↔
          Kept image (if c = '"' then !quoted else quoted) (c = '\\') (c = '\\') ps := by
        rw [map_written_consPiece image _ (cutPieces_ne_nil _ _ _), ← hrest]
        exact prepend_inj (tokensFrom_ne_nil _ _ _) (map_written_ne_nil image _ _ ps)
      rw [written_plain, tokensFrom_cons, cutPieces, Kept]
      by_cases hc : c = ' ' ∧ quoted = false
      · obtain ⟨rfl, rfl⟩ := hc
        have hend : [] :: tokensFrom false false (written image ps) =
            ([] :: cutPieces false false ps).map (written image) ↔
              Kept image false false false ps := by
          rw [List.map_cons, written_nil, List.cons.injEq, and_iff_right rfl]
          exact ih hps false false false
        simp only [true_and, true_imp_iff]
        cases escaped with
        | false =>
          cases escaped' with
          | false => exact hend.trans (and_iff_right rfl).symm
          | true =>
            refine iff_of_false ?_ fun h => Bool.noConfusion h.1
            exact prepend_ne_cons_nil (List.cons_ne_nil _ _) _ _
        | true =>
          cases escaped' with
          | false =>
            refine iff_of_false ?_ fun h => Bool.noConfusion h.1
            intro heq
            rw [if_pos rfl, if_neg (by simp),
              map_written_consPiece image _ (cutPieces_ne_nil _ _ _)] at heq
            exact prepend_ne_cons_nil (List.cons_ne_nil _ _) _ _ heq.symm
          | true => exact hgo.trans (and_iff_right rfl).symm
      · have hnot (b : Bool) : ¬(c = ' ' ∧ quoted = false ∧ b = false) := fun h => hc ⟨h.1, h.2.1⟩
        rw [if_neg (hnot escaped'), if_neg (hnot escaped), hgo]
        exact (and_iff_right fun hspace hq => absurd ⟨hspace, hq⟩ hc).symm

theorem solid_of_not_mem {t : Text} (h : ' ' ∉ t) (quoted escaped : Bool) :
    Solid quoted escaped t := by
  refine solid_iff.mpr fun u v heq => ?_
  rw [heq] at h
  simp at h

theorem escapedAfter_spell (escaped : Bool) (name : Text) :
    escapedAfter escaped (spell name) = false := by
  rw [spell, escapedAfter_append]
  rfl

section

variable {image : Text → Text} {ps : List (Piece Char Text)}
  (hn : ∀ name, .found name ∈ ps → ' ' ∉ name ∧ '"' ∉ name)

include hn

theorem quotedAfter_spell (name : Text) (quoted : Bool) (h : .found name ∈ ps) :
    quotedAfter quoted (spell name) = quoted :=
  quotedAfter_of_not_mem (by simpa [spell] using (hn name h).2) quoted

theorem solid_spell (name : Text) (h : .found name ∈ ps) (quoted escaped : Bool) :
    Solid quoted escaped (spell name) :=
  solid_of_not_mem (by simpa [spell] using (hn name h).1) quoted escaped

theorem kept_spell (quoted escaped : Bool) : Kept spell quoted escaped escaped ps := by
  induction ps generalizing quoted escaped with
  | nil => trivial
  | cons p ps ih =>
    have hps : ∀ name, .found name ∈ ps → ' ' ∉ name ∧ '"' ∉ name :=
      fun name h => hn name (List.mem_cons_of_mem p h)
    cases p with
    | plain c => exact ⟨fun _ _ => rfl, ih hps _ _⟩
    | found name =>
      refine ⟨solid_spell hn name (List.mem_cons_self ..) _ _, ?_⟩
      rw [escapedAfter_spell]
      exact ih hps _ _

theorem tokensFrom_written_spell (quoted escaped : Bool) :
    tokensFrom quoted escaped (written spell ps) =
      (cutPieces quoted escaped ps).map (written spell) :=
  (tokensFrom_written_iff (fun name quoted h => quotedAfter_spell hn name quoted h) _ _ _).mpr
    (kept_spell hn quoted escaped)

/-- What keeps the tokens, place by place: at each macro, and at each space outside double quotes. -/
theorem kept_iff (quoted escaped escaped' : Bool) :
    Kept image quoted escaped escaped' ps ↔
      (∀ before name after, ps = before ++ .found name :: after →
        Solid (quotedAfter quoted (written spell before))
          (escapedAfter escaped' (written image before)) (image name)) ∧
      ∀ before after, ps = before ++ .plain ' ' :: after →
        quotedAfter quoted (written spell before) = false →
        escapedAfter escaped (written spell before) =
          escapedAfter escaped' (written image before) := by
  induction ps generalizing quoted escaped escaped' with
  | nil => simp [Kept]
  | cons p ps ih =>
    have hps : ∀ name, .found name ∈ ps → ' ' ∉ name ∧ '"' ∉ name :=
      fun name h => hn name (List.mem_cons_of_mem p h)
    cases p with
    | plain c =>
      rw [Kept, ih hps]
      constructor
      · rintro ⟨hc, hmacros, hspaces⟩
        refine ⟨fun before name after heq => ?_, fun before after heq => ?_⟩
        · cases before with
          | nil => exact absurd (List.cons.inj heq).1 nofun
          | cons q before =>
            obtain ⟨rfl, rfl⟩ := List.cons.inj heq
            exact hmacros before name after rfl
        · cases before with
          | nil => exact hc (Piece.plain.inj (List.cons.inj heq).1)
          | cons q before =>
            obtain ⟨rfl, rfl⟩ := List.cons.inj heq
            exact hspaces before after rfl
      · rintro ⟨hmacros, hspaces⟩
        refine ⟨?_, fun before name after heq => ?_, fun before after heq => ?_⟩
        · rintro rfl
          exact hspaces [] ps rfl
        · exact hmacros (.plain c :: before) name after (by rw [heq]; rfl)
        · exact hspaces (.plain c :: before) after (by rw [heq]; rfl)
    | found name =>
      have hquoted : quotedAfter quoted (spell name) = quoted :=
        quotedAfter_spell hn name quoted (List.mem_cons_self ..)
      rw [Kept, ih hps]
      constructor
      · rintro ⟨hname, hmacros, hspaces⟩
        refine ⟨fun before other after heq => ?_, fun before after heq => ?_⟩
        · cases before with
          | nil =>
            obtain ⟨h, -⟩ := List.cons.inj heq
            cases h
            exact hname
          | cons q before =>
            obtain ⟨rfl, rfl⟩ := List.cons.inj heq
            rw [written_found, written_found, quotedAfter_append, escapedAfter_append, hquoted]
            exact hmacros before other after rfl
        · cases before with
          | nil => exact absurd (List.cons.inj heq).1 nofun
          | cons q before =>
            obtain ⟨rfl, rfl⟩ := List.cons.inj heq
            rw [written_found, written_found, quotedAfter_append, escapedAfter_append,
              escapedAfter_append, hquoted, escapedAfter_spell]
            exact hspaces before after rfl
      · rintro ⟨hmacros, hspaces⟩
        refine ⟨hmacros [] name ps rfl, fun before other after heq => ?_, fun before after heq => ?_⟩
        · have h := hmacros (.found name :: before) other after (by rw [heq]; rfl)
          rwa [written_found, written_found, quotedAfter_append, escapedAfter_append, hquoted] at h
        · have h := hspaces (.found name :: before) after (by rw [heq]; rfl)
          rwa [written_found, written_found, quotedAfter_append, escapedAfter_append,
            escapedAfter_append, hquoted, escapedAfter_spell] at h

end

theorem infix_of_mem_cutPieces (quoted escaped : Bool) (ps : List (Piece Char Text)) :
    ∀ cut ∈ cutPieces quoted escaped ps, cut <:+: ps := by
  have hcut (quoted escaped : Bool) (ps : List (Piece Char Text)) :
      ∃ first more, cutPieces quoted escaped ps = first :: more ∧ first <+: ps ∧
        ∀ cut ∈ more, cut <:+: ps := by
    induction ps generalizing quoted escaped with
    | nil => exact ⟨[], [], rfl, List.prefix_rfl, by simp⟩
    | cons p ps ih =>
      have hcons (quoted escaped : Bool) :
          ∃ first more, consPiece p (cutPieces quoted escaped ps) = first :: more ∧
            first <+: p :: ps ∧ ∀ cut ∈ more, cut <:+: p :: ps := by
        obtain ⟨first, more, heq, hfirst, hmore⟩ := ih quoted escaped
        refine ⟨p :: first, more, by rw [heq]; rfl, ?_, fun cut h => (hmore cut h).trans ?_⟩
        · exact List.cons_prefix_cons.mpr ⟨rfl, hfirst⟩
        · exact (List.suffix_cons p ps).isInfix
      cases p with
      | found name => exact hcons _ _
      | plain c =>
        unfold cutPieces
        split
        · obtain ⟨first, more, heq, hfirst, hmore⟩ := ih quoted false
          refine ⟨[], first :: more, by rw [heq], List.nil_prefix, ?_⟩
          intro cut h
          refine List.IsInfix.trans ?_ (List.suffix_cons (.plain c) ps).isInfix
          obtain rfl | h := List.mem_cons.mp h
          · exact hfirst.isInfix
          · exact hmore cut h
        · exact hcons _ _
  intro cut h
  obtain ⟨first, more, heq, hfirst, hmore⟩ := hcut quoted escaped ps
  rw [heq] at h
  obtain rfl | h := List.mem_cons.mp h
  · exact hfirst.isInfix
  · exact hmore cut h

def Insertable (x : Text) : Prop :=
  (' ' ∉ x ∧ '"' ∉ x) ∨ ∃ v, x = '"' :: (v ++ ['"']) ∧ '"' ∉ v

theorem insertable_quote {v : Text} (h : '"' ∉ v) : Insertable (quote v) := by
  unfold quote
  split_ifs with hspace
  · exact .inr ⟨unquote v, rfl, not_mem_unquote v⟩
  · exact .inl ⟨by simpa using hspace, h⟩

namespace Insertable

variable {x : Text} (h : Insertable x)

include h

theorem quotedAfter_eq (quoted : Bool) : quotedAfter quoted x = quoted := by
  obtain ⟨-, hq⟩ | ⟨v, rfl, hq⟩ := h
  · exact quotedAfter_of_not_mem hq quoted
  · rw [quotedAfter, if_pos rfl, quotedAfter_append, quotedAfter_of_not_mem hq]
    simp [quotedAfter]

/-- Within the quotes of a value, there is no other, so each of its spaces is quoted when the value
is not, and the other way round. -/
theorem quotedAfter_space {u w : Text} (hx : x = u ++ ' ' :: w) (quoted : Bool) :
    u ≠ [] ∧ quotedAfter quoted u = !quoted := by
  obtain ⟨hs, -⟩ | ⟨v, rfl, hq⟩ := h
  · rw [hx] at hs
    simp at hs
  · cases u with
    | nil => exact absurd (List.cons.inj hx).1 (by decide)
    | cons c u =>
      obtain ⟨rfl, hv⟩ := List.cons.inj hx
      refine ⟨List.cons_ne_nil _ _, ?_⟩
      have hu : '"' ∉ u := by
        obtain hwhole | hshort := List.prefix_concat_iff.mp (⟨' ' :: w, hv.symm⟩ : u <+: v ++ ['"'])
        · rw [← hwhole] at hv
          exact absurd (List.append_right_eq_self.mp hv.symm) (List.cons_ne_nil _ _)
        · exact fun hmem => hq (hshort.subset hmem)
      rw [quotedAfter, if_pos rfl, quotedAfter_of_not_mem hu]

theorem solid_unquoted (escaped : Bool) : Solid false escaped x :=
  solid_iff.mpr fun _ _ hx => .inl (h.quotedAfter_space hx false).2

theorem solid_quoted_iff (escaped : Bool) :
    Solid true escaped x ↔ ∀ u v, x = u ++ ' ' :: v → u.getLast? = some '\\' := by
  rw [solid_iff]
  refine forall_congr' fun u => forall_congr' fun v => imp_congr_right fun hx => ?_
  obtain ⟨hne, hq⟩ := h.quotedAfter_space hx true
  rw [hq, escapedAfter_iff]
  simp [hne]

end Insertable

theorem not_mem_join {c : Char} {p q : Text} (hp : c ∉ p) (hq : c ∉ q) (hc : c ≠ '/') :
    c ∉ Path.join p q := by
  unfold Path.join
  split_ifs
  · exact hq
  · simpa using ⟨hp, hq⟩
  · simpa using ⟨hp, hc, hq⟩

theorem quote_not_mem_get {vs : Variables} (hs : '"' ∉ vs.source) (ht : '"' ∉ vs.target)
    (v : Variable) : '"' ∉ vs.get v := by
  have hbool (b : Bool) : '"' ∉ ofBool b := by cases b <;> decide
  have hnat (n : Nat) : '"' ∉ ofNat n := fun hmem =>
    absurd (Nat.isDigit_of_mem_toDigits (by decide) (by decide) hmem) (by decide)
  cases v with
  | source => exact hs
  | target => exact ht
  | ignoreErrors => exact hbool _
  | redirectOutput => exact hbool _
  | processTimeout =>
    rw [Variables.get]
    cases vs.processTimeout with
    | ofNat n => exact hnat n
    | negSucc n => simpa [ofInt] using hnat (n + 1)

section

variable {σ : Type} {vs : Variables} {lookup : Lookup σ} {I : σ → Prop}

def QuoteFree (lookup : Lookup σ) (I : σ → Prop) : Prop :=
  ∀ {name : Text} {compute : Action σ (Option Text)} {s s' : σ} {v : Text},
    lookup name = some compute → I s → compute s = .ok (some v) s' → '"' ∉ v

theorem insertable_of_valueOf (hq : QuoteFree lookup I) (hsource : '"' ∉ vs.source)
    (htarget : '"' ∉ vs.target) {name x : Text} (hspace : ' ' ∉ name) (hquote : '"' ∉ name)
    {s s' : σ} (hs : I s) (hx : valueOf vs lookup name s = .ok x s') : Insertable x := by
  cases originOf vs lookup name with
  | reserved _ eq =>
    rw [eq] at hx
    cases hx
    exact .inl ⟨by simpa [spell] using hspace, by simpa [spell] using hquote⟩
  | stored v eq =>
    rw [eq] at hx
    cases hx
    exact insertable_quote (quote_not_mem_get hsource htarget v)
  | derived known eq =>
    rw [eq] at hx
    obtain ⟨value, s₁, hc, hx⟩ := bind_eq_ok.mp hx
    cases value with
    | none => cases hx
    | some v =>
      cases hx
      exact insertable_quote (hq known hs hc)
  | file eq =>
    rw [eq] at hx
    cases hx
    exact insertable_quote (not_mem_join (not_mem_unquote _) hquote (by decide))
  | missing eq =>
    rw [eq] at hx
    cases hx

/-- The values of a line's macros stay in the tokens in which the macros are written. -/
structure KeepsApart (vs : Variables) (lookup : Lookup σ) (s : σ) (line : Text) : Prop where
  /-- The spaces of a value within double quotes follow backslashes. -/
  enclosed : ∀ {before name after x : Text} {s' : σ}, line = before ++ spell name ++ after →
    IsMacroName name → Odd (before.count '"') → valueOf vs lookup name s = .ok x s' →
    ∀ u v, x = u ++ ' ' :: v → u.getLast? = some '\\'
  /-- A macro outside double quotes leaves no backslash before a space that follows it. -/
  separated : ∀ {before name after x : Text} {s' : σ},
    line = before ++ spell name ++ ' ' :: after → IsMacroName name → Even (before.count '"') →
    resolve vs lookup (before ++ spell name) s = .ok x s' → x.getLast? ≠ some '\\'

variable {line : Text} {image : Text → Text} {s : σ}

theorem Valued.eq {name x y : Text} {s' : σ} (h : Valued vs lookup I name y) (hs : I s)
    (hx : valueOf vs lookup name s = .ok x s') : x = y := by
  obtain ⟨s₁, hy, -⟩ := h s hs
  cases hx.symm.trans hy
  rfl

theorem resolve_opening {opening rest : List (Piece Char Text)} (hp : pieces line = opening ++ rest)
    (hv : ∀ name, .found name ∈ pieces line → Valued vs lookup I name (image name)) (hs : I s) :
    ∃ s₁, resolve vs lookup (written spell opening) s = .ok (written image opening) s₁ ∧ I s₁ := by
  have hproper : Proper opening := by
    have h := proper_pieces line
    rw [hp] at h
    exact h.of_append_left
  exact resolve_valued hproper
    (fun other h => hv other (by rw [hp]; exact List.mem_append_left _ h)) hs

theorem keepsApart_of_kept
    (hn : ∀ name, .found name ∈ pieces line → ' ' ∉ name ∧ '"' ∉ name)
    (hv : ∀ name, .found name ∈ pieces line → Valued vs lookup I name (image name))
    (hi : ∀ name, .found name ∈ pieces line → Insertable (image name)) (hs : I s)
    (h : Kept image false false false (pieces line)) : KeepsApart vs lookup s line := by
  obtain ⟨hmacros, hspaces⟩ := (kept_iff hn _ _ _).mp h
  refine ⟨fun {before name after x s'} hline hname hodd hx => ?_,
    fun {before name after x s'} hline hname heven hx => ?_⟩
  · have hp : pieces line = pieces before ++ .found name :: pieces after := by
      rw [hline, pieces_append_spell hname]
    have hmem : .found name ∈ pieces line := by simp [hp]
    have hsolid := hmacros _ _ _ hp
    rw [written_pieces, (quotedAfter_iff_odd before).mpr hodd,
      (hi name hmem).solid_quoted_iff] at hsolid
    rw [(hv name hmem).eq hs hx]
    exact hsolid
  · have hspace : pieces (' ' :: after) = .plain ' ' :: pieces after := by
      have hat : macroAt (' ' :: after) = none := rfl
      simp [pieces, occurrences, hat]
    have hp : pieces line = (pieces before ++ [.found name]) ++ .plain ' ' :: pieces after := by
      rw [hline, pieces_append_spell hname, hspace, List.append_assoc]
      rfl
    have hmem : .found name ∈ pieces line := by simp [hp]
    have hwritten : written spell (pieces before ++ [.found name]) = before ++ spell name := by
      rw [written_append, written_pieces, written_found, written_nil, List.append_nil]
    obtain ⟨s₁, hr, -⟩ := resolve_opening hp hv hs
    rw [hwritten] at hr
    cases hx.symm.trans hr
    have hquoted : quotedAfter false (before ++ spell name) = false := by
      rw [quotedAfter_append, quotedAfter_spell hn name _ hmem]
      simpa [← Nat.not_odd_iff_even, ← quotedAfter_iff_odd] using heven
    have hescaped := hspaces _ _ hp (by rw [hwritten, hquoted])
    rw [hwritten, escapedAfter_append, escapedAfter_spell] at hescaped
    intro hlast
    rw [(escapedAfter_iff _ _).mpr (.inl hlast)] at hescaped
    cases hescaped

theorem KeepsApart.kept
    (hn : ∀ name, .found name ∈ pieces line → ' ' ∉ name ∧ '"' ∉ name)
    (hv : ∀ name, .found name ∈ pieces line → Valued vs lookup I name (image name))
    (hi : ∀ name, .found name ∈ pieces line → Insertable (image name)) (hs : I s)
    (h : KeepsApart vs lookup s line) : Kept image false false false (pieces line) := by
  refine (kept_iff hn _ _ _).mpr ⟨fun before name after hp => ?_, fun before after hp hquoted => ?_⟩
  · obtain ⟨hname, hline⟩ := eq_of_pieces hp
    have hmem : .found name ∈ pieces line := by simp [hp]
    cases hquoted : quotedAfter false (written spell before) with
    | false => exact (hi name hmem).solid_unquoted _
    | true =>
      obtain ⟨s₁, hx, -⟩ := hv name hmem s hs
      rw [(hi name hmem).solid_quoted_iff]
      exact h.enclosed hline hname ((quotedAfter_iff_odd _).mp hquoted) hx
  · obtain rfl | ⟨before, p, rfl⟩ := List.eq_nil_or_concat before
    · rfl
    · rw [List.concat_eq_append] at hp hquoted ⊢
      cases p with
      | plain c => simp [written_append, escapedAfter_append, escapedAfter]
      | found name =>
        obtain ⟨s₁, hr, -⟩ := resolve_opening hp hv hs
        have hmem : .found name ∈ pieces line := by simp [hp]
        rw [List.append_assoc] at hp
        obtain ⟨hname, hline⟩ := eq_of_pieces hp
        rw [written_append, written_found, written_nil, List.append_nil] at hquoted hr ⊢
        rw [quotedAfter_append, quotedAfter_spell hn name _ hmem] at hquoted
        have heven : Even ((written spell before).count '"') := by
          rw [← Nat.not_odd_iff_even, ← quotedAfter_iff_odd, hquoted]
          exact Bool.false_ne_true
        have hlast := h.separated hline hname heven hr
        rw [escapedAfter_append, escapedAfter_spell, eq_comm, ← Bool.not_eq_true, escapedAfter_iff]
        rintro (hbackslash | ⟨-, hfalse⟩)
        · exact hlast hbackslash
        · cases hfalse

theorem kept_iff_keepsApart
    (hn : ∀ name, .found name ∈ pieces line → ' ' ∉ name ∧ '"' ∉ name)
    (hv : ∀ name, .found name ∈ pieces line → Valued vs lookup I name (image name))
    (hi : ∀ name, .found name ∈ pieces line → Insertable (image name)) (hs : I s) :
    Kept image false false false (pieces line) ↔ KeepsApart vs lookup s line :=
  ⟨keepsApart_of_kept hn hv hi hs, fun h => h.kept hn hv hi hs⟩

theorem forall₂_iff_eq_map {α β γ : Type} {R : β → γ → Prop} {f : α → β} {g : α → γ} {as : List α}
    (h : ∀ a ∈ as, ∀ y, R (f a) y ↔ y = g a) (ys : List γ) :
    List.Forall₂ R (as.map f) ys ↔ ys = as.map g := by
  induction as generalizing ys with
  | nil => simp
  | cons a as ih =>
    have has : ∀ a ∈ as, ∀ y, R (f a) y ↔ y = g a := fun b hb => h b (List.mem_cons_of_mem a hb)
    cases ys with
    | nil => simp
    | cons y ys => simp [h a (List.mem_cons_self ..), ih has]

/-- A line whose macro names hold neither spaces nor double quotes, and values that hold no double
quotes. -/
structure Ordinary (vs : Variables) (lookup : Lookup σ) (I : σ → Prop) (line : Text) : Prop where
  repeatable : Repeatable lookup I
  derived : QuoteFree lookup I
  source : '"' ∉ vs.source
  target : '"' ∉ vs.target
  names : ∀ before name after, line = before ++ spell name ++ after → IsMacroName name →
    ' ' ∉ name ∧ '"' ∉ name

/-- When macros leave the tokens of a line as they are. The tokens of the resolved line are the tokens
of the line, resolved one by one, if and only if the values stay apart in the two cases in which they
could get out of their tokens. -/
theorem tokens_resolved_iff (h : Ordinary vs lookup I line) {t : Text} {s' : σ} (hs : I s)
    (ht : resolve vs lookup line s = .ok t s') :
    List.Forall₂ (fun token token' => ∃ s₁, resolve vs lookup token s = .ok token' s₁)
        (tokenize line) (tokenize t) ↔
      KeepsApart vs lookup s line := by
  have hnames : ∀ name, .found name ∈ pieces line → ' ' ∉ name ∧ '"' ∉ name := by
    intro name hmem
    obtain ⟨before, after, hp⟩ := List.append_of_mem hmem
    obtain ⟨hname, hline⟩ := eq_of_pieces hp
    exact h.names _ name _ hline hname
  obtain ⟨image, rfl, hv⟩ := h.repeatable.resolve_eq hs ht
  have hi : ∀ name, .found name ∈ pieces line → Insertable (image name) := by
    intro name hmem
    obtain ⟨s₁, hx, -⟩ := hv name hmem s hs
    exact insertable_of_valueOf h.derived h.source h.target (hnames name hmem).1
      (hnames name hmem).2 hs hx
  have htokens : tokenize line = (cutPieces false false (pieces line)).map (written spell) := by
    rw [← tokensFrom_written_spell hnames, written_pieces]
    rfl
  have hresolved : ∀ cut ∈ cutPieces false false (pieces line), ∀ token',
      (∃ s₁, resolve vs lookup (written spell cut) s = .ok token' s₁) ↔
        token' = written image cut := by
    intro cut hcut token'
    have hcovers := infix_of_mem_cutPieces false false (pieces line) cut hcut
    obtain ⟨before, after, hp⟩ := hcovers
    have hproper : Proper cut := by
      have h := proper_pieces line
      rw [← hp] at h
      exact h.of_append_left.of_append_right
    obtain ⟨s₁, hr, -⟩ := resolve_valued hproper
      (fun name h => hv name (by rw [← hp]; simp [h])) hs
    simp [hr, eq_comm]
  rw [htokens, forall₂_iff_eq_map hresolved, ← kept_iff_keepsApart hnames hv hi hs]
  exact tokensFrom_written_iff (fun name quoted h => (hi name h).quotedAfter_eq quoted) _ _ _

end

theorem Derived.quoteFree {w : World}
    (h : ∀ (d : Derived) (v : Text), d.valueIn w = some v → '"' ∉ v) :
    QuoteFree Derived.lookup (Derived.Agrees w) := by
  intro name compute w₁ w₂ v hl ha hc
  obtain ⟨d, -, rfl⟩ := Option.map_eq_some_iff.mp hl
  obtain ⟨-, hv, -⟩ := Derived.value_eq_ok hc
  rw [ha.2.1] at hv
  exact h d v hv.symm

theorem quote_not_mem_bare (d : Derived) (v : Text) (h : d.valueIn {} = some v) : '"' ∉ v := by
  have hall : ∀ d ∈ Derived.all, (d.valueIn {}).all fun v => !v.contains '"' := by decide +kernel
  have hd : d ∈ Derived.all := by cases d <;> decide
  have hv := hall d hd
  rw [h] at hv
  simpa using hv

theorem ordinary_bare {vs : Variables} {line : Text} (hs : '"' ∉ vs.source) (ht : '"' ∉ vs.target)
    (hn : ∀ name ∈ (pieces line).filterMap Piece.found?, ' ' ∉ name ∧ '"' ∉ name) :
    Ordinary vs Derived.lookup (Derived.Agrees {}) line := by
  refine ⟨Derived.repeatable {}, Derived.quoteFree quote_not_mem_bare, hs, ht, ?_⟩
  rintro before name after rfl hname
  apply hn
  rw [pieces_append_spell hname]
  simp [Piece.found?]

/-- A directory with a space and a backslash at its end, and a macro within double quotes. -/
theorem tokens_resolved_iff_copy :
    let vs : Variables := { source := "C:\\Program Files\\".toList }
    let line := "copy $(Source) \"$(Runtime)lib\"".toList
    let t := "copy \"C:\\Program Files\\\" \"/lib\"".toList
    Ordinary vs Derived.lookup (Derived.Agrees {}) line ∧
      ∃ w, resolve vs Derived.lookup line {} = .ok t w ∧
        (List.Forall₂ (fun token token' => ∃ w, resolve vs Derived.lookup token {} = .ok token' w)
            (tokenize line) (tokenize t) ↔
          KeepsApart vs Derived.lookup ({} : World) line) := by
  intro vs line t
  have h : Ordinary vs Derived.lookup (Derived.Agrees {}) line :=
    ordinary_bare (by decide) (by decide) (by decide +kernel)
  have hr : resolve vs Derived.lookup line {} = .ok t _ := rfl
  exact ⟨h, _, hr, tokens_resolved_iff h (.refl {}) hr⟩

/-- A value with a space gets out of the double quotes around its macro, and a value with a backslash
at its end takes the next token in. -/
theorem tokens_moved :
    (let vs : Variables := { target := "my app".toList }
      let line := "IfExists \"$(Target)/x\" Unpack".toList
      let t := "IfExists \"\"my app\"/x\" Unpack".toList
      Ordinary vs Derived.lookup (Derived.Agrees {}) line ∧
        resolve vs Derived.lookup line {} = .ok t {} ∧
        (tokenize line).length = 3 ∧ (tokenize t).length = 4) ∧
    (let vs : Variables := { source := "out\\".toList }
      let line := "Delete $(Source) b".toList
      let t := "Delete out\\ b".toList
      Ordinary vs Derived.lookup (Derived.Agrees {}) line ∧
        resolve vs Derived.lookup line {} = .ok t {} ∧
        (tokenize line).length = 3 ∧ (tokenize t).length = 2) := by
  refine ⟨⟨?_, rfl, by decide, by decide⟩, ?_, rfl, by decide, by decide⟩
  · exact ordinary_bare (by decide) (by decide) (by decide +kernel)
  · exact ordinary_bare (by decide) (by decide) (by decide +kernel)

end Rollout
