import Rollout.Proofs.Inlining
import Rollout.Proofs.Layout
import Rollout.Proofs.Substitution

namespace Rollout

open Text Script Interpreter Layout

/-- A text is not cut at marks that are all quoted. -/
theorem cutUnquoted_of_quoted {mark : Char} {t : Text} {quoted : Bool}
    (h : ∀ before after, t = before ++ mark :: after → quotedAfter quoted before = true) :
    cutUnquoted mark quoted t = none := by
  induction t generalizing quoted with
  | nil => rfl
  | cons c t ih =>
    have hrest : ∀ before after, t = before ++ mark :: after →
        quotedAfter (if c = '"' then !quoted else quoted) before = true := fun before after he =>
      h (c :: before) after (by rw [he]; rfl)
    rw [cutUnquoted]
    split
    · next hc =>
      rw [if_pos hc] at hrest
      rw [ih hrest]
      rfl
    · next hc =>
      rw [if_neg hc] at hrest
      rw [if_neg, ih hrest]
      · rfl
      · intro hmark
        simp only [Bool.and_eq_true, decide_eq_true_eq, Bool.not_eq_true'] at hmark
        have hquoted := h [] t (by rw [hmark.1]; rfl)
        rw [quotedAfter, hmark.2] at hquoted
        cases hquoted

theorem trim_spell (name : Text) : trim (spell name) = spell name := by
  have htrim := @trim_of_indent [] nofun '$' (by decide) ('(' :: (name ++ [')']))
  have hright := trimRight_append_cons (c := ')') (by decide) ('(' :: name) []
  rw [List.nil_append, ← spell_eq] at htrim
  rw [List.cons_append] at hright
  rw [htrim, hright, spell_eq]
  rfl

theorem isBlank_of_trim_eq {t : Text} {c : Char} (h : trim (t ++ [c]) = t ++ [c]) :
    isBlank c = false := by
  have hhead := List.head?_dropWhile_not isBlank (trimLeft (t ++ [c])).reverse
  rw [trim, trimRight] at h
  rw [← List.reverse_reverse (List.dropWhile _ _), h] at hhead
  simpa using hhead

/-- A name and a value that the line of an assignment can hold. -/
structure IsPreset (name value : Text) : Prop where
  name_ne : name ≠ []
  plain : ∀ c ∈ name, c ∉ ['(', ')', '$', '=', '#', '"', '\n']
  trimmed : trim value = value
  oneLine : '\n' ∉ value
  uncommented : ∀ before after, value = before ++ '#' :: after → Odd (before.count '"')

def presetLine (name value : Text) : Text := spell name ++ " = ".toList ++ value

def presetTail (value : Text) : Text := if value = [] then [] else ' ' :: value

namespace IsPreset

variable {name value : Text} (h : IsPreset name value)

include h

theorem isMacroName : IsMacroName name := by
  refine ⟨h.name_ne, fun c hc => ?_⟩
  have hplain := h.plain c hc
  simp only [List.mem_cons, not_or] at hplain
  simp [isMacroChar, hplain]

theorem not_mem_spell {c : Char} (hc : c ∈ ['=', '#', '"', '\n']) : c ∉ spell name := by
  have hname : c ∉ name := fun hm => h.plain c hm (by revert hc; simp; tauto)
  have hsigns : c ∉ ['$', '(', ')'] := by
    revert hc
    simp only [List.mem_cons, List.not_mem_nil, or_false]
    rintro (rfl | rfl | rfl | rfl) <;> decide
  rw [spell_eq]
  simp_all

theorem macroName_spell : macroName (spell name) = some name := by
  have hmacro := macroAt_spell h.isMacroName []
  rw [List.append_nil] at hmacro
  rw [macroName, trim_spell, hmacro]
  exact if_pos (length_spell name).symm

theorem trimRight_presetLine :
    trimRight (presetLine name value) = spell name ++ ' ' :: '=' :: presetTail value := by
  cases value using List.reverseRecOn with
  | nil =>
    have hline : presetLine name [] = (spell name ++ [' ']) ++ '=' :: [' '] := by
      simp [presetLine]
    have hblank : trimRight [' '] = [] := by decide
    rw [hline, trimRight_append_cons (by decide), hblank]
    simp [presetTail]
  | append_singleton value c =>
    have hline : presetLine name (value ++ [c]) =
        (spell name ++ " = ".toList ++ value) ++ c :: [] := by
      simp [presetLine]
    have hblank : trimRight [] = [] := rfl
    rw [hline, trimRight_append_cons (isBlank_of_trim_eq h.trimmed), hblank]
    simp [presetTail]

theorem activeLines_presetLine :
    activeLines (presetLine name value) = [spell name ++ ' ' :: '=' :: presetTail value] := by
  have hline : presetLine name value =
      [] ++ '$' :: ('(' :: (name ++ ')' :: (" = ".toList ++ value))) := by simp [presetLine, spell]
  have hn : '\n' ∉ presetLine name value := by
    simp [presetLine, h.not_mem_spell (c := '\n') (by simp), h.oneLine]
  rw [hline] at hn
  have hactive := @activeLines_of_code [] _ '$' (by simp) (by decide) (by decide) hn
  rw [List.nil_append] at hactive hline
  rw [← h.trimRight_presetLine, hline, hactive]

/-- The value holds no comment. -/
theorem stripComment_presetLine :
    stripComment (spell name ++ ' ' :: '=' :: presetTail value) =
      spell name ++ ' ' :: '=' :: presetTail value := by
  have hvalue : cutUnquoted '#' false value = none := cutUnquoted_of_quoted fun before after he =>
    (quotedAfter_iff_odd before).mpr (h.uncommented before after he)
  have htail : cutUnquoted '#' false (presetTail value) = none := by
    rw [presetTail]
    split
    · rfl
    · have hspace := @cutUnquoted_append '#' [' '] (by decide) (by decide) value
      rw [hvalue] at hspace
      exact hspace
  apply stripComment_of_none
  have happend : spell name ++ ' ' :: '=' :: presetTail value =
      (spell name ++ [' ', '=']) ++ presetTail value := by simp
  rw [happend, cutUnquoted_append, htail]
  · rfl
  · simp [h.not_mem_spell (c := '"') (by simp)]
  · simp [h.not_mem_spell (c := '#') (by simp)]

theorem splitAssignment_presetLine :
    splitAssignment (spell name ++ ' ' :: '=' :: presetTail value) = some (spell name, value) := by
  have hcut : cutUnquoted '=' false ('=' :: presetTail value) = some ([], presetTail value) := rfl
  have htail : trim (presetTail value) = value := by
    rw [presetTail]
    split
    · next hnil => rw [hnil]; rfl
    · rw [trim_cons_blank (by decide), h.trimmed]
  have happend : spell name ++ ' ' :: '=' :: presetTail value =
      (spell name ++ [' ']) ++ '=' :: presetTail value := by simp
  rw [splitAssignment, happend, cutUnquoted_append, hcut]
  · simp [htail, trim_append_blank (c := ' ') (by decide), trim_spell]
  · simp [h.not_mem_spell (c := '"') (by simp)]
  · simp [h.not_mem_spell (c := '=') (by simp)]

end IsPreset

theorem resolveMacros_begin (t : Text) (s : Session) (a : Activation) :
    ∃ w w', (∃ x, resolveMacros t s = .ok x { s with world := w } ∧
        resolveMacros t (s.begin a) = .ok x { s.begin a with world := w' }) ∨
      ∃ e, resolveMacros t s = .error e { s with world := w } ∧
        resolveMacros t (s.begin a) = .error e { s.begin a with world := w' } := by
  obtain ⟨s', t', -, -, -, ⟨x, hs, ht⟩ | ⟨e, hs, ht⟩⟩ :=
    (inlining False False).onWorld_cases (a := resolve s.store Derived.lookup t)
      ⟨resolve_oblivious _ _, resolve_evolves _ _⟩ ((Alike.refl s).of_shown rfl (s.shown_begin a))
  · obtain ⟨w, -, rfl⟩ := onWorld_eq_ok hs
    obtain ⟨w', -, rfl⟩ := onWorld_eq_ok ht
    exact ⟨w, w', .inl ⟨x, hs, ht⟩⟩
  · obtain ⟨w, -, rfl⟩ := onWorld_eq_error hs
    obtain ⟨w', -, rfl⟩ := onWorld_eq_error ht
    exact ⟨w, w', .inr ⟨e, hs, ht⟩⟩

theorem assign_of_resolved (name : Text) {value x : Text} {s : Session} {w : World}
    (h : resolveMacros value s = .ok x { s with world := w }) :
    assign name value s = match s.store.assign name x with
      | .ok store => .ok () { s with store, world := w }
      | .error e => .error (.script e) { s with world := w } := by
  rw [assign, bind_of_ok h, get_bind]
  dsimp only
  cases s.store.assign name x <;> rfl

theorem exists_variable_of_assign {vs vs' : Variables} {name t : Text}
    (h : vs.assign name t = .ok vs') : ∃ v : Variable, v.name = name := by
  cases hv : Variable.ofName? name with
  | none => simp [Variables.assign, hv] at h
  | some v => exact ⟨v, ofName?_eq_some.mp hv⟩

/-- A variable is assigned alike before and after a line has begun, or neither. -/
theorem assign_begin (name value : Text) (s : Session) (a : Activation) :
    (∃ v : Variable, v.name = name ∧ ∃ s₁ t₁, assign name value s = .ok () s₁ ∧
      assign name value (s.begin a) = .ok () t₁ ∧ t₁.store = s₁.store) ∨
    ∃ e s₁ t₁, assign name value s = .error e s₁ ∧ assign name value (s.begin a) = .error e t₁ ∧
      s₁.store = s.store ∧ t₁.store = s.store := by
  obtain ⟨w, w', ⟨x, hs, ht⟩ | ⟨e, hs, ht⟩⟩ := resolveMacros_begin value s a
  · have hassign := assign_of_resolved name hs
    have hbegin := assign_of_resolved name (s := s.begin a) ht
    have hstore : (s.begin a).store = s.store := rfl
    rw [hstore] at hbegin
    cases h : s.store.assign name x with
    | ok store =>
      rw [h] at hassign hbegin
      obtain ⟨v, hv⟩ := exists_variable_of_assign h
      exact .inl ⟨v, hv, _, _, hassign, hbegin, rfl⟩
    | error e =>
      rw [h] at hassign hbegin
      exact .inr ⟨_, _, _, hassign, hbegin, rfl, rfl⟩
  · exact .inr ⟨e, _, _, bind_of_error hs, bind_of_error ht, rfl, rfl⟩

/-- How assigning compares with executing a line, both started with the same store: both end well
with the same store, or both fail alike and leave the store. -/
inductive AssignsAlike (store : Variables) :
    EStateM.Result Fault Session Unit → EStateM.Result Fault Session Flow → Prop
  | assigned {s t : Session} (same : t.store = s.store) : AssignsAlike store (.ok () s) (.ok .next t)
  | failed {e : Fault} {s t : Session} (kept : s.store = store) (kept' : t.store = store) :
      AssignsAlike store (.error e s) (.error e t)

/-- To assign a value is to execute the line that assigns it, for any name and any value that a line
can hold, in any session: the variables are the same afterwards, or the same fault is met and they
are as before. -/
theorem preset_line_assigns {name value : Text} (h : IsPreset name value) (settings : Settings)
    (nested : Nested) (script : Text) (s : Session) :
    ∃ line, activeLines (presetLine name value) = [line] ∧
      AssignsAlike s.store (assign name value s) (runLine settings nested script line s) := by
  refine ⟨_, h.activeLines_presetLine, ?_⟩
  generalize hline : spell name ++ ' ' :: '=' :: presetTail value = line
  have hrun : runLine settings nested script line s =
      (executeAssignment (spell name) value >>= fun _ => pure Flow.next)
        (s.begin ⟨script, line⟩) := by
    refine (runLine_eq nested ⟨script, line⟩ s).trans ?_
    dsimp only
    rw [← hline, h.stripComment_presetLine, executeLine, h.splitAssignment_presetLine]
  rw [hrun]
  obtain ⟨v, rfl, s₁, t₁, hassign, hbegin, hstore⟩ | ⟨e, s₁, t₁, hassign, hbegin, hs, ht⟩ :=
    assign_begin name value s ⟨script, line⟩
  · obtain ⟨journal, hexecute⟩ := executeAssignment_of_assign h.macroName_spell hbegin
    rw [hassign, bind_of_ok hexecute]
    exact .assigned hstore
  · have hexecute : executeAssignment (spell name) value (s.begin ⟨script, line⟩) =
        .error e t₁ := by
      rw [executeAssignment, h.macroName_spell]
      exact bind_of_error hbegin
    rw [hassign, bind_of_error hexecute]
    exact .failed hs ht

namespace Presets

def value : Text := "\"#\"=$(Source)=\"".toList

theorem isPreset_value : IsPreset "Target".toList value where
  name_ne := by decide
  plain := List.forall_iff_forall_mem.mp (by decide)
  trimmed := by decide
  oneLine := by decide
  uncommented := fun before after he => by
    have hall : ∀ b ∈ value.inits, (value.drop b.length).head? = some '#' → Odd (b.count '"') := by
      decide
    refine hall before ((List.mem_inits _ _).mpr ⟨'#' :: after, he.symm⟩) ?_
    rw [he]
    simp

def settings : Settings where
  resources := .memory []
  version := [1]
  directory := "/work".toList

def home : Session where
  store := { source := "src".toList }
  world := {}

end Presets

open Presets in
theorem preset_line_assigns_target :
    ∃ line t, activeLines (presetLine "Target".toList value) = [line] ∧
      runLine settings [] "s".toList line home = .ok .next t ∧
      t.store.target = "\"#\"=src=\"".toList := by
  obtain ⟨line, hactive, halike⟩ :=
    preset_line_assigns isPreset_value settings [] "s".toList home
  have hassign : ∃ s, assign "Target".toList value home = .ok () s ∧
      s.store.target = "\"#\"=src=\"".toList := ⟨_, rfl, rfl⟩
  obtain ⟨s, hassign, htarget⟩ := hassign
  rw [hassign] at halike
  generalize hrun : runLine settings [] "s".toList line home = r at halike
  cases halike with
  | @assigned _ t same => exact ⟨line, t, hactive, hrun, by rw [same, htarget]⟩

end Rollout
