import Mathlib.Data.List.Infix
import Rollout.Proofs.Scripts

namespace Rollout

open Text Script Interpreter

def MacroFree (t : Text) : Prop := ∀ u, u <:+ t → macroAt u = none

instance (t : Text) : Decidable (MacroFree t) :=
  decidable_of_iff (∀ u ∈ t.tails, macroAt u = none) (by simp only [MacroFree, List.mem_tails])

theorem macroAt_cons_of_ne {c : Char} (h : c ≠ '$') (t : Text) : macroAt (c :: t) = none := by
  have ha : after? "$(".toList (c :: t) = none := if_neg (Ne.symm h)
  rw [macroAt, ha]

theorem MacroFree.append_left {t : Text} (h : MacroFree t) {word : Text} (hw : '$' ∉ word) :
    MacroFree (word ++ t) := by
  induction word with
  | nil => exact h
  | cons c word ih =>
    rw [List.mem_cons, not_or] at hw
    intro u hu
    obtain rfl | hu := List.suffix_cons_iff.mp hu
    · exact macroAt_cons_of_ne (Ne.symm hw.1) _
    · exact ih hw.2 u hu

theorem MacroFree.occurrences {t : Text} (h : MacroFree t) :
    occurrences macroAt 0 t = t.map .plain := by
  induction t with
  | nil => rfl
  | cons c t ih =>
    have ht : MacroFree t := fun u hu => h u (hu.trans (List.suffix_cons c t))
    rw [Rollout.occurrences, h _ (List.suffix_refl _), List.map_cons]
    exact congrArg _ (ih ht)

theorem substitute_plain {σ : Type} (value : Text → Action σ Text) (t : Text) (s : σ) :
    substitute value (t.map .plain) s = .ok t s := by
  induction t with
  | nil => rfl
  | cons c t ih => exact bind_of_ok ih

theorem MacroFree.resolveMacros {t : Text} (h : MacroFree t) (s : Session) :
    resolveMacros t s = .ok t s := by
  have hr : resolve s.store Derived.lookup t s.world = .ok t s.world := by
    rw [resolve, h.occurrences, substitute_plain]
  rw [Rollout.resolveMacros, get_bind, onWorld, hr]

theorem cutUnquoted_append {mark : Char} {word : Text} (hq : '"' ∉ word) (hm : mark ∉ word)
    (t : Text) :
    cutUnquoted mark false (word ++ t) =
      (cutUnquoted mark false t).map fun (l, r) => (word ++ l, r) := by
  induction word with
  | nil => simp
  | cons c word ih =>
    rw [List.mem_cons, not_or] at hq hm
    have hmark : ¬(c = mark && !false) = true := by simpa using Ne.symm hm.1
    rw [List.cons_append, cutUnquoted, if_neg (Ne.symm hq.1), if_neg hmark, ih hq.2 hm.2,
      Option.map_map]
    rfl

theorem cutUnquoted_of_not_mem {mark : Char} {t : Text} (hq : '"' ∉ t) (hm : mark ∉ t) :
    cutUnquoted mark false t = none := by
  have h := cutUnquoted_append hq hm []
  rwa [List.append_nil] at h

theorem stripComment_of_none {line : Text} (h : cutUnquoted '#' false line = none) :
    stripComment line = line := by rw [stripComment, h]

theorem tokenize_append {word : Text} (hs : ' ' ∉ word) (hq : '"' ∉ word) (hb : '\\' ∉ word)
    (t : Text) : tokenize (word ++ ' ' :: t) = word :: tokenize t := by
  unfold tokenize
  induction word with
  | nil => rfl
  | cons c word ih =>
    rw [List.mem_cons, not_or] at hs hq hb
    have hspace : ¬(c = ' ' && !false && !false) = true := by simpa using Ne.symm hs.1
    have hescape : decide (c = '\\') = false := by simpa using Ne.symm hb.1
    rw [List.cons_append, tokensFrom, if_neg (Ne.symm hq.1), if_neg hspace, hescape,
      ih hs.2 hq.2 hb.2]
    rfl

/-- A text that an assignment takes as it stands. -/
structure IsValue (t : Text) : Prop where
  trimmed : trim t = t
  noQuote : '"' ∉ t
  noComment : '#' ∉ t
  macroFree : MacroFree t

theorem spell_spec (v : Variable) :
    ('"' ∉ spell v.name ∧ '#' ∉ spell v.name ∧ '=' ∉ spell v.name) ∧
      trim (spell v.name) = spell v.name ∧ macroName (spell v.name) = some v.name ∧
      isReserved v.name = false := by
  cases v <;> decide

theorem splitAssignment_of_isValue (v : Variable) {value : Text} (h : IsValue value) :
    splitAssignment (spell v.name ++ '=' :: value) = some (spell v.name, value) := by
  obtain ⟨⟨hq, -, he⟩, htrim, -⟩ := spell_spec v
  have hcut : cutUnquoted '=' false ('=' :: value) = some ([], value) := rfl
  rw [splitAssignment, cutUnquoted_append hq he, hcut]
  simp [htrim, h.trimmed]

theorem stripComment_of_isValue (v : Variable) {value : Text} (h : IsValue value) :
    stripComment (spell v.name ++ '=' :: value) = spell v.name ++ '=' :: value := by
  obtain ⟨⟨hq, hc, -⟩, -⟩ := spell_spec v
  apply stripComment_of_none
  apply cutUnquoted_of_not_mem
  · simpa [hq] using h.noQuote
  · simpa [hc] using h.noComment

theorem executeAssignment_of_assign {left right : Text} {v : Variable} {s s₁ : Session}
    (hname : macroName left = some v.name) (h : assign v.name right s = .ok () s₁) :
    ∃ journal, executeAssignment left right s =
      .ok () { s₁ with world := { s₁.world with journal } } := by
  obtain ⟨-, -, -, hreserved⟩ := spell_spec v
  have hvalue : valueOf s₁.store Derived.lookup v.name s₁.world =
      .ok (quote (s₁.store.get v)) s₁.world := by
    rw [valueOf, hreserved, v.ofName?_name]
    rfl
  have hshown : onWorld (valueOf s₁.store Derived.lookup v.name) s₁ =
      .ok (quote (s₁.store.get v)) s₁ := by
    rw [onWorld, hvalue]
  rw [executeAssignment, hname]
  exact ⟨_, (bind_of_ok h).trans ((get_bind _ _).trans (bind_of_ok hshown))⟩

theorem executeAssignment_ok {v : Variable} {value : Text} (h : MacroFree value) {s : Session}
    {store : Variables} (hs : s.store.set v value = .ok store) :
    ∃ journal, executeAssignment (spell v.name) value s =
      .ok () { s with store, world := { s.world with journal } } := by
  obtain ⟨-, -, hname, -⟩ := spell_spec v
  have hassign : assign v.name value s = .ok () { s with store } := by
    rw [assign, bind_of_ok (h.resolveMacros s), get_bind, Variables.assign, v.ofName?_name]
    dsimp only
    rw [hs]
    rfl
  exact executeAssignment_of_assign hname hassign

theorem runLine_assignment (settings : Settings) (nested : Nested)
    (script : Text) {v : Variable} {value : Text} (h : IsValue value) {s : Session}
    {store : Variables} (hs : s.store.set v value = .ok store) :
    ∃ line journal, runLine settings nested script (spell v.name ++ '=' :: value) s =
      .ok .next { s with script := some script, line, store, world := { s.world with journal } } := by
  obtain ⟨journal, hrun⟩ := executeAssignment_ok h.macroFree
    (s := s.begin ⟨script, spell v.name ++ '=' :: value⟩) hs
  have heq : runLine settings nested script (spell v.name ++ '=' :: value) s = _ :=
    runLine_eq nested ⟨script, _⟩ s
  dsimp only at heq
  rw [stripComment_of_isValue v h, executeLine, splitAssignment_of_isValue v h] at heq
  exact ⟨_, journal, heq.trans (bind_of_ok hrun)⟩

structure IsToken (t : Text) : Prop where
  ne_nil : t ≠ []
  whole : tokenize t = [t]
  noComment : cutUnquoted '#' false t = none
  noEquals : cutUnquoted '=' false t = none
  macroFree : MacroFree t

theorem runLine_command (settings : Settings) (nested : Nested) (script : Text) {line name : Text}
    {arguments : List Text} {command : Command} {act : Settings → List Text → Action Session Flow}
    (s : Session) (hn : cutUnquoted '#' false line = none) (he : cutUnquoted '=' false line = none)
    (hm : MacroFree line) (ht : tokenize line = name :: arguments)
    (hh : headOf name = .builtin command) (hc : handlerOf command = .plain act) :
    runLine settings nested script line s =
      act settings arguments ((s.begin ⟨script, line⟩).announced command arguments) := by
  have ha : splitAssignment line = none := by rw [splitAssignment, he]; rfl
  have heq : runLine settings nested script line s = _ := runLine_eq nested ⟨script, line⟩ s
  dsimp only at heq
  rw [stripComment_of_none hn, executeLine_of_command ha (hm.resolveMacros _), ht,
    execute_of_plain hh hc] at heq
  exact heq

theorem Script.Command.name_spec (command : Command) :
    (' ' ∉ command.name ∧ '"' ∉ command.name ∧ '\\' ∉ command.name ∧ '#' ∉ command.name ∧
      '=' ∉ command.name ∧ '$' ∉ command.name) ∧ tokenize command.name = [command.name] ∧
      headOf command.name = .builtin command := by
  cases command <;> decide

section

variable (settings : Settings) (nested : Nested) (script : Text) (command : Command)
  {act : Settings → List Text → Action Session Flow} (s : Session)
  (hc : handlerOf command = .plain act)

include hc

theorem runLine_command_alone :
    runLine settings nested script command.name s =
      act settings []
        ((s.begin ⟨script, command.name⟩).announced command []) := by
  obtain ⟨⟨-, hq, -, hn, he, hd⟩, ht, hh⟩ := command.name_spec
  have hm : MacroFree (command.name ++ []) := MacroFree.append_left (by decide) hd
  rw [List.append_nil] at hm
  exact runLine_command settings nested script s (cutUnquoted_of_not_mem hq hn)
    (cutUnquoted_of_not_mem hq he) hm ht hh hc

theorem runLine_command_token {argument : Text} (h : IsToken argument) :
    runLine settings nested script (command.name ++ ' ' :: argument) s =
      act settings [argument]
        ((s.begin ⟨script, command.name ++ ' ' :: argument⟩).announced command [argument]) := by
  obtain ⟨⟨hs, hq, hb, hn, he, hd⟩, -, hh⟩ := command.name_spec
  have hcut {mark : Char} (hm : mark ∉ command.name) (hspace : mark ≠ ' ')
      (ha : cutUnquoted mark false argument = none) :
      cutUnquoted mark false (command.name ++ ' ' :: argument) = none := by
    have hspaced : cutUnquoted mark false (' ' :: argument) = none := by
      simp [cutUnquoted, Ne.symm hspace, ha]
    rw [cutUnquoted_append hq hm, hspaced]
    rfl
  refine runLine_command settings nested script s (hcut hn (by decide) h.noComment)
    (hcut he (by decide) h.noEquals) ?_ ?_ hh hc
  · have hspaced : MacroFree ([' '] ++ argument) := h.macroFree.append_left (by decide)
    exact hspaced.append_left hd
  · rw [tokenize_append hs hq hb, h.whole]

end

end Rollout
