import Rollout.Proofs.Assignments
import Rollout.Proofs.Macro
import Rollout.Proofs.Numeral

namespace Rollout

open Text Script Interpreter

def Value.written : Value → Text
  | .text t => t
  | .flag b => ofBool b
  | .number n => ofInt n

def Value.bare : Value → Value
  | .text t => .text (unquote t)
  | .flag b => .flag b
  | .number n => .number n

theorem get_eq_written (vs : Variables) (v : Variable) : vs.get v = (vs.value v).written := by
  cases v <;> rfl

theorem unquote_unquote (t : Text) : unquote (unquote t) = unquote t := by
  simp [unquote, List.filter_filter]

theorem unquote_quote (t : Text) : unquote (quote t) = unquote t := by
  unfold quote
  split_ifs with h
  · have hcons : unquote ('"' :: (unquote t ++ ['"'])) = unquote (unquote t) := by simp [unquote]
    rw [hcons, unquote_unquote]
  · rfl

theorem quote_quote (t : Text) : quote (quote t) = quote t := by
  by_cases h : t.contains ' '
  · have hquote : quote t = '"' :: (unquote t ++ ['"']) := if_pos h
    have hspace : (quote t).contains ' ' = true := by
      rw [hquote]
      simpa [unquote] using h
    have hagain : quote (quote t) = '"' :: (unquote (quote t) ++ ['"']) := if_pos hspace
    rw [hagain, unquote_quote, hquote]
  · have hquote : quote t = t := if_neg h
    rw [hquote, hquote]

theorem toBool_quote_ofBool (b : Bool) : toBool (quote (ofBool b)) = b := by
  cases b <;> decide

theorem range_of_mem_ofInt {n : Int} {c : Char} (h : c ∈ ofInt n) :
    0x2D ≤ c.toNat ∧ c.toNat ≤ 0x39 := by
  have hdigit {m : Nat} (hm : c ∈ ofNat m) : 0x2D ≤ c.toNat ∧ c.toNat ≤ 0x39 := by
    have h := toNat_of_isDigit (isDigit_of_mem_ofNat hm)
    omega
  cases n with
  | ofNat m => exact hdigit h
  | negSucc m =>
    obtain rfl | hm := List.mem_cons.mp h
    · decide
    · exact hdigit hm

theorem toInt_quote_ofInt {n : Int} (h : (ofNat n.natAbs).length ≤ digitLimit) :
    toInt (quote (ofInt n)) = .ok n := by
  have hmem {c : Char} (hc : c.toNat < 0x2D) : c ∉ ofInt n := fun hin => by
    have hrange := range_of_mem_ofInt hin
    omega
  have hquote : quote (ofInt n) = ofInt n := if_neg (by simpa using hmem (c := ' ') (by decide))
  have htrim : trim (ofInt n) = ofInt n := trim_of_no_blank fun c hc => by
    have hrange := range_of_mem_ofInt hc
    exact isBlank_of_range (by omega) (by omega)
  rw [toInt, hquote, unquote_of_not_mem (hmem (by decide)), htrim, parseInt_ofInt h]

/-- The stores that assignments lead to. -/
inductive Script.Variables.Reachable : Variables → Prop
  | initial : Reachable {}
  | assign {vs vs' : Variables} {name t : Text} (reachable : Reachable vs)
      (assigned : vs.assign name t = .ok vs') : Reachable vs'

/-- The timeout can be written with as many digits as an integer may have. -/
def Script.Variables.Writable (vs : Variables) : Prop :=
  (ofNat vs.processTimeout.natAbs).length ≤ digitLimit

theorem writable_of_assign {vs vs' : Variables} {name t : Text} (hvs : vs.Writable)
    (h : vs.assign name t = .ok vs') : vs'.Writable := by
  unfold Variables.assign at h
  split at h
  · next v hv =>
    cases v with
    | processTimeout =>
      unfold Variables.set at h
      dsimp only at h
      split at h
      · next n hn =>
        cases h
        unfold toInt at hn
        split at hn
        · next n' hparse =>
          cases hn
          exact length_of_parseInt hparse
        · cases hn
      · cases h
    | _ =>
      cases h
      exact hvs
  · cases h

theorem Script.Variables.Reachable.writable {vs : Variables} (h : vs.Reachable) : vs.Writable := by
  induction h with
  | initial =>
    have hlength : (ofNat 300).length = 3 := by decide
    change (ofNat 300).length ≤ digitLimit
    rw [hlength]
    decide
  | assign _ assigned ih => exact writable_of_assign ih assigned

/-- What stands for a variable's macro is read as the variable's value, but for quotes, and stands
for the value that has been read. -/
theorem read?_quote_get {vs : Variables} (h : vs.Writable) (v : Variable) :
    ∃ value, v.read? (quote (vs.get v)) = some value ∧ value.bare = (vs.value v).bare ∧
      quote value.written = quote (vs.get v) := by
  cases v with
  | source => exact ⟨_, rfl, congrArg Value.text (unquote_quote _), quote_quote _⟩
  | target => exact ⟨_, rfl, congrArg Value.text (unquote_quote _), quote_quote _⟩
  | ignoreErrors =>
    exact ⟨_, rfl, congrArg Value.flag (toBool_quote_ofBool _),
      congrArg (quote ∘ ofBool) (toBool_quote_ofBool _)⟩
  | redirectOutput =>
    exact ⟨_, rfl, congrArg Value.flag (toBool_quote_ofBool _),
      congrArg (quote ∘ ofBool) (toBool_quote_ofBool _)⟩
  | processTimeout =>
    refine ⟨.number vs.processTimeout, ?_, rfl, rfl⟩
    rw [Variable.read?, Variables.get, toInt_quote_ofInt h]
    rfl

def copyLine (v w : Variable) : Text := spell v.name ++ " = ".toList ++ spell w.name

theorem copyLine_spec (v w : Variable) :
    stripComment (copyLine v w) = copyLine v w ∧
      splitAssignment (copyLine v w) = some (spell v.name, spell w.name) := by
  cases v <;> cases w <;> decide +kernel

theorem resolveMacros_spell (v : Variable) (s : Session) :
    resolveMacros (spell v.name) s = .ok (quote (s.store.get v)) s := by
  obtain ⟨-, -, -, hreserved⟩ := spell_spec v
  have hname : IsMacroName v.name := by
    cases v <;> exact ⟨nofun, List.all_eq_true.mp (by decide)⟩
  have hpieces : occurrences macroAt 0 (spell v.name) = [.found v.name] := by
    have h := pieces_append_spell hname [] []
    rwa [List.nil_append, List.append_nil] at h
  have hvalue : valueOf s.store Derived.lookup v.name s.world =
      .ok (quote (s.store.get v)) s.world := by
    rw [valueOf, hreserved, v.ofName?_name]
    rfl
  have hresolve : resolve s.store Derived.lookup (spell v.name) s.world =
      .ok (quote (s.store.get v)) s.world := by
    rw [resolve, hpieces, substitute]
    refine (bind_of_ok hvalue).trans ?_
    simp [substitute]
    rfl
  rw [resolveMacros, get_bind, onWorld, hresolve]

/-- The line reads what stands for the one variable as a value of the other. -/
theorem runLine_copy (settings : Settings) (nested : Nested)
    (script : Text) {v w : Variable} {value : Value} {s : Session}
    (h : v.read? (quote (s.store.get w)) = some value) :
    ∃ s', runLine settings nested script (copyLine v w) s = .ok .next s' ∧
      s'.store.value = Function.update s.store.value v value := by
  obtain ⟨-, -, hname, -⟩ := spell_spec v
  obtain ⟨hstrip, hsplit⟩ := copyLine_spec v w
  let a : Activation := ⟨script, copyLine v w⟩
  obtain ⟨vs, hset, hvs⟩ := set_of_read? h s.store
  have hassign : assign v.name (spell w.name) (s.begin a) =
      .ok () { s.begin a with store := vs } := by
    rw [assign, bind_of_ok (resolveMacros_spell w (s.begin a)), get_bind, Variables.assign,
      v.ofName?_name]
    have hset' : (s.begin a).store.set v (quote ((s.begin a).store.get w)) = .ok vs := hset
    dsimp only
    rw [hset']
    rfl
  obtain ⟨journal, hdone⟩ := executeAssignment_of_assign hname hassign
  have heq : runLine settings nested script (copyLine v w) s = _ := runLine_eq nested a s
  rw [hstrip, executeLine, hsplit] at heq
  exact ⟨_, heq.trans (bind_of_ok hdone), hvs⟩

theorem get_of_assign {vs vs' : Variables} {v w : Variable} {t : Text}
    (h : vs.assign v.name t = .ok vs') (hw : w ≠ v) : vs'.get w = vs.get w := by
  rw [Variables.assign, v.ofName?_name] at h
  exact Variables.get_of_set h hw

/-- A variable that is saved in a text variable, whatever is assigned to it afterwards, gets its
value back from there. One that is assigned to itself keeps its value, and loses nothing more the
second time. -/
theorem saved_value_restored (settings : Settings) (nested : Nested)
    (script : Text) {s : Session} (hs : s.store.Reachable) (v : Variable) :
    (∀ saved : Variable, saved = .source ∨ saved = .target → saved ≠ v →
      ∃ s₁, runLine settings nested script (copyLine saved v) s = .ok .next s₁ ∧
        ∀ s₂ t, s₁.store.assign v.name t = .ok s₂.store →
          ∃ s₃, runLine settings nested script (copyLine v saved) s₂ = .ok .next s₃ ∧
            (s₃.store.value v).bare = (s.store.value v).bare) ∧
    ∃ s₁ s₂, runLine settings nested script (copyLine v v) s = .ok .next s₁ ∧
      (s₁.store.value v).bare = (s.store.value v).bare ∧
      runLine settings nested script (copyLine v v) s₁ = .ok .next s₂ ∧ s₂.store = s₁.store := by
  obtain ⟨value, hread, hbare, hquote⟩ := read?_quote_get hs.writable v
  constructor
  · intro saved htext hne
    have hsave : saved.read? (quote (s.store.get v)) = some (.text (quote (s.store.get v))) := by
      obtain rfl | rfl := htext <;> rfl
    obtain ⟨s₁, hrun, hvalue⟩ := runLine_copy settings nested script hsave
    refine ⟨s₁, hrun, fun s₂ t hassign => ?_⟩
    have hsaved : s₂.store.get saved = quote (s.store.get v) := by
      rw [get_of_assign hassign hne, get_eq_written, hvalue, Function.update_self]
      rfl
    have hback : v.read? (quote (s₂.store.get saved)) = some value := by
      rw [hsaved, quote_quote, hread]
    obtain ⟨s₃, hrestore, hrestored⟩ := runLine_copy settings nested script hback
    exact ⟨s₃, hrestore, by rw [hrestored, Function.update_self, hbare]⟩
  · obtain ⟨s₁, hrun, hvalue⟩ := runLine_copy settings nested script hread
    have hagain : v.read? (quote (s₁.store.get v)) = some value := by
      rw [get_eq_written, hvalue, Function.update_self, hquote, hread]
    obtain ⟨s₂, hrun', hvalue'⟩ := runLine_copy settings nested script hagain
    refine ⟨s₁, s₂, hrun, by rw [hvalue, Function.update_self, hbare], hrun',
      Variables.value_injective ?_⟩
    rw [hvalue', hvalue, Function.update_idem]

namespace Saving

def settings : Settings where
  resources := .memory []
  version := [1]
  directory := "/".toList

def quoted : Session where
  store := { target := "my \"own\" files".toList }
  world := {}

theorem reachable_quoted : quoted.store.Reachable := by
  have h : ({} : Variables).assign "Target".toList "my \"own\" files".toList =
      .ok quoted.store := by decide +kernel
  exact .assign .initial h

end Saving

open Saving in
theorem saved_value_restored_quoted :
    quoted.store.Reachable ∧
    ∃ s₁ vs s₃, runLine settings [] [] "$(Source) = $(Target)".toList quoted =
        .ok .next s₁ ∧
      s₁.store.assign "Target".toList "other".toList = .ok vs ∧
      runLine settings [] [] "$(Target) = $(Source)".toList
        { s₁ with store := vs } = .ok .next s₃ ∧
      unquote s₃.store.target = "my own files".toList := by
  obtain ⟨s₁, hsave, hrestore⟩ := (saved_value_restored settings [] []
    reachable_quoted .target).1 .source (.inl rfl) nofun
  obtain ⟨s₃, hrun, hbare⟩ := hrestore
    { s₁ with store := { s₁.store with target := "other".toList } } "other".toList rfl
  refine ⟨reachable_quoted, s₁, _, s₃, hsave, rfl, hrun, ?_⟩
  have htext : unquote s₃.store.target = unquote "my \"own\" files".toList :=
    Value.text.inj hbare
  rw [htext]
  decide +kernel

end Rollout
