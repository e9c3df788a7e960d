import Mathlib.Data.List.Flatten
import Rollout.Interpreter.Builtin
import Rollout.Proofs.StoredPath
import Rollout.Proofs.Utf8

namespace Rollout

open Text

def listed (listing : Text) : List Location :=
  ((lines listing).map fun entry => (Path.parts (trim entry)).filter fun part => !part.isEmpty)
    |>.filter fun parts => !parts.isEmpty

theorem listedFiles_eq (directory listing : Text) :
    Builtin.listedFiles directory listing = (listed listing).map (Path.joinAll directory) := rfl

theorem mem_listed {listing : Text} {names : Location} :
    names ∈ listed listing ↔ names ≠ [] ∧
      ∃ entry ∈ lines listing,
        ((Path.parts (trim entry)).filter fun part => !part.isEmpty) = names := by
  simp [listed, and_comm]

namespace Utf8

theorem length_encode_cons (c : Char) (t : Text) :
    (encode (c :: t)).length = (encodeChar c).length + (encode t).length := by
  rw [encode_cons, List.length_append]

theorem length_encode_append (t u : Text) :
    (encode (t ++ u)).length = (encode t).length + (encode u).length := by
  rw [encode, List.flatMap_append, List.length_append]
  rfl

theorem length_encodeChar_pos (c : Char) : 0 < (encodeChar c).length := by
  obtain ⟨b, rest, h, -⟩ := first_encodeChar c []
  simp [h]

theorem length_encode_le {t u : Text} (h : t.Sublist u) : (encode t).length ≤ (encode u).length :=
  (h.flatMap encodeChar).length_le

end Utf8

theorem sublist_of_mem_lines {t entry : Text} (h : entry ∈ lines t) : entry.Sublist t := by
  fun_induction lines t generalizing entry with
  | case1 => cases h
  | case2 rest ih =>
    obtain rfl | h := List.mem_cons.mp h
    · exact List.nil_sublist _
    · exact ((ih h).cons _).cons _
  | case3 c rest _ hc ih =>
    obtain rfl | h := List.mem_cons.mp h
    · exact List.nil_sublist _
    · exact (ih h).cons _
  | case4 c rest _ hc ih =>
    cases hl : lines rest with
    | nil =>
      rw [hl] at h
      obtain rfl : entry = [c] := by simpa [consLine] using h
      exact (List.nil_sublist _).cons_cons _
    | cons line more =>
      rw [hl] at h ih
      obtain rfl | h := List.mem_cons.mp h
      · exact (ih (by simp)).cons_cons _
      · exact (ih (by simp [h])).cons _

theorem trim_sublist (t : Text) : (trim t).Sublist t := by
  have hright : (trimRight (trimLeft t)).Sublist (trimLeft t) := by
    rw [trimRight, ← List.reverse_sublist, List.reverse_reverse]
    exact List.dropWhile_sublist _
  exact hright.trans (List.dropWhile_sublist _)

theorem length_encode_unifyNewlines (t : Text) :
    (Utf8.encode (unifyNewlines t)).length ≤ (Utf8.encode t).length := by
  induction t using unifyNewlines.induct with
  | case1 => exact Nat.le_refl _
  | case2 rest ih =>
    rw [unifyNewlines, Utf8.length_encode_cons, Utf8.length_encode_cons, Utf8.length_encode_cons]
    omega
  | case3 c rest hcr ih =>
    rw [unifyNewlines.eq_3 c rest hcr, Utf8.length_encode_cons, Utf8.length_encode_cons]
    by_cases hc : c = '\r'
    · subst hc
      have heq : (Utf8.encodeChar '\n').length = (Utf8.encodeChar '\r').length := by decide
      rw [if_pos rfl, heq]
      omega
    · rw [if_neg hc]
      omega

def slashed (parts : List Text) : Text := parts.flatMap (· ++ ['/'])

theorem slashed_eq {parts : List Text} (h : parts ≠ []) :
    slashed parts = Text.join ['/'] parts ++ ['/'] := by
  induction parts with
  | nil => exact absurd rfl h
  | cons part parts ih =>
    cases parts with
    | nil => simp [slashed, Text.join_singleton]
    | cons next parts =>
      have hrest : slashed (part :: next :: parts) = part ++ '/' :: slashed (next :: parts) := by
        simp [slashed]
      rw [hrest, ih (by simp), Text.join_cons_cons, List.append_assoc]
      rfl

/-- A separator is replaced by a slash, or goes. -/
theorem length_encode_slashed (inRun : Bool) (t : Text) :
    (Utf8.encode (slashed (Path.splitSeparators inRun t))).length ≤ (Utf8.encode t).length + 1 := by
  induction t generalizing inRun with
  | nil => exact Nat.le_refl _
  | cons c t ih =>
    have hc := Utf8.length_encodeChar_pos c
    have hslash : (Utf8.encodeChar '/').length = 1 := by decide
    rw [Path.splitSeparators, Utf8.length_encode_cons]
    split
    · have hrest := ih true
      split
      · omega
      · change (Utf8.encode ('/' :: slashed (Path.splitSeparators true t))).length ≤ _
        rw [Utf8.length_encode_cons]
        omega
    · have hrest := ih false
      split
      · next hnil => exact absurd hnil (Path.splitSeparators_ne_nil _ _)
      · next part more hsplit =>
        rw [hsplit] at hrest
        change (Utf8.encode (c :: slashed (part :: more))).length ≤ _
        rw [Utf8.length_encode_cons]
        omega

theorem length_le_of_mem_listed {listing : Text} {names : Location} (h : names ∈ listed listing) :
    (Utf8.encode (Text.join ['/'] names)).length ≤ (Utf8.encode listing).length := by
  obtain ⟨hne, entry, hentry, rfl⟩ := mem_listed.mp h
  have hslashed := length_encode_slashed false (trim entry)
  have hsub := Utf8.length_encode_le ((trim_sublist entry).trans (sublist_of_mem_lines hentry))
  rw [← Path.parts] at hslashed
  generalize Path.parts (trim entry) = parts at hne hslashed ⊢
  have hfilter : (slashed (parts.filter fun part => !part.isEmpty)).Sublist (slashed parts) :=
    List.filter_sublist.flatMap (· ++ ['/'])
  have hle := Utf8.length_encode_le hfilter
  rw [slashed_eq hne, Utf8.length_encode_append] at hle
  have hslash : (Utf8.encode ['/']).length = 1 := by decide
  omega

namespace Resources

variable {root name t : Text} {w : World}

theorem length_encode_decode {content : Bytes} (h : (directory root).decode content = .ok t) :
    (Utf8.encode t).length ≤ content.length := by
  obtain ⟨u, hu, rfl⟩ : ∃ u, Utf8.decodeMarked content = .ok u ∧ unifyNewlines u = t := by
    change (Utf8.decodeMarked content).map unifyNewlines = _ at h
    cases hu : Utf8.decodeMarked content with
    | error e => simp [hu, Except.map] at h
    | ok u => exact ⟨u, rfl, by simpa [hu, Except.map] using h⟩
  apply Nat.le_trans (length_encode_unifyNewlines u)
  rw [Utf8.decodeMarked] at hu
  split_ifs at hu
  · rw [← Utf8.decode_eq_ok.mp hu, List.length_drop]
    omega
  · cases hu
    exact Nat.zero_le _
  · exact Nat.le_of_eq (congrArg List.length (Utf8.decode_eq_ok.mp hu).symm)

/-- The file of a resource in a directory. -/
structure Holds (root name : Text) (w : World) (content : Bytes) : Prop where
  noNull : '\x00' ∉ Path.join root name
  find : w.tree.find w.current (Path.join root name) = .ok (.file content)

theorem Holds.read {content : Bytes} (h : Holds root name w content) (hd : w.denied = []) :
    (directory root).read name w = .ok content w := by
  have hfile : w.isFile (Path.join root name) = true := by
    rw [World.isFile, World.node?, h.find]
    rfl
  rw [Resources.read, get_bind, if_pos hfile, readFile_eq, if_neg (by simp [World.isDenied, hd]),
    if_neg (by simpa using h.noNull), Tree.read, h.find]

theorem holds_of_readText {w' : World} (h : (directory root).readText name w = .ok t w') :
    ∃ content, Holds root name w content ∧ (directory root).decode content = .ok t := by
  rw [Resources.readText] at h
  obtain ⟨content, w₁, hread, hrest⟩ := bind_eq_ok.mp h
  refine ⟨content, ?_, ?_⟩
  · rw [Resources.read, get_bind] at hread
    split at hread
    · rw [readFile_eq, Tree.read] at hread
      split_ifs at hread with hdenied hnull
      refine ⟨by simpa using hnull, ?_⟩
      cases hf : w.tree.find w.current (Path.join root name) with
      | error r => simp [hf] at hread
      | ok n =>
        cases n with
        | directory => simp [hf] at hread
        | file bytes =>
          rw [hf] at hread
          cases hread
          rfl
    · cases hread
  · cases hdecode : (directory root).decode content with
    | ok u =>
      rw [hdecode] at hrest
      cases hrest
      rfl
    | error e =>
      rw [hdecode] at hrest
      cases hrest

theorem Holds.readText {content : Bytes} (h : Holds root name w content) (hd : w.denied = [])
    (hdecode : (directory root).decode content = .ok t) :
    (directory root).readText name w = .ok t w := by
  apply (bind_of_ok (h.read hd)).trans
  rw [hdecode]
  rfl

theorem Holds.mono {content : Bytes} (h : Holds root name w content) {w' : World}
    (hc : w'.current = w.current)
    (hk : ∀ l, w.tree.get? l = some .directory → w'.tree.get? l = some .directory)
    (hs : w'.tree.get? (spot w.current (Path.join root name)) =
      w.tree.get? (spot w.current (Path.join root name))) : Holds root name w' content := by
  obtain ⟨hne, hwalk, hget⟩ := Tree.find_eq_ok.mp h.find
  refine ⟨h.noNull, ?_⟩
  rw [hc]
  exact Tree.find_eq_ok.mpr ⟨hne, Tree.walk_mono hwalk hk, hs.trans hget⟩

end Resources

end Rollout
