import Rollout.Text

namespace Rollout

inductive Node
  | directory
  | file (content : Bytes)
  deriving DecidableEq, Repr

abbrev Location := List Text

/-- Directories and files by location. The root is a directory and has no entry. -/
structure Tree where
  entries : List (Location × Node)
  deriving DecidableEq, Repr

namespace Tree

def empty : Tree := ⟨[]⟩

def get? (t : Tree) (l : Location) : Option Node :=
  if l = [] then some .directory else t.entries.lookup l

def insert (t : Tree) (l : Location) (n : Node) : Tree :=
  ⟨(l, n) :: t.entries.filter fun e => e.1 != l⟩

def remove (t : Tree) (l : Location) : Tree := ⟨t.entries.filter fun e => !l.isPrefixOf e.1⟩

def clear (t : Tree) (l : Location) : Tree :=
  ⟨t.entries.filter fun e => e.1 = l || !l.isPrefixOf e.1⟩

def isDirectory (t : Tree) (l : Location) : Bool := t.get? l == some .directory

def names (t : Tree) (l : Location) : List Text :=
  t.entries.filterMap fun e => if e.1.dropLast = l then e.1.getLast? else none

def below (t : Tree) (l : Location) : List (Location × Node) :=
  t.entries.filterMap fun (place, n) =>
    if l.isPrefixOf place && l.length < place.length then some (place.drop l.length, n) else none

def filesBelow (t : Tree) (l : Location) : List Location :=
  ((t.below l).filter fun e => e.2 != .directory).map Prod.fst

def directoriesBelow (t : Tree) (l : Location) : List Location :=
  ((t.below l).filter fun e => e.2 == .directory).map Prod.fst

theorem get?_root (t : Tree) : t.get? [] = some .directory := rfl

theorem lookup_filter_ne {l l' : Location} (h : l' ≠ l) (es : List (Location × Node)) :
    (es.filter fun e => e.1 != l).lookup l' = es.lookup l' := by
  induction es with
  | nil => rfl
  | cons e es ih =>
    obtain ⟨k, n⟩ := e
    by_cases hk : k = l
    · subst hk
      have hne : (l' == k) = false := by simpa using h
      simp only [List.filter_cons, bne_self_eq_false, Bool.false_eq_true, if_false, ih,
        List.lookup_cons, hne]
    · have hkl : (k != l) = true := by simpa using hk
      simp only [List.filter_cons, hkl, if_true, List.lookup_cons, ih]

theorem get?_insert_self (t : Tree) {l : Location} (h : l ≠ []) (n : Node) :
    (t.insert l n).get? l = some n := by
  simp [get?, insert, h]

theorem get?_insert_of_ne (t : Tree) {l l' : Location} (h : l' ≠ l) (n : Node) :
    (t.insert l n).get? l' = t.get? l' := by
  have hne : (l' == l) = false := by simpa using h
  unfold get? insert
  split
  · rfl
  · rw [List.lookup_cons, hne, lookup_filter_ne h]

theorem lookup_filter_prefix (l l' : Location) (es : List (Location × Node)) :
    (es.filter fun e => !l.isPrefixOf e.1).lookup l' =
      if l.isPrefixOf l' then none else es.lookup l' := by
  induction es with
  | nil => simp
  | cons e es ih =>
    obtain ⟨k, n⟩ := e
    by_cases hl : l' = k
    · subst hl
      by_cases hp : l.isPrefixOf l' = true
      · simp only [List.filter_cons, hp, Bool.not_true, Bool.false_eq_true, if_false, if_true, ih]
      · simp only [List.filter_cons, hp, Bool.not_false, if_true, List.lookup_cons,
          beq_self_eq_true, Bool.false_eq_true, if_false]
    · have hne : (l' == k) = false := by simpa using hl
      by_cases hp : l.isPrefixOf k = true
      · simp only [List.filter_cons, hp, Bool.not_true, Bool.false_eq_true, if_false, ih,
          List.lookup_cons, hne]
      · simp only [List.filter_cons, hp, Bool.not_false, if_true, List.lookup_cons, hne, ih]

theorem get?_remove (t : Tree) (l l' : Location) (h : l' ≠ []) :
    (t.remove l).get? l' = if l.isPrefixOf l' then none else t.get? l' := by
  simp [get?, remove, h, lookup_filter_prefix]

end Tree

end Rollout
