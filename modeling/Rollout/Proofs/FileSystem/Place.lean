import Mathlib.Data.List.Induction
import Rollout.Proofs.Path

namespace Rollout

open Text

/-- Whether there can be anything of this name. -/
def isHoldable (name : Text) : Bool :=
  (Utf8.encode name).length ≤ Tree.nameLimit && !name.contains '\x00'

namespace Location

def isStay (name : Text) : Bool := name.isEmpty || name = Path.dot

def enter (l : Location) (name : Text) : Location :=
  if isStay name then l
  else if name = Path.dotDot then l.dropLast
  else l ++ [name]

def follow (l : Location) (names : List Text) : Location := names.foldl enter l

/-- The locations that names lead down to, before the first that there cannot be. -/
def stops : Location → List Text → List Location
  | _, [] => []
  | l, name :: rest =>
    if isStay name then stops l rest
    else if name = Path.dotDot then stops l.dropLast rest
    else if isHoldable name then (l ++ [name]) :: stops (l ++ [name]) rest
    else []

@[simp]
theorem follow_nil (l : Location) : follow l [] = l := rfl

@[simp]
theorem follow_cons (l : Location) (name : Text) (rest : List Text) :
    follow l (name :: rest) = follow (enter l name) rest := rfl

theorem follow_append (l : Location) (a b : List Text) :
    follow l (a ++ b) = follow (follow l a) b := List.foldl_append

theorem follow_of_proper {names : List Text} (h : ∀ n ∈ names, isStay n = false ∧ n ≠ Path.dotDot)
    (l : Location) : follow l names = l ++ names := by
  induction names generalizing l with
  | nil => simp
  | cons name rest ih =>
    have hn := h name (by simp)
    rw [follow_cons, enter, hn.1, if_neg (by simp), if_neg hn.2, ih fun n hr => h n (by simp [hr])]
    simp

theorem prefix_enter {name : Text} (h : name ≠ Path.dotDot) (l : Location) : l <+: enter l name := by
  rw [enter, if_neg h]
  split
  · exact List.prefix_refl l
  · exact List.prefix_append l [name]

theorem prefix_follow {names : List Text} (h : Path.dotDot ∉ names) (l : Location) :
    l <+: follow l names := by
  induction names generalizing l with
  | nil => exact List.prefix_refl l
  | cons name rest ih =>
    rw [List.mem_cons, not_or] at h
    exact (prefix_enter (Ne.symm h.1) l).trans (ih h.2 _)

theorem isStay_of_isEmpty {name : Text} (h : name.isEmpty = true) : isStay name = true := by
  simp [isStay, h]

theorem follow_filter (l : Location) (names : List Text) :
    follow l (names.filter fun name => !name.isEmpty) = follow l names := by
  induction names generalizing l with
  | nil => rfl
  | cons name rest ih =>
    by_cases hn : name.isEmpty = true
    · rw [List.filter_cons_of_neg (by simp [hn]), ih, follow_cons, enter,
        if_pos (isStay_of_isEmpty hn)]
    · rw [List.filter_cons_of_pos (by simp [hn]), follow_cons, follow_cons, ih]

theorem stops_filter (l : Location) (names : List Text) :
    stops l (names.filter fun name => !name.isEmpty) = stops l names := by
  induction names generalizing l with
  | nil => rfl
  | cons name rest ih =>
    by_cases hn : name.isEmpty = true
    · rw [List.filter_cons_of_neg (by simp [hn]), ih, stops, if_pos (isStay_of_isEmpty hn)]
    · rw [List.filter_cons_of_pos (by simp [hn]), stops, stops, ih, ih, ih]

theorem stops_append {a : List Text} (h : ∀ n ∈ a, isHoldable n) (l : Location) (b : List Text) :
    stops l (a ++ b) = stops l a ++ stops (follow l a) b := by
  induction a generalizing l with
  | nil => rfl
  | cons name rest ih =>
    have hr : ∀ n ∈ rest, isHoldable n := fun n hn => h n (by simp [hn])
    rw [List.cons_append, stops, stops, ih hr, ih hr, ih hr, follow_cons, enter, h name (by simp),
      if_pos rfl, if_pos rfl]
    split_ifs <;> rfl

theorem stops_subset_append (l : Location) (a b : List Text) : stops l a ⊆ stops l (a ++ b) := by
  induction a generalizing l with
  | nil => simp [stops]
  | cons name rest ih =>
    rw [List.cons_append, stops, stops]
    split_ifs
    · exact ih l
    · exact ih _
    · exact List.cons_subset_cons _ (ih _)
    · exact List.nil_subset _

theorem isHoldable_of_isStay {name : Text} (h : isStay name = true) : isHoldable name = true := by
  obtain he | he := Bool.or_eq_true_iff.mp h
  · obtain rfl : name = [] := by simpa using he
    decide
  · obtain rfl : name = Path.dot := by simpa using he
    decide

theorem isHoldable_dotDot : isHoldable Path.dotDot = true := by decide

/-- After a name that there cannot be, nothing is entered. -/
theorem stops_concat_subset {a : List Text} {name : Text}
    (h : ¬ ∀ n ∈ a ++ [name], isHoldable n) (l : Location) : stops l (a ++ [name]) ⊆ stops l a := by
  induction a generalizing l with
  | nil =>
    have hn : isHoldable name = false := by simpa using h
    simp [stops, hn]
  | cons first rest ih =>
    rw [List.cons_append, stops, stops]
    have hr : isHoldable first = true → ¬ ∀ n ∈ rest ++ [name], isHoldable n := by
      intro hf hr
      apply h
      intro n hn
      obtain rfl | hn := List.mem_cons.mp hn
      · exact hf
      · exact hr n hn
    split_ifs with h1 h2 h3
    · exact ih (hr (isHoldable_of_isStay h1)) l
    · exact ih (hr (h2 ▸ isHoldable_dotDot)) _
    · exact List.cons_subset_cons _ (ih (hr h3) _)
    · exact List.nil_subset _

theorem mem_stops_append {l x : Location} {a b : List Text} (h : x ∈ stops l (a ++ b)) :
    x ∈ stops l a ∨ x ∈ stops (follow l a) b := by
  induction a generalizing l with
  | nil => exact .inr h
  | cons name rest ih =>
    rw [List.cons_append, stops] at h
    rw [stops, follow_cons, enter]
    split_ifs at h ⊢
    · exact ih h
    · exact ih h
    · obtain rfl | h := List.mem_cons.mp h
      · exact .inl (by simp)
      · exact (ih h).imp_left fun h => by simp [h]
    · simp at h

end Location

def origin (current path : Text) : Location :=
  if Path.isAbsolute path then [] else Location.follow [] (Path.names current)

/-- The place of a path, whether or not there is anything. -/
def spot (current path : Text) : Location := Location.follow [] (Tree.namesOf current path)

theorem filter_namesOf (current path : Text) :
    ((Tree.namesOf current path).filter fun name => !name.isEmpty) =
      (if Path.isAbsolute path then [] else Path.names current) ++ Path.names path := by
  rw [Tree.namesOf]
  split
  · rfl
  · exact List.filter_append _ _

theorem spot_eq (current path : Text) :
    spot current path = (origin current path).follow (Path.names path) := by
  rw [spot, ← Location.follow_filter, filter_namesOf, Location.follow_append, origin]
  split <;> rfl

namespace Tree

open Location

theorem walk_cons (t : Tree) (l : Location) (name : Text) (rest : List Text) :
    t.walk l (name :: rest) =
      match t.get? l with
      | none => .error .noSuchFile
      | some (.file _) => .error .notDirectory
      | some .directory =>
        if !isStay name && name ≠ Path.dotDot && nameLimit < (Utf8.encode name).length then
          .error .nameTooLong
        else t.walk (l.enter name) rest := by
  rw [walk]
  cases t.get? l with
  | none => rfl
  | some n =>
    cases n with
    | file c => rfl
    | directory =>
      by_cases hs : name.isEmpty || name = Path.dot
      · simp only [enter, isStay, hs, if_true, Bool.not_true, Bool.false_and, if_false,
          Bool.false_eq_true]
      · by_cases hd : name = Path.dotDot
        · subst hd
          rfl
        · simp [enter, isStay, hs, hd]

theorem walk_append (t : Tree) (l : Location) (a b : List Text) :
    t.walk l (a ++ b) =
      match t.walk l a with
      | .error r => .error r
      | .ok m => t.walk m b := by
  induction a generalizing l with
  | nil => rfl
  | cons name rest ih =>
    rw [List.cons_append, walk_cons, walk_cons]
    cases t.get? l with
    | none => rfl
    | some n =>
      cases n with
      | file c => rfl
      | directory =>
        dsimp only
        split
        · rfl
        · exact ih _

theorem walk_cons_eq_ok {t : Tree} {l m : Location} {name : Text} {rest : List Text} :
    t.walk l (name :: rest) = .ok m ↔
      t.get? l = some .directory ∧
      (isStay name = false → name ≠ Path.dotDot → (Utf8.encode name).length ≤ nameLimit) ∧
      t.walk (l.enter name) rest = .ok m := by
  rw [walk_cons]
  cases t.get? l with
  | none => simp
  | some n =>
    cases n with
    | file c => simp
    | directory =>
      dsimp only
      split
      · next h =>
        simp only [Bool.and_eq_true, Bool.not_eq_true', decide_eq_true_eq] at h
        refine iff_of_false (by simp) fun hc => ?_
        exact absurd (hc.2.1 h.1.1 h.1.2) (Nat.not_le.mpr h.2)
      · next h => simp_all

theorem walk_append_eq_ok {t : Tree} {l m : Location} {a b : List Text} :
    t.walk l (a ++ b) = .ok m ↔ ∃ k, t.walk l a = .ok k ∧ t.walk k b = .ok m := by
  rw [walk_append]
  cases t.walk l a <;> simp

theorem eq_follow_of_walk {t : Tree} {l m : Location} {names : List Text}
    (h : t.walk l names = .ok m) : m = l.follow names := by
  induction names generalizing l with
  | nil => simpa [walk] using h.symm
  | cons name rest ih => exact ih (walk_cons_eq_ok.mp h).2.2

theorem eq_spot_of_locate {t : Tree} {current path : Text} {l : Location}
    (h : t.locate current path = .ok l) : l = spot current path := by
  rw [locate] at h
  split at h
  · cases h
  · exact eq_follow_of_walk h

theorem find_eq_ok {t : Tree} {current path : Text} {n : Node} :
    t.find current path = .ok n ↔
      path ≠ [] ∧ t.walk [] (namesOf current path) = .ok (spot current path) ∧
        t.get? (spot current path) = some n := by
  rw [find]
  cases hl : t.locate current path with
  | error r =>
    refine iff_of_false (by simp) fun h => ?_
    simp [locate, h.1, h.2.1] at hl
  | ok l =>
    obtain rfl := eq_spot_of_locate hl
    rw [locate] at hl
    split at hl
    · cases hl
    · next hp =>
      dsimp only
      cases t.get? (spot current path) <;> simp_all

theorem walk_congr {t t' : Tree} {l m : Location} {names : List Text} (hn : Path.dotDot ∉ names)
    (h : t.walk l names = .ok m) (ht : ∀ k, k <+: m → t'.get? k = t.get? k) :
    t'.walk l names = .ok m := by
  induction names generalizing l with
  | nil => exact h
  | cons name rest ih =>
    obtain ⟨hd, hs, hr⟩ := walk_cons_eq_ok.mp h
    have hl : l <+: m := eq_follow_of_walk h ▸ prefix_follow hn l
    exact walk_cons_eq_ok.mpr ⟨(ht l hl).trans hd, hs, ih (fun hm => hn (by simp [hm])) hr⟩

theorem walk_filter {names : List Text} (h : ∀ n, names.getLast? = some n → n.isEmpty = false)
    (t : Tree) (l : Location) :
    t.walk l (names.filter fun name => !name.isEmpty) = t.walk l names := by
  induction names generalizing l with
  | nil => rfl
  | cons name rest ih =>
    have hr : ∀ n, rest.getLast? = some n → n.isEmpty = false := by
      intro n hn
      cases rest with
      | nil => simp at hn
      | cons r rs => exact h n (by rwa [List.getLast?_cons_cons])
    by_cases hn : name.isEmpty = true
    · rw [List.filter_cons_of_neg (by simp [hn]), ih hr, walk_cons, enter,
        if_pos (isStay_of_isEmpty hn), isStay_of_isEmpty hn]
      cases rest with
      | nil => simp [h name rfl] at hn
      | cons r rs =>
        -- the next name asks for a directory here as well
        rw [walk_cons]
        cases t.get? l with
        | none => rfl
        | some n => cases n <;> rfl
    · rw [List.filter_cons_of_pos (by simp [hn]), walk_cons, walk_cons, ih hr]

theorem walk_filter_of_ok {t : Tree} {l m : Location} {names : List Text}
    (h : t.walk l names = .ok m) : t.walk l (names.filter fun name => !name.isEmpty) = .ok m := by
  induction names generalizing l with
  | nil => exact h
  | cons name rest ih =>
    obtain ⟨hd, hlen, hrest⟩ := walk_cons_eq_ok.mp h
    by_cases hname : name.isEmpty = true
    · rw [enter, if_pos (isStay_of_isEmpty hname)] at hrest
      rw [List.filter_cons_of_neg (by simp [hname])]
      exact ih hrest
    · rw [List.filter_cons_of_pos (by simp [hname])]
      exact walk_cons_eq_ok.mpr ⟨hd, hlen, ih hrest⟩

theorem ne_nil_of_dropEmptyEnd {names : List Text} {name : Text}
    (h : (dropEmptyEnd names).getLast? = some name) : name.isEmpty = false := by
  have hf := List.head?_dropWhile_not List.isEmpty names.reverse
  rw [dropEmptyEnd, List.getLast?_reverse] at h
  rw [h] at hf
  exact hf

theorem filter_dropEmptyEnd (names : List Text) :
    (dropEmptyEnd names).filter (fun name => !name.isEmpty) =
      names.filter fun name => !name.isEmpty := by
  have hd : names = dropEmptyEnd names ++ (names.reverse.takeWhile List.isEmpty).reverse := by
    rw [dropEmptyEnd, ← List.reverse_append, List.takeWhile_append_dropWhile, List.reverse_reverse]
  conv_rhs => rw [hd]
  rw [List.filter_append, List.self_eq_append_right, List.filter_eq_nil_iff]
  intro n hn
  simpa using List.all_eq_true.mp List.all_takeWhile _ (List.mem_reverse.mp hn)

theorem walk_dropEmptyEnd (t : Tree) (l : Location) (names : List Text) :
    t.walk l (dropEmptyEnd names) = t.walk l (names.filter fun name => !name.isEmpty) := by
  rw [← filter_dropEmptyEnd, walk_filter fun n hn => ne_nil_of_dropEmptyEnd hn]

theorem follow_dropEmptyEnd (l : Location) (names : List Text) :
    l.follow (dropEmptyEnd names) = l.follow names := by
  rw [← follow_filter, filter_dropEmptyEnd, follow_filter]

def Grounded (t : Tree) : Prop :=
  ∀ l name, (t.get? (l ++ [name])).isSome → t.get? l = some .directory

theorem Grounded.dropLast {t : Tree} (ht : t.Grounded) {l : Location}
    (h : t.get? l = some .directory) : t.get? l.dropLast = some .directory := by
  cases l using List.reverseRecOn with
  | nil => rfl
  | append_singleton k x =>
    rw [List.dropLast_concat]
    exact ht k x (by simp [h])

/-- A walk ends at a directory, or one name below a directory. -/
theorem Grounded.walk_cases {t : Tree} (ht : t.Grounded) {names : List Text} {l : Location}
    (h : t.walk [] names = .ok l) :
    t.get? l = some .directory ∨
      ∃ above name, l = above ++ [name] ∧ t.get? above = some .directory ∧
        isStay name = false ∧ name ≠ Path.dotDot ∧ (∃ before, names = before ++ [name]) := by
  induction names using List.reverseRecOn generalizing l with
  | nil =>
    obtain rfl : [] = l := by simpa [walk] using h
    exact .inl rfl
  | append_singleton before name ih =>
    obtain ⟨m, -, hm⟩ := walk_append_eq_ok.mp h
    obtain ⟨hd, -, hl⟩ := walk_cons_eq_ok.mp hm
    obtain rfl : m.enter name = l := by simpa [walk] using hl
    by_cases hs : isStay name = true
    · rw [enter, if_pos hs]
      exact .inl hd
    · by_cases hn : name = Path.dotDot
      · rw [enter, if_neg hs, if_pos hn]
        exact .inl (ht.dropLast hd)
      · rw [enter, if_neg hs, if_neg hn]
        exact .inr ⟨m, name, rfl, hd, by simpa using hs, hn, before, rfl⟩

theorem mem_stops_of_walk {t : Tree} {l m : Location} {before : List Text} {name : Text}
    (h : t.walk l (before ++ [name]) = .ok m) (hs : isStay name = false) (hd : name ≠ Path.dotDot)
    (hz : ∀ n ∈ before ++ [name], '\x00' ∉ n) : m ∈ stops l (before ++ [name]) := by
  induction before generalizing l with
  | nil =>
    obtain ⟨-, hlen, hm⟩ := walk_cons_eq_ok.mp h
    have hh : isHoldable name = true := by
      simpa [isHoldable, hlen hs hd] using hz name (by simp)
    obtain rfl : l.enter name = m := by simpa [walk] using hm
    simp [stops, enter, hs, hd, hh]
  | cons first rest ih =>
    obtain ⟨-, hlen, hm⟩ := walk_cons_eq_ok.mp h
    have hr := ih hm fun n hn => hz n (by simp_all)
    rw [List.cons_append, stops]
    rw [enter] at hr
    split_ifs with h1 h2 h3
    · rwa [if_pos h1] at hr
    · rwa [if_neg h1, if_pos h2] at hr
    · rw [if_neg h1, if_neg h2] at hr
      exact List.mem_cons_of_mem _ hr
    · refine absurd ?_ h3
      simpa [isHoldable, hlen (by simpa using h1) h2] using hz first (by simp)

/-- The stops of a walk are directories, except where it ends. -/
theorem stops_of_walk {t : Tree} {l m : Location} {names : List Text}
    (h : t.walk l names = .ok m) : ∀ s ∈ stops l names, t.get? s = some .directory ∨ s = m := by
  induction names generalizing l with
  | nil => simp [stops]
  | cons name rest ih =>
    have hr := (walk_cons_eq_ok.mp h).2.2
    have hs := ih hr
    have hl : t.get? (l.enter name) = some .directory ∨ l.enter name = m := by
      cases rest with
      | nil => exact .inr (by simpa [walk] using hr)
      | cons next more => exact .inl (walk_cons_eq_ok.mp hr).1
    rw [stops]
    rw [enter] at hs hl
    split_ifs with h1 h2 h3
    · rwa [if_pos h1] at hs
    · rwa [if_neg h1, if_pos h2] at hs
    · rw [if_neg h1, if_neg h2] at hs hl
      rintro s (_ | ⟨_, hm⟩)
      · exact hl
      · exact hs s hm
    · simp

/-- Names whose stops are directories can be walked. -/
theorem Grounded.walk_of_stops {t : Tree} (ht : t.Grounded) {l : Location} {names : List Text}
    (hl : t.get? l = some .directory) (hh : ∀ n ∈ names, isHoldable n)
    (hs : ∀ s ∈ stops l names, t.get? s = some .directory) :
    t.walk l names = .ok (l.follow names) ∧ t.get? (l.follow names) = some .directory := by
  induction names generalizing l with
  | nil => exact ⟨rfl, hl⟩
  | cons name rest ih =>
    have hn : isHoldable name = true := hh name (by simp)
    have hlen : (Utf8.encode name).length ≤ nameLimit := by
      simp only [isHoldable, Bool.and_eq_true, decide_eq_true_eq] at hn
      exact hn.1
    rw [stops] at hs
    have hstep : t.get? (l.enter name) = some .directory ∧
        ∀ s ∈ stops (l.enter name) rest, t.get? s = some .directory := by
      rw [enter]
      split_ifs at hs ⊢
      · exact ⟨hl, hs⟩
      · exact ⟨ht.dropLast hl, hs⟩
      · exact ⟨hs _ (by simp), fun s hm => hs s (by simp [hm])⟩
    obtain ⟨hw, hd⟩ := ih hstep.1 (fun n hm => hh n (by simp [hm])) hstep.2
    exact ⟨walk_cons_eq_ok.mpr ⟨hl, fun _ _ => hlen, hw⟩, hd⟩

theorem walk_mono {t t' : Tree} {l m : Location} {names : List Text} (h : t.walk l names = .ok m)
    (ht : ∀ k, t.get? k = some .directory → t'.get? k = some .directory) :
    t'.walk l names = .ok m := by
  induction names generalizing l with
  | nil => exact h
  | cons name rest ih =>
    obtain ⟨hd, hs, hr⟩ := walk_cons_eq_ok.mp h
    exact walk_cons_eq_ok.mpr ⟨ht l hd, hs, ih hr⟩

theorem walk_origin {t : Tree} {current path : Text} {l : Location}
    (h : t.walk [] ((namesOf current path).filter fun name => !name.isEmpty) = .ok l) :
    t.walk (origin current path) (Path.names path) = .ok l := by
  rw [filter_namesOf] at h
  obtain ⟨o, ho, hl⟩ := walk_append_eq_ok.mp h
  rw [origin]
  split
  · next ha =>
    rw [if_pos ha] at ho
    obtain rfl : [] = o := by simpa [walk] using ho
    exact hl
  · next ha =>
    rw [if_neg ha] at ho
    rw [← eq_follow_of_walk ho]
    exact hl

end Tree

end Rollout
