import Mathlib.Data.List.Infix
import Mathlib.Tactic.Common
import Rollout.FileSystem.Access

namespace Rollout

theorem part_of_intercalate {c : Char} {parts : List Text} {part : Text} (h : part ∈ parts) :
    part <:+: [c].intercalate parts := by
  induction parts with
  | nil => cases h
  | cons first rest ih =>
    cases rest with
    | nil =>
      obtain rfl := List.mem_singleton.mp h
      rw [List.intercalate_singleton]
    | cons second rest =>
      rw [List.intercalate_cons_cons, List.append_assoc]
      obtain rfl | h := List.mem_cons.mp h
      · exact (List.prefix_append _ _).isInfix
      · exact (ih h).trans ((List.suffix_append _ _).trans (List.suffix_append _ _)).isInfix

theorem part_of_mem_splitOn {c : Char} {t part : Text} (h : part ∈ t.splitOn c) : part <:+: t := by
  have hpart : part <:+: [c].intercalate (t.splitOn c) := part_of_intercalate h
  rwa [List.intercalate_splitOn] at hpart

theorem not_mem_of_mem_splitOn {c : Char} {t part : Text} (h : part ∈ t.splitOn c) : c ∉ part := by
  induction t generalizing part with
  | nil => simp_all
  | cons d t ih =>
    rw [List.splitOn_cons_eq_if_modifyHead] at h
    split at h
    · obtain rfl | h := List.mem_cons.mp h
      · simp
      · exact ih h
    · next hd =>
      cases ht : t.splitOn c with
      | nil => simp [ht] at h
      | cons first more =>
        rw [ht, List.modifyHead_cons] at h
        have hmem : ∀ n ∈ first :: more, c ∉ n := fun n hn => ih (by rwa [ht])
        obtain rfl | h := List.mem_cons.mp h
        · have hne : c ≠ d := fun he => hd (by simp [← he])
          simpa [hne] using hmem first (by simp)
        · exact hmem part (by simp [h])

end Rollout

namespace Rollout.Path

open Text

def names (p : Text) : List Text := (components p).filter fun name => !name.isEmpty

theorem components_append (p q : Text) :
    components (p ++ '/' :: q) = components p ++ components q :=
  List.splitOn_append_cons_self p q

theorem components_of_not_mem {p : Text} (h : '/' ∉ p) : components p = [p] :=
  List.splitOn_eq_singleton h

theorem not_mem_of_mem_components {p name : Text} (h : name ∈ components p) : '/' ∉ name :=
  not_mem_of_mem_splitOn h

theorem mem_of_mem_components {p name : Text} {c : Char} (h : name ∈ components p) (hc : c ∈ name) :
    c ∈ p := (part_of_mem_splitOn h).subset hc

@[simp]
theorem names_nil : names [] = [] := rfl

theorem names_append (p q : Text) : names (p ++ '/' :: q) = names p ++ names q := by
  rw [names, components_append, List.filter_append]
  rfl

theorem names_of_not_mem {p : Text} (h : '/' ∉ p) : names p = if p = [] then [] else [p] := by
  rw [names, components_of_not_mem h]
  cases p <;> rfl

theorem mem_names {p name : Text} : name ∈ names p ↔ name ∈ components p ∧ name ≠ [] := by
  simp [names]

theorem endsWith_iff {p ending : Text} : endsWith p ending = true ↔ ∃ r, r ++ ending = p := by
  rw [endsWith, List.isPrefixOf_iff_prefix, List.reverse_prefix]
  rfl

theorem names_cons_slash {p : Text} (h : '/' ∉ p) (hp : p ≠ []) : names ('/' :: p) = [p] := by
  rw [← List.nil_append ('/' :: p), names_append, names_of_not_mem h, if_neg hp]
  rfl

/-- A path is made of slashes and names. -/
theorem eq_slash_or_mem_names {p : Text} {c : Char} (h : c ∈ p) :
    c = '/' ∨ ∃ name ∈ names p, c ∈ name := by
  suffices hc : c = '/' ∨ ∃ name ∈ components p, c ∈ name by
    exact hc.imp_right fun ⟨name, hn, hc⟩ => ⟨name, mem_names.mpr ⟨hn, List.ne_nil_of_mem hc⟩, hc⟩
  induction p with
  | nil => simp at h
  | cons d p ih =>
    rw [components, List.splitOn_cons_eq_if_modifyHead]
    split
    · next hd =>
      obtain rfl | h := List.mem_cons.mp h
      · exact .inl (by simpa using hd)
      · exact (ih h).imp_right fun ⟨name, hn, hc⟩ => ⟨name, List.mem_cons_of_mem _ hn, hc⟩
    · cases hp : p.splitOn '/' with
      | nil => simp at hp
      | cons first more =>
        rw [List.modifyHead_cons]
        obtain rfl | h := List.mem_cons.mp h
        · exact .inr ⟨c :: first, by simp, by simp⟩
        · refine (ih h).imp_right fun ⟨name, hn, hc⟩ => ?_
          rw [components, hp] at hn
          obtain rfl | hn := List.mem_cons.mp hn
          · exact ⟨d :: name, by simp, by simp [hc]⟩
          · exact ⟨name, by simp [hn], hc⟩

theorem names_append_of_endsWith {p : Text} (h : endsWith p ['/']) (q : Text) :
    names (p ++ q) = names p ++ names q := by
  obtain ⟨r, rfl⟩ := endsWith_iff.mp h
  rw [List.append_assoc, List.singleton_append, names_append, names_append, names_nil,
    List.append_nil]

theorem names_join {q : Text} (h : isAbsolute q = false) (p : Text) :
    names (join p q) = names p ++ names q := by
  rw [join, if_neg (by simp [h])]
  split
  · next hp =>
    obtain he | he := Bool.or_eq_true_iff.mp hp
    · rw [List.isEmpty_iff] at he
      simp [he]
    · exact names_append_of_endsWith he q
  · exact names_append p q

theorem isAbsolute_of_not_mem {p : Text} (h : '/' ∉ p) : isAbsolute p = false := by
  cases p with
  | nil => rfl
  | cons c p =>
    have hc : c ≠ '/' := fun he => h (by simp [he])
    simpa [isAbsolute] using hc

theorem isAbsolute_append {p : Text} (h : p ≠ []) (q : Text) :
    isAbsolute (p ++ q) = isAbsolute p := by
  cases p with
  | nil => exact absurd rfl h
  | cons c p => rfl

theorem isAbsolute_join {q : Text} (h : isAbsolute q = false) (p : Text) :
    isAbsolute (join p q) = isAbsolute p := by
  rw [join, if_neg (by simp [h])]
  cases p with
  | nil => exact h
  | cons c p => split <;> rfl

theorem names_ne_nil {p : Text} (h : p ≠ []) (ha : isAbsolute p = false) : names p ≠ [] := by
  cases p with
  | nil => exact absurd rfl h
  | cons c p =>
    have hc : (c == '/') = false := by simpa [isAbsolute] using ha
    rw [names, components, List.splitOn_cons_eq_if_modifyHead, hc]
    cases hp : p.splitOn '/' with
    | nil => simp at hp
    | cons first more => simp

theorem joinAll_cons (p q : Text) (qs : List Text) :
    joinAll p (q :: qs) = joinAll (join p q) qs := rfl

theorem names_joinAll {qs : List Text} (h : ∀ q ∈ qs, '/' ∉ q) (p : Text) :
    names (joinAll p qs) = names p ++ qs.filter fun q => !q.isEmpty := by
  induction qs generalizing p with
  | nil => simp [joinAll]
  | cons q qs ih =>
    have hq : '/' ∉ q := h q (by simp)
    rw [joinAll_cons, ih (fun r hr => h r (by simp [hr])), names_join (isAbsolute_of_not_mem hq),
      names_of_not_mem hq, List.append_assoc, List.filter_cons]
    cases q <;> rfl

theorem isAbsolute_joinAll {qs : List Text} (h : ∀ q ∈ qs, '/' ∉ q) (p : Text) :
    isAbsolute (joinAll p qs) = isAbsolute p := by
  induction qs generalizing p with
  | nil => rfl
  | cons q qs ih =>
    rw [joinAll_cons, ih (fun r hr => h r (by simp [hr])),
      isAbsolute_join (isAbsolute_of_not_mem (h q (by simp)))]

theorem splitLast_eq (p : Text) :
    splitLast p =
      ((p.reverse.dropWhile (· ≠ '/')).reverse, (p.reverse.takeWhile (· ≠ '/')).reverse) := by
  have h : (p.reverse.dropWhile (· ≠ '/')).reverse ++ (p.reverse.takeWhile (· ≠ '/')).reverse =
      p := by
    rw [← List.reverse_append, List.takeWhile_append_dropWhile, List.reverse_reverse]
  rw [splitLast]
  generalize hn : (p.reverse.takeWhile (· ≠ '/')).reverse = name at h ⊢
  generalize (p.reverse.dropWhile (· ≠ '/')).reverse = head at h ⊢
  simp [← h]

theorem splitLast_append (p : Text) : (splitLast p).1 ++ (splitLast p).2 = p := by
  rw [splitLast_eq, ← List.reverse_append, List.takeWhile_append_dropWhile, List.reverse_reverse]

theorem not_mem_splitLast_snd (p : Text) : '/' ∉ (splitLast p).2 := by
  rw [splitLast_eq, List.mem_reverse]
  intro h
  simpa using List.all_eq_true.mp List.all_takeWhile _ h

theorem splitLast_fst (p : Text) : (splitLast p).1 = [] ∨ endsWith (splitLast p).1 ['/'] := by
  rw [splitLast_eq]
  cases h : p.reverse.dropWhile (· ≠ '/') with
  | nil => exact .inl rfl
  | cons c rest =>
    have hc := List.head?_dropWhile_not (· ≠ '/') p.reverse
    rw [h] at hc
    refine .inr (endsWith_iff.mpr ⟨rest.reverse, ?_⟩)
    simp_all

theorem names_splitLast (p : Text) :
    names p = names (splitLast p).1 ++ names (splitLast p).2 := by
  conv_lhs => rw [← splitLast_append p]
  obtain h | h := splitLast_fst p
  · simp [h]
  · exact names_append_of_endsWith h _

theorem components_eq_append (p : Text) : ∃ cs, components p = cs ++ [fileName p] := by
  have hn : components (fileName p) = [fileName p] := components_of_not_mem (not_mem_splitLast_snd p)
  obtain h | h := splitLast_fst p
  · refine ⟨[], ?_⟩
    conv_lhs => rw [← splitLast_append p, h]
    exact hn
  · obtain ⟨r, hr⟩ := endsWith_iff.mp h
    refine ⟨components r, ?_⟩
    conv_lhs => rw [← splitLast_append p, ← hr, List.append_assoc, List.singleton_append]
    rw [components_append]
    exact congrArg _ hn

theorem fileName_ne_nil {p : Text} (h : p ≠ []) (he : endsWith p ['/'] = false) :
    fileName p ≠ [] := by
  intro hn
  have hp : (splitLast p).1 = p := by
    conv_rhs => rw [← splitLast_append p, ← fileName, hn, List.append_nil]
  obtain hs | hs := splitLast_fst p
  · exact h (hp.symm.trans hs)
  · rw [hp, he] at hs
    cases hs

theorem trimSlashes_append (p : Text) :
    ∃ slashes, p = trimSlashes p ++ slashes ∧ ∀ c ∈ slashes, c = '/' := by
  rw [trimSlashes]
  split
  · exact ⟨[], by simp⟩
  · refine ⟨(p.reverse.takeWhile (· = '/')).reverse, ?_, fun c hc => ?_⟩
    · rw [← List.reverse_append, List.takeWhile_append_dropWhile, List.reverse_reverse]
    · simpa using List.all_eq_true.mp List.all_takeWhile _ (List.mem_reverse.mp hc)

theorem names_append_slashes (p : Text) {slashes : Text} (h : ∀ c ∈ slashes, c = '/') :
    names (p ++ slashes) = names p := by
  induction slashes generalizing p with
  | nil => simp
  | cons c slashes ih =>
    obtain rfl : c = '/' := h c (by simp)
    rw [names_append, ← List.nil_append slashes, ih [] (fun c hc => h c (by simp [hc]))]
    simp

@[simp]
theorem names_trimSlashes (p : Text) : names (trimSlashes p) = names p := by
  obtain ⟨slashes, hp, h⟩ := trimSlashes_append p
  conv_rhs => rw [hp]
  exact (names_append_slashes _ h).symm

theorem endsWith_trimSlashes {p : Text} (h : endsWith (trimSlashes p) ['/']) :
    ∀ c ∈ p, c = '/' := by
  rw [trimSlashes] at h
  split at h
  · next hp => simpa using hp
  · obtain ⟨r, hr⟩ := endsWith_iff.mp h
    have hc := List.head?_dropWhile_not (· = '/') p.reverse
    rw [← List.reverse_reverse (List.dropWhile _ _), ← hr] at hc
    simp at hc

/-- A path that ends in a slash only if it has no names. -/
def IsTrim (p : Text) : Prop := endsWith p ['/'] → names p = []

theorem trimSlashes_isTrim (p : Text) : IsTrim (trimSlashes p) := by
  intro h
  rw [names_trimSlashes]
  exact names_append_slashes [] (endsWith_trimSlashes h)

theorem directory_isTrim (p : Text) : IsTrim (directory p) := trimSlashes_isTrim _

theorem names_fileName (p : Text) :
    names (fileName p) = if fileName p = [] then [] else [fileName p] :=
  names_of_not_mem (not_mem_splitLast_snd p)

theorem names_directory (p : Text) : names p = names (directory p) ++ names (fileName p) := by
  rw [directory, names_trimSlashes]
  exact names_splitLast p

theorem isAbsolute_directory {p : Text} (h : directory p ≠ []) :
    isAbsolute (directory p) = isAbsolute p := by
  obtain ⟨slashes, hs, -⟩ := trimSlashes_append (splitLast p).1
  conv_rhs => rw [← splitLast_append p, hs, List.append_assoc]
  exact (isAbsolute_append h _).symm

theorem directory_ne_nil {p : Text} (h : isAbsolute p) : directory p ≠ [] := by
  intro hd
  obtain ⟨slashes, hs, hc⟩ := trimSlashes_append (splitLast p).1
  have hh : (splitLast p).1 = [] := by
    rw [directory] at hd
    rw [hd, List.nil_append] at hs
    have ha : (splitLast p).1.all (· = '/') = true := by
      rw [hs]
      simpa using hc
    rwa [trimSlashes, if_pos ha] at hd
  have hp := splitLast_append p
  rw [hh, List.nil_append] at hp
  rw [← hp, isAbsolute_of_not_mem (not_mem_splitLast_snd p)] at h
  cases h

theorem fileName_of_endsWith {p : Text} (h : endsWith p ['/']) : fileName p = [] := by
  obtain ⟨r, rfl⟩ := endsWith_iff.mp h
  rw [fileName, splitLast_eq]
  simp

theorem splitDirectory_eq (p : Text) :
    splitDirectory p =
      if fileName p = [] then (directory (directory p), fileName (directory p))
      else (directory p, fileName p) := by
  by_cases h : (splitLast p).2 = [] <;> simp [splitDirectory, fileName, directory, h]

theorem names_splitDirectory (p : Text) :
    names p = names (splitDirectory p).1 ++ names (splitDirectory p).2 := by
  rw [splitDirectory_eq]
  split
  · next h =>
    rw [names_directory p, h, names_nil, List.append_nil]
    dsimp only
    exact names_directory _
  · exact names_directory p

theorem isAbsolute_splitDirectory {p : Text} (h : (splitDirectory p).1 ≠ []) :
    isAbsolute (splitDirectory p).1 = isAbsolute p := by
  rw [splitDirectory_eq] at h ⊢
  split at h <;> rename_i hp
  · dsimp only at h
    have hd : directory p ≠ [] := by
      intro he
      rw [he] at h
      exact h rfl
    rw [if_pos hp]
    dsimp only
    rw [isAbsolute_directory h, isAbsolute_directory hd]
  · rw [if_neg hp, isAbsolute_directory h]

theorem splitDirectory_fst_isTrim (p : Text) : IsTrim (splitDirectory p).1 := by
  rw [splitDirectory_eq]
  split
  · dsimp only
    exact directory_isTrim _
  · exact directory_isTrim p

theorem splitDirectory_snd_ne_nil {p : Text} (h : names p ≠ []) : (splitDirectory p).2 ≠ [] := by
  rw [splitDirectory_eq]
  split
  · next hp =>
    have hd : names (directory p) ≠ [] := by
      rwa [names_directory p, hp, names_nil, List.append_nil] at h
    dsimp only
    apply fileName_ne_nil
    · intro he
      exact hd (by rw [he, names_nil])
    · by_contra he
      exact hd (directory_isTrim p (by simpa using he))
  · assumption

theorem not_mem_splitDirectory_snd (p : Text) : '/' ∉ (splitDirectory p).2 := by
  rw [splitDirectory_eq]
  split
  · dsimp only
    exact not_mem_splitLast_snd _
  · exact not_mem_splitLast_snd p

theorem length_directory_le (p : Text) : (directory p).length ≤ (splitLast p).1.length := by
  obtain ⟨slashes, hs, -⟩ := trimSlashes_append (splitLast p).1
  rw [directory]
  conv_rhs => rw [hs, List.length_append]
  omega

theorem length_splitDirectory_fst {p : Text} (h : (splitDirectory p).2 ≠ []) :
    (splitDirectory p).1.length < p.length := by
  have hcut : ∀ q, fileName q ≠ [] → (directory q).length < q.length := by
    intro q hq
    have hle := length_directory_le q
    have hlen := congrArg List.length (splitLast_append q)
    have hpos := List.length_pos_iff.mpr hq
    rw [List.length_append] at hlen
    rw [fileName] at hpos
    omega
  rw [splitDirectory_eq] at h ⊢
  split at h <;> rename_i hp
  · rw [if_pos hp]
    dsimp only at h ⊢
    have hle := length_directory_le p
    have hlen := congrArg List.length (splitLast_append p)
    rw [List.length_append] at hlen
    have hlt := hcut _ h
    omega
  · rw [if_neg hp]
    exact hcut p h

theorem names_splitDirectory_of_ne_nil {p : Text} (h : names p ≠ []) :
    names p = names (splitDirectory p).1 ++ [(splitDirectory p).2] := by
  conv_lhs => rw [names_splitDirectory p]
  rw [names_of_not_mem (not_mem_splitDirectory_snd p), if_neg (splitDirectory_snd_ne_nil h)]

theorem splitSeparators_ne_nil (inRun : Bool) (p : Text) : splitSeparators inRun p ≠ [] := by
  induction p generalizing inRun with
  | nil => simp [splitSeparators]
  | cons c p ih =>
    rw [splitSeparators]
    split
    · split
      · exact ih true
      · simp
    · split <;> simp

theorem not_mem_of_mem_splitSeparators {inRun : Bool} {p part : Text}
    (h : part ∈ splitSeparators inRun p) : '/' ∉ part ∧ '\\' ∉ part := by
  induction p generalizing inRun part with
  | nil => simp_all [splitSeparators]
  | cons c p ih =>
    rw [splitSeparators] at h
    split at h
    · split at h
      · exact ih h
      · obtain rfl | h := List.mem_cons.mp h
        · simp
        · exact ih h
    · next hc =>
      have hc : c ≠ '/' ∧ c ≠ '\\' := by simpa using hc
      have hp : ∀ q ∈ splitSeparators false p, '/' ∉ q ∧ '\\' ∉ q := fun q hq => ih hq
      split at h
      · next he => exact absurd he (splitSeparators_ne_nil _ _)
      · next first more he =>
        rw [he] at hp
        obtain rfl | h := List.mem_cons.mp h
        · have hf := hp first (by simp)
          simp [hf.1, hf.2, Ne.symm hc.1, Ne.symm hc.2]
        · exact hp part (by simp [h])

theorem not_mem_of_mem_parts {p part : Text} (h : part ∈ parts p) : '/' ∉ part :=
  (not_mem_of_mem_splitSeparators h).1

end Rollout.Path
