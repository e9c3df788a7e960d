import Mathlib.Data.List.TakeWhile
import Rollout.Proofs.FileSystem.Glob
import Rollout.Proofs.Macro

namespace Rollout

open Text

namespace Path

/-- The paths at or above one, by their text: itself, the slashes it begins with, and whatever it
has before a slash that follows a name. -/
inductive AtOrAbove (p : Text) : Text → Prop
  | self : AtOrAbove p p
  | root : AtOrAbove p (p.takeWhile (· = '/'))
  | cut {front rest : Text} {c : Char} (hc : c ≠ '/') (h : p = front ++ c :: '/' :: rest) :
      AtOrAbove p (front ++ [c])

variable {p a : Text}

theorem AtOrAbove.isPrefix (h : AtOrAbove p a) : a <+: p := by
  cases h with
  | self => exact List.prefix_refl p
  | root => exact List.takeWhile_prefix _
  | @cut front rest c hc h =>
    refine ⟨'/' :: rest, ?_⟩
    rw [h, List.append_assoc]
    rfl

theorem atOrAbove_of_slashes (hp : ∀ c ∈ p, c = '/') : AtOrAbove p a ↔ a = p := by
  constructor
  · intro h
    cases h with
    | self => rfl
    | root => exact List.takeWhile_eq_self_iff.mpr fun c hc => decide_eq_true (hp c hc)
    | cut hc h => exact absurd (hp _ (by simp [h])) hc
  · rintro rfl
    exact .self

theorem cut_before_name {head name front rest : Text} {c : Char} (hname : '/' ∉ name)
    (h : head ++ name = front ++ c :: '/' :: rest) :
    ∃ more, head = front ++ c :: '/' :: more := by
  have h : (front ++ [c, '/']) ++ rest = head ++ name := by simp [h]
  obtain ⟨more, hhead, -⟩ | ⟨more, hfront, hmore⟩ := List.append_eq_append_iff.mp h
  · exact ⟨more, by simp [hhead]⟩
  · cases more using List.reverseRecOn with
    | nil => exact ⟨[], by simpa using hfront.symm⟩
    | append_singleton more d =>
      have hd : d = '/' := by
        have hlast := congrArg List.getLast? hfront
        rw [← List.append_assoc, List.getLast?_concat] at hlast
        simpa using hlast.symm
      exact absurd (by simp [hmore, hd]) hname

theorem takeWhile_append_stop (front rest : Text) {c : Char} (hc : c ≠ '/') :
    (front ++ c :: rest).takeWhile (· = '/') = (front ++ [c]).takeWhile (· = '/') := by
  induction front with
  | nil => simp [hc]
  | cons d front ih =>
    by_cases hd : d = '/'
    · simp [hd, ih]
    · simp [hd]

/-- A name right below the root has nothing but the root above it. -/
theorem atOrAbove_below_slashes {slashes name : Text} (hslashes : ∀ c ∈ slashes, c = '/')
    (hname : '/' ∉ name) (hne : name ≠ []) :
    AtOrAbove (slashes ++ name) a ↔ a = slashes ++ name ∨ a = slashes := by
  have hroot : (slashes ++ name).takeWhile (· = '/') = slashes := by
    rw [List.takeWhile_append_of_pos fun c hc => decide_eq_true (hslashes c hc)]
    cases name with
    | nil => exact absurd rfl hne
    | cons c name =>
      have hc : c ≠ '/' := fun h => hname (by simp [h])
      simp [hc]
  constructor
  · intro h
    cases h with
    | self => exact .inl rfl
    | root => exact .inr hroot
    | cut hc h =>
      obtain ⟨more, hmore⟩ := cut_before_name hname h
      exact absurd (hslashes _ (by simp [hmore])) hc
  · rintro (rfl | rfl)
    · exact .self
    · have habove := AtOrAbove.root (p := a ++ name)
      rwa [hroot] at habove

theorem atOrAbove_below_name {front slashes name : Text} {c : Char} (hc : c ≠ '/')
    (hslashes : ∀ s ∈ slashes, s = '/') (hne : slashes ≠ []) (hname : '/' ∉ name) :
    AtOrAbove (front ++ c :: slashes ++ name) a ↔
      a = front ++ c :: slashes ++ name ∨ AtOrAbove (front ++ [c]) a := by
  have hroot : (front ++ c :: slashes ++ name).takeWhile (· = '/') =
      (front ++ [c]).takeWhile (· = '/') := by
    rw [List.append_assoc]
    exact takeWhile_append_stop front (slashes ++ name) hc
  constructor
  · intro h
    cases h with
    | self => exact .inl rfl
    | root => exact .inr (hroot ▸ .root)
    | @cut start rest d hd h =>
      refine .inr ?_
      obtain ⟨more, hmore⟩ := cut_before_name hname h
      have hmore : (front ++ [c]) ++ slashes = (start ++ [d]) ++ '/' :: more := by simpa using hmore
      obtain ⟨between, hstart, hrest⟩ | ⟨between, hfront, hrest⟩ := List.append_eq_append_iff.mp hmore
      · cases between using List.reverseRecOn with
        | nil =>
          rw [hstart, List.append_nil]
          exact .self
        | append_singleton between e =>
          have hde : d = e := by
            have hlast := congrArg List.getLast? hstart
            rw [← List.append_assoc, List.getLast?_concat, List.getLast?_concat] at hlast
            exact Option.some.inj hlast
          exact absurd (hslashes d (by simp [hrest, hde])) hd
      · cases between with
        | nil =>
          rw [hfront, List.append_nil]
          exact .self
        | cons e between =>
          obtain rfl : '/' = e := (List.cons.inj hrest).1
          exact .cut hd (by simpa using hfront)
  · rintro (rfl | h)
    · exact .self
    · cases h with
      | self =>
        obtain ⟨s, more, rfl⟩ := List.exists_cons_of_ne_nil hne
        obtain rfl : s = '/' := hslashes s (by simp)
        exact .cut hc (show _ = front ++ c :: '/' :: (more ++ name) by simp)
      | root => exact hroot ▸ .root
      | @cut start rest d hd h =>
        have hp : front ++ c :: slashes ++ name = (front ++ [c]) ++ (slashes ++ name) := by simp
        rw [hp, h]
        exact .cut hd (show _ = start ++ d :: '/' :: (rest ++ (slashes ++ name)) by simp)

/-- One step up: what is at or above a path is the path or at or above its directory. -/
theorem atOrAbove_iff (hp : isAbsolute p) (hne : directory p ≠ p) :
    AtOrAbove p a ↔ a = p ∨ AtOrAbove (directory p) a := by
  have happend : (splitLast p).1 ++ (splitLast p).2 = p := splitLast_append p
  have hname := not_mem_splitLast_snd p
  have hhead : endsWith (splitLast p).1 ['/'] := by
    refine (splitLast_fst p).resolve_left fun hnil => ?_
    rw [hnil, List.nil_append] at happend
    rw [← happend, isAbsolute_of_not_mem hname] at hp
    cases hp
  have hdirectory : directory p = trimSlashes (splitLast p).1 := rfl
  generalize (splitLast p).1 = head at *
  generalize (splitLast p).2 = name at *
  subst happend
  obtain hslashes | ⟨front, c, slashes, hc, hslashes, rfl⟩ := slashes_or_append head
  · rw [trimSlashes_of_slashes hslashes] at hdirectory
    have hname' : name ≠ [] := by
      rintro rfl
      exact hne (hdirectory.trans (List.append_nil head).symm)
    rw [hdirectory, atOrAbove_of_slashes hslashes]
    exact atOrAbove_below_slashes hslashes hname hname'
  · rw [trimSlashes_concat front hc hslashes] at hdirectory
    have hslashes' : slashes ≠ [] := by
      rintro rfl
      obtain ⟨start, hstart⟩ := endsWith_iff.mp hhead
      exact hc (List.cons.inj (List.append_inj_right' hstart rfl)).1.symm
    rw [hdirectory]
    exact atOrAbove_below_name hc hslashes hslashes' hname

end Path

namespace World

def HasMarker (w : World) (directory : Text) : Prop :=
  ∃ l name, w.tree.locate w.current directory = .ok l ∧ w.tree.get? l = some .directory ∧
    (w.tree.get? (l ++ [name])).isSome ∧ ".sln".toList <:+ name ∧ name.head? ≠ some '.'

variable {w : World} {here p a d : Text} {r : Option Text}

theorem isMarked_iff (hp : Path.isAbsolute p) : w.isMarked p = true ↔ w.HasMarker p := by
  have hpattern : Glob.isPattern "*.sln".toList = true := by decide
  have hslash : '/' ∉ "*.sln".toList := by decide
  have hfits (name : Text) : Glob.fits "*.sln".toList name = true ↔ ".sln".toList <:+ name :=
    Glob.fits_star (by decide)
  have hhidden (name : Text) :
      (Glob.isHidden name = true → Glob.isHidden "*.sln".toList = true) ↔
        name.head? ≠ some '.' := by
    simp [Glob.isHidden]
  rw [isMarked, Bool.not_eq_true', List.isEmpty_eq_false_iff,
    Tree.glob_join_escape w.tree w.current false hp hpattern hslash]
  refine exists_congr fun l => exists_congr fun name => ?_
  rw [← Tree.locate_iff_enters w.tree w.current hp, hfits, hhidden, and_assoc]
  simp only [Bool.false_eq_true, false_imp_iff, true_and, and_comm, and_left_comm]

/-- The climb from a directory comes to a result: to a directory that is marked, or to none where
there is no step up. -/
inductive Climbs (w : World) : Text → Option Text → Prop
  | found {here : Text} (h : w.isMarked here = true) : Climbs w here (some here)
  | top {here : Text} (h : w.isMarked here = false) (hup : Path.directory here = here) :
      Climbs w here none
  | up {here : Text} {r : Option Text} (h : w.isMarked here = false)
      (hup : Path.directory here ≠ here) (hrest : Climbs w (Path.directory here) r) :
      Climbs w here r

structure IsNearest (w : World) (p d : Text) : Prop where
  above : Path.AtOrAbove p d
  marker : w.HasMarker d
  deepest : ∀ a, Path.AtOrAbove p a → w.HasMarker a → a <+: d

/-- Every step up shortens the path, so the climb ends within the height that it is given. -/
theorem climbs_nearestMarked (w : World) {height : Nat} (h : here.length ≤ height) :
    w.Climbs here (w.nearestMarked height here) := by
  induction height generalizing here with
  | zero =>
    obtain rfl : here = [] := List.length_eq_zero_iff.mp (Nat.le_zero.mp h)
    rw [nearestMarked]
    by_cases hmarked : w.isMarked []
    · rw [if_pos hmarked]
      exact .found hmarked
    · rw [if_neg hmarked]
      exact .top (by simpa using hmarked) rfl
  | succ height ih =>
    rw [nearestMarked]
    by_cases hmarked : w.isMarked here
    · rw [if_pos hmarked]
      exact .found hmarked
    · rw [if_neg hmarked]
      dsimp only
      by_cases hup : Path.directory here = here
      · rw [if_pos hup]
        exact .top (by simpa using hmarked) hup
      · rw [if_neg hup]
        have hshorter := Path.length_directory_lt hup
        exact .up (by simpa using hmarked) hup (ih (by omega))

theorem Climbs.unique {r' : Option Text} (h : w.Climbs here r) (h' : w.Climbs here r') : r = r' := by
  induction h with
  | found h =>
    cases h' with
    | found => rfl
    | top h' => simp [h] at h'
    | up h' => simp [h] at h'
  | top h hup =>
    cases h' with
    | found h' => simp [h] at h'
    | top => rfl
    | up _ hup' => exact absurd hup hup'
  | up h hup _ ih =>
    cases h' with
    | found h' => simp [h] at h'
    | top _ hup' => exact absurd hup' hup
    | up _ _ hrest => exact ih hrest

theorem IsNearest.unique {d' : Text} (h : w.IsNearest p d) (h' : w.IsNearest p d') : d = d' :=
  (h'.deepest d h.above h.marker).eq_of_length
    (Nat.le_antisymm (h'.deepest d h.above h.marker).length_le
      (h.deepest d' h'.above h'.marker).length_le)

/-- What a climb comes to is the nearest directory with a marker, or there is none. -/
theorem Climbs.nearest (h : w.Climbs p r) (hp : Path.isAbsolute p) :
    (∀ d, r = some d → w.IsNearest p d) ∧
      (r = none → ∀ a, Path.AtOrAbove p a → ¬ w.HasMarker a) := by
  induction h with
  | @found here h =>
    refine ⟨fun d hd => ?_, nofun⟩
    obtain rfl := Option.some.inj hd
    exact ⟨.self, (isMarked_iff hp).mp h, fun a ha _ => ha.isPrefix⟩
  | @top here h hup =>
    refine ⟨nofun, fun _ a ha hmarker => ?_⟩
    obtain rfl := (Path.atOrAbove_of_slashes (Path.directory_eq_self_iff.mp hup)).mp ha
    rw [(isMarked_iff hp).mpr hmarker] at h
    cases h
  | @up here r h hup hrest ih =>
    have hne := Path.directory_ne_nil hp
    obtain ⟨hsome, hnone⟩ := ih (by rwa [Path.isAbsolute_directory hne])
    have hhere : ¬ w.HasMarker here := by
      rw [← isMarked_iff hp, h]
      decide
    refine ⟨fun d hd => ?_, fun hr a ha hmarker => ?_⟩
    · obtain ⟨habove, hmarker, hdeepest⟩ := hsome d hd
      refine ⟨(Path.atOrAbove_iff hp hup).mpr (.inr habove), hmarker, fun a ha hmarker => ?_⟩
      obtain rfl | ha := (Path.atOrAbove_iff hp hup).mp ha
      · exact absurd hmarker hhere
      · exact hdeepest a ha hmarker
    · obtain rfl | ha := (Path.atOrAbove_iff hp hup).mp ha
      · exact hhere hmarker
      · exact hnone hr a ha hmarker

end World

namespace Derived

/-- The solution directory of a world is computed by a climb that ends, and it is the deepest one at
or above the working directory that has a marker. It is not to be had where the working directory
is lost. -/
theorem solutionDirectory_nearest (w : World) (hcurrent : Path.isAbsolute w.current)
    (hfresh : w.memo.lookup .solutionDirectory = none) :
    ∃ r, (solutionDirectory.value w =
        if w.isLost then .error .lostDirectory w
        else .ok r { w with memo := (solutionDirectory, r) :: w.memo }) ∧
      w.Climbs w.current r ∧ (∀ r', w.Climbs w.current r' → r' = r) ∧
      (∀ d, r = some d ↔ w.IsNearest w.current d) ∧
      (r = none ↔ ∀ a, Path.AtOrAbove w.current a → ¬ w.HasMarker a) := by
  have hclimb := w.climbs_nearestMarked (Nat.le_refl w.current.length)
  obtain ⟨hsome, hnone⟩ := hclimb.nearest hcurrent
  refine ⟨w.nearestMarked w.current.length w.current, ?_, hclimb, fun r' h => h.unique hclimb,
    fun d => ⟨hsome d, fun h => ?_⟩, hnone, fun h => ?_⟩
  · rw [value, solutionDirectoryValue, memoized, get_bind, hfresh]
    cases hlost : w.isLost with
    | true => exact bind_of_error (bind_of_error (by rw [needDirectory_eq, hlost]; rfl))
    | false =>
      have hneed : needDirectory true w = .ok () w := by rw [needDirectory_eq, hlost]; rfl
      exact bind_of_ok (bind_of_ok hneed)
  · cases hr : w.nearestMarked w.current.length w.current with
    | none => exact absurd h.marker (hnone hr d h.above)
    | some d' => rw [(hsome d' hr).unique h]
  · cases hr : w.nearestMarked w.current.length w.current with
    | none => rfl
    | some d => exact absurd (hsome d hr).marker (h d (hsome d hr).above)

/-- A bracket, a star and a question mark on the way are no wildcards, and a hidden name is no
marker. -/
theorem solutionDirectory_nearest_wildcards :
    let w : World :=
      { current := "/a[b/c*/?".toList
        tree :=
          ⟨[(["a[b".toList], .directory), (["a[b".toList, "tool.sln".toList], .file []),
            (["a[b".toList, "c*".toList], .directory),
            (["a[b".toList, "c*".toList, ".sln".toList], .file []),
            (["a[b".toList, "c*".toList, "?".toList], .directory),
            (["a[b".toList, "cd".toList], .directory),
            (["a[b".toList, "cd".toList, "d.sln".toList], .directory)]⟩ }
    Path.isAbsolute w.current ∧ w.memo.lookup .solutionDirectory = none ∧
      (∃ w', solutionDirectory.value w = .ok (some "/a[b".toList) w') ∧
      w.IsNearest w.current "/a[b".toList := by
  intro w
  have hcurrent : Path.isAbsolute w.current = true := by decide
  have hresult : w.nearestMarked w.current.length w.current = some "/a[b".toList := by
    decide +kernel
  obtain ⟨r, hvalue, -, -, hnearest, -⟩ := solutionDirectory_nearest w hcurrent rfl
  have hcomputed : solutionDirectory.value w =
      .ok (w.nearestMarked w.current.length w.current)
        { w with memo := [(solutionDirectory, w.nearestMarked w.current.length w.current)] } := rfl
  obtain ⟨rfl, -⟩ := EStateM.Result.ok.inj (hvalue.symm.trans hcomputed)
  rw [hresult] at hvalue
  exact ⟨hcurrent, rfl, ⟨_, hvalue⟩, (hnearest _).mp hresult⟩

end Derived

end Rollout
