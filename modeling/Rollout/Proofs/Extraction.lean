import Rollout.Proofs.Archive.Scan
import Rollout.Proofs.FileSystem.Files

namespace Rollout

open Text Location

namespace Path

/-- Names that only stay or go up, until one that there cannot be. -/
def entersNothing : List Text → Bool
  | [] => true
  | name :: rest =>
    if isStay name || name = dotDot then entersNothing rest else !isHoldable name

/-- Names that, followed from `depth` names below a directory, enter nothing outside of it. -/
def staysWithin : (depth : Nat) → List Text → Bool
  | _, [] => true
  | depth, name :: rest =>
    if isStay name then staysWithin depth rest
    else if name = dotDot then
      if depth = 0 then entersNothing rest else staysWithin (depth - 1) rest
    else !isHoldable name || staysWithin (depth + 1) rest

def isContained (p : Text) : Bool := staysWithin 0 (parts p)

theorem stops_of_entersNothing {names : List Text} (h : entersNothing names) (l : Location) :
    stops l names = [] := by
  induction names generalizing l with
  | nil => rfl
  | cons name rest ih =>
    rw [entersNothing] at h
    rw [stops]
    split_ifs at h ⊢ with h1 h2 h3 h4 <;> simp_all

/-- All that is entered lies in the directory. -/
theorem prefix_of_mem_stops {names : List Text} {d k x : Location}
    (h : staysWithin k.length names) (hx : x ∈ stops (d ++ k) names) : d <+: x := by
  induction names generalizing k with
  | nil => simp [stops] at hx
  | cons name rest ih =>
    rw [staysWithin] at h
    rw [stops] at hx
    split_ifs at h hx with h1 h2 h3 h4
    · exact ih h hx
    · rw [stops_of_entersNothing h] at hx
      simp at hx
    · cases k using List.reverseRecOn with
      | nil => exact absurd rfl h3
      | append_singleton k y =>
        rw [← List.append_assoc, List.dropLast_concat] at hx
        exact ih (by simpa using h) hx
    · rw [h4, Bool.not_true, Bool.false_or] at h
      rw [List.append_assoc] at hx
      obtain rfl | hx := List.mem_cons.mp hx
      · exact List.prefix_append d _
      · exact ih (by simpa using h) hx
    · simp at hx

/-- A name that is entered from above a directory `depth` names up, when the names before it have
been followed. -/
structure Escapes (depth : Nat) (before : List Text) (name : Text) : Prop where
  holdable : ∀ n ∈ before ++ [name], isHoldable n
  proper : isStay name = false ∧ name ≠ dotDot
  above : ∀ f (k : Location), k.length = depth → follow ([f] ++ k) before = []
  stops : ∀ f (k s : Location), k.length = depth → s ∈ Location.stops ([f] ++ k) before → [f] <+: s

theorem exists_entered {names : List Text} (h : entersNothing names = false) :
    ∃ before name after, names = before ++ name :: after ∧ (∀ n ∈ before ++ [name], isHoldable n) ∧
      (isStay name = false ∧ name ≠ dotDot) ∧ follow [] before = [] ∧
      Location.stops [] before = [] := by
  induction names with
  | nil => cases h
  | cons name rest ih =>
    rw [entersNothing] at h
    split at h
    · next hn =>
      obtain ⟨before, x, after, he, hh, hp, hf, hs⟩ := ih h
      have hn : isStay name = true ∨ name = dotDot := by simpa using hn
      have hname : isHoldable name = true ∧ enter [] name = [] ∧
          Location.stops [] (name :: before) = Location.stops [] before := by
        obtain hn | rfl := hn
        · exact ⟨isHoldable_of_isStay hn, by simp [enter, hn], by simp [Location.stops, hn]⟩
        · exact ⟨isHoldable_dotDot, rfl, rfl⟩
      refine ⟨name :: before, x, after, by rw [he]; rfl, ?_, hp, ?_, hname.2.2.trans hs⟩
      · exact List.forall_mem_cons.mpr ⟨hname.1, hh⟩
      · rw [follow_cons, hname.2.1, hf]
    · next hn =>
      exact ⟨[], name, rest, rfl, by simpa using h, by simpa using hn, rfl, rfl⟩

theorem mem_stops_cons {l s : Location} {first : Text} {rest : List Text}
    (h : s ∈ Location.stops l (first :: rest)) :
    s = enter l first ∨ s ∈ Location.stops (enter l first) rest := by
  rw [Location.stops] at h
  rw [enter]
  split_ifs at h ⊢ with h1 h2 h3
  · exact .inr h
  · exact .inr h
  · exact List.mem_cons.mp h
  · cases h

theorem Escapes.cons {depth depth' : Nat} {before : List Text} {first name : Text}
    (h : Escapes depth' before name) (hf : isHoldable first)
    (hk : ∀ f (k : Location), k.length = depth →
      ∃ k' : Location, k'.length = depth' ∧ enter ([f] ++ k) first = [f] ++ k') :
    Escapes depth (first :: before) name := by
  refine ⟨List.forall_mem_cons.mpr ⟨hf, h.holdable⟩, h.proper, fun f k hlen => ?_,
    fun f k s hlen hs => ?_⟩
  · obtain ⟨k', hlen', he⟩ := hk f k hlen
    rw [follow_cons, he]
    exact h.above f k' hlen'
  · obtain ⟨k', hlen', he⟩ := hk f k hlen
    obtain rfl | hs := mem_stops_cons hs
    · rw [he]
      exact List.prefix_append _ _
    · rw [he] at hs
      exact h.stops f k' s hlen' hs

/-- A path that is not contained enters something from above its directory. -/
theorem exists_escapes {depth : Nat} {names : List Text} (h : staysWithin depth names = false) :
    ∃ before name after, names = before ++ name :: after ∧ Escapes depth before name := by
  induction names generalizing depth with
  | nil => cases h
  | cons first rest ih =>
    rw [staysWithin] at h
    split_ifs at h with h1 h2 h3
    · obtain ⟨before, name, after, rfl, he⟩ := ih h
      refine ⟨first :: before, name, after, rfl, he.cons (isHoldable_of_isStay h1) fun f k hk => ?_⟩
      exact ⟨k, hk, by rw [enter, if_pos h1]⟩
    · -- here the directory is left, and what is entered next is entered from the root
      obtain ⟨before, name, after, rfl, hh, hp, hf, hs⟩ := exists_entered h
      have hk : ∀ (f : Text) (k : Location), k.length = depth → ([f] ++ k).dropLast = [] := by
        intro f k hk
        obtain rfl : k = [] := by simpa [h3] using hk
        rfl
      refine ⟨first :: before, name, after, rfl, ?_, hp, fun f k hlen => ?_, fun f k s hlen hm => ?_⟩
      · exact List.forall_mem_cons.mpr ⟨h2 ▸ isHoldable_dotDot, hh⟩
      · rw [follow_cons, enter, if_neg h1, if_pos h2, hk f k hlen, hf]
      · rw [Location.stops, if_neg h1, if_pos h2, hk f k hlen, hs] at hm
        simp at hm
    · obtain ⟨before, name, after, rfl, he⟩ := ih h
      refine ⟨first :: before, name, after, rfl, he.cons (h2 ▸ isHoldable_dotDot) fun f k hk => ?_⟩
      have hne : k ≠ [] := by
        rintro rfl
        exact h3 hk.symm
      refine ⟨k.dropLast, by simp [hk], ?_⟩
      rw [enter, if_neg h1, if_pos h2]
      simp [List.dropLast_cons_of_ne_nil hne]
    · have hf : isHoldable first = true ∧ staysWithin (depth + 1) rest = false := by simpa using h
      obtain ⟨before, name, after, rfl, he⟩ := ih hf.2
      refine ⟨first :: before, name, after, rfl, he.cons hf.1 fun f k hk => ?_⟩
      exact ⟨k ++ [first], by simp [hk], by rw [enter, if_neg h1, if_neg h2, List.append_assoc]⟩

theorem entersNothing_filter (names : List Text) :
    entersNothing (names.filter fun name => !name.isEmpty) = entersNothing names := by
  induction names with
  | nil => rfl
  | cons name rest ih =>
    by_cases hn : name.isEmpty = true
    · rw [List.filter_cons_of_neg (by simp [hn]), ih, entersNothing,
        if_pos (by simp [isStay_of_isEmpty hn])]
    · rw [List.filter_cons_of_pos (by simp [hn]), entersNothing, entersNothing, ih]

theorem staysWithin_filter (depth : Nat) (names : List Text) :
    staysWithin depth (names.filter fun name => !name.isEmpty) = staysWithin depth names := by
  induction names generalizing depth with
  | nil => rfl
  | cons name rest ih =>
    by_cases hn : name.isEmpty = true
    · rw [List.filter_cons_of_neg (by simp [hn]), ih, staysWithin, if_pos (isStay_of_isEmpty hn)]
    · rw [List.filter_cons_of_pos (by simp [hn]), staysWithin, staysWithin, ih, ih, ih,
        entersNothing_filter]

end Path

/-- Outside of a directory nothing has changed, except that the missing directories on its own path
may have been made. -/
def Confined (directory : Text) (w w' : World) : Prop :=
  ∀ l, spot w.current directory <+: l ∨ w'.tree.get? l = w.tree.get? l ∨
    l ∈ stops (origin w.current directory) (Path.names directory) ∧
      w.tree.get? l = none ∧ w'.tree.get? l = some .directory

theorem join_nil_eq_self {p : Text} (h : p = [] ∨ endsWith p ['/']) : Path.join p [] = p := by
  rw [Path.join, if_neg (by simp [Path.isAbsolute]), List.append_nil, if_pos (by simpa using h)]

theorem join_nil_endsWith (p : Text) : Path.join p [] = [] ∨ endsWith (Path.join p []) ['/'] := by
  rw [Path.join, if_neg (by simp [Path.isAbsolute]), List.append_nil]
  split
  · next hp => simpa using hp
  · exact .inr (Path.endsWith_iff.mpr ⟨p, rfl⟩)

theorem joinAll_endsWith {qs : List Text} (h : ∀ q ∈ qs, q = []) (hq : qs ≠ []) (p : Text) :
    Path.joinAll p qs = [] ∨ endsWith (Path.joinAll p qs) ['/'] := by
  have hkeep : ∀ p, (p = [] ∨ endsWith p ['/']) → ∀ qs, (∀ q ∈ qs, q = []) →
      Path.joinAll p qs = p := by
    intro p hp qs hqs
    induction qs with
    | nil => rfl
    | cons q qs ih =>
      obtain rfl : q = [] := hqs q (by simp)
      rw [Path.joinAll_cons, join_nil_eq_self hp]
      exact ih fun q hq => hqs q (by simp [hq])
  cases qs with
  | nil => exact absurd rfl hq
  | cons q qs =>
    obtain rfl : q = [] := h q (by simp)
    rw [Path.joinAll_cons, hkeep _ (join_nil_endsWith p) qs fun q hq => h q (by simp [hq])]
    exact join_nil_endsWith p

namespace Archiver

theorem extractRecord_eq (directory : Text) (r : Record) :
    extractRecord directory r =
      (if !(Path.directory (Path.joinAll directory (Path.parts r.path))).isEmpty then
        makeDirectories (Path.directory (Path.joinAll directory (Path.parts r.path)))
      else pure ()) >>= fun _ =>
      writeFile (Path.joinAll directory (Path.parts r.path)) r.content >>= fun _ =>
      log .debug .archive ("Extracted ".toList ++ r.path ++ " (".toList ++
        ofNat r.content.length ++ " bytes)".toList) := by
  unfold extractRecord
  dsimp only
  split <;> rfl

section

variable {current directory : Text}

abbrev TouchesInside (current directory : Text) : World → World → Prop :=
  Touches current (spot current directory <+: ·)
    (· ∈ stops (origin current directory) (Path.names directory))

theorem mem_stops_target {p : Text} {l : Location} {names more : List Text}
    (h : Path.isContained p)
    (hn : Path.names (Path.joinAll directory (Path.parts p)) = names ++ more)
    (hl : l ∈ stops (origin current directory) names) :
    spot current directory <+: l ∨ l ∈ stops (origin current directory) (Path.names directory) := by
  rw [Path.names_joinAll fun q hq => Path.not_mem_of_mem_parts hq] at hn
  have hl := stops_subset_append _ _ more hl
  rw [← hn] at hl
  refine (mem_stops_append hl).symm.imp_left fun hl => ?_
  rw [stops_filter, ← spot_eq, ← List.append_nil (spot _ _)] at hl
  exact Path.prefix_of_mem_stops (k := []) h hl

theorem extractRecord_touches {r : Record} (h : Path.isContained r.path) :
    Obeys (TouchesInside current directory) (extractRecord directory r) := by
  have hslash : ∀ q ∈ Path.parts r.path, '/' ∉ q := fun q hq => Path.not_mem_of_mem_parts hq
  have horigin : origin current (Path.joinAll directory (Path.parts r.path)) =
      origin current directory := by
    rw [origin, origin, Path.isAbsolute_joinAll hslash]
  have hwrite : Obeys (TouchesInside current directory)
      (writeFile (Path.joinAll directory (Path.parts r.path)) r.content) := by
    refine writeFile_touches (fun t hp he hr => ?_) r.content
    have hn := Path.names_joinAll hslash directory
    have hs := hr.stop _ _ hn fun hnil => ?_
    · rw [horigin, ← spot_eq, stops_filter, ← List.append_nil (spot current directory)] at hs
      exact Path.prefix_of_mem_stops (k := []) h hs
    · have hall : ∀ q ∈ Path.parts r.path, q = [] := by simpa using hnil
      obtain h | h := joinAll_endsWith hall (Path.splitSeparators_ne_nil _ _) directory
      · exact hp h
      · rw [he] at h
        cases h
  have hlog : Obeys (TouchesInside current directory)
      (log .debug .archive ("Extracted ".toList ++ r.path ++ " (".toList ++
        ofNat r.content.length ++ " bytes)".toList)) :=
    obeys_modify fun _ hc hg => ⟨hc, hg, fun _ => .inr (.inl rfl)⟩
  rw [extractRecord_eq]
  refine Obeys.bind ?_ fun _ => hwrite.bind fun _ => hlog
  split
  · next hp =>
    apply makeDirectories_touches
    intro l hl
    have hd : Path.directory (Path.joinAll directory (Path.parts r.path)) ≠ [] := by simpa using hp
    have ho : origin current (Path.directory (Path.joinAll directory (Path.parts r.path))) =
        origin current directory := by
      rw [← horigin, origin, origin, Path.isAbsolute_directory hd]
    rw [ho] at hl
    exact mem_stops_target h (Path.names_directory _) hl
  · exact obeys_pure _

theorem extractRecords_touches {rs : List Record} (h : ∀ r ∈ rs, Path.isContained r.path) :
    Obeys (TouchesInside current directory) (extractRecords directory rs) := by
  induction rs with
  | nil => exact obeys_pure _
  | cons r rest ih =>
    exact (extractRecord_touches (h r (by simp))).bind fun _ => ih fun r hr => h r (by simp [hr])

theorem confined_of_isContained (a : Archiver) (stream : Stream) (directory : Text) {w : World}
    (hg : w.tree.Grounded)
    (h : ∀ r ∈ (Scan.ofStream a.codec stream).records, Path.isContained r.path) :
    Confined directory w (finalState (a.extract stream directory) w) := by
  have ho : Obeys (TouchesInside w.current directory) (a.extract stream directory) := by
    refine (extractRecords_touches h).bind fun _ => ?_
    cases (Scan.ofStream a.codec stream).ending with
    | clean => exact obeys_pure _
    | truncated => exact obeys_modify fun _ hc hg => ⟨hc, hg, fun _ => .inr (.inl rfl)⟩
    | wrong e => exact obeys_throw _
  exact (ho w rfl hg).2.2

end

def emptyWorld : World := {}

theorem get?_empty {l : Location} (h : l ≠ []) : Tree.empty.get? l = none := by
  rw [Tree.get?, if_neg h]
  rfl

theorem open_empty {path : Text} (h : Path.isAbsolute path) :
    emptyWorld.tree.Open emptyWorld.current path := by
  refine ⟨by rw [origin, if_pos h, if_pos h]; rfl, by rw [origin, if_pos h]; rfl, fun s hs => ?_⟩
  by_cases hs : s = []
  · rw [hs]
    exact .inr rfl
  · exact .inl (get?_empty hs)

/-- The way to the name that leaves the directory `/f`. -/
theorem stops_of_escapes {before : List Text} {name f : Text} (h : Path.Escapes 0 before name)
    (hf : isStay f = false ∧ f ≠ Path.dotDot ∧ isHoldable f) (rest : List Text) :
    follow [] (f :: before) = [] ∧ [name] ∈ stops [] (f :: before ++ name :: rest) ∧
      ∀ s ∈ stops [] (f :: before), [f] <+: s := by
  have hfollow : follow [] (f :: before) = [] := by
    rw [follow_cons, enter, hf.1, if_neg (by simp), if_neg hf.2.1]
    exact h.above f [] rfl
  refine ⟨hfollow, ?_, fun s hs => ?_⟩
  · have hb : ∀ n ∈ f :: before, isHoldable n :=
      List.forall_mem_cons.mpr ⟨hf.2.2, fun n hn => h.holdable n (by simp [hn])⟩
    rw [stops_append hb, hfollow]
    apply List.mem_append_right
    rw [stops, h.proper.1, if_neg (by simp), if_neg h.proper.2, if_pos (h.holdable name (by simp))]
    simp
  · rw [stops, hf.1, if_neg (by simp), if_neg hf.2.1, if_pos hf.2.2] at hs
    obtain rfl | hs := List.mem_cons.mp hs
    · exact List.prefix_refl _
    · exact h.stops f [] s rfl hs

theorem keepsDirectories_log (t : Text) : Obeys KeepsDirectories (log .debug .archive t) :=
  obeys_modify fun _ _ => id

theorem extractRecord_makes {directory : Text} {r : Record} {l : Location}
    (h : Path.isAbsolute (Path.joinAll directory (Path.parts r.path)))
    (hl : l ∈ stops [] (Path.names (Path.directory (Path.joinAll directory (Path.parts r.path))))) :
    (finalState (extractRecord directory r) emptyWorld).tree.get? l = some .directory := by
  have hd := Path.directory_ne_nil h
  have ha : Path.isAbsolute (Path.directory (Path.joinAll directory (Path.parts r.path))) = true := by
    rw [Path.isAbsolute_directory hd, h]
  have hm := (makeDirectories_spec (w := emptyWorld) hd (Path.directory_isTrim _)
    Tree.sound_empty.grounded
    (open_empty ha) rfl).1 l (by rwa [origin, if_pos ha])
  have hrest : Obeys KeepsDirectories (do
      writeFile (Path.joinAll directory (Path.parts r.path)) r.content
      log .debug .archive ("Extracted ".toList ++ r.path ++ " (".toList ++
        ofNat r.content.length ++ " bytes)".toList)) :=
    (writeFile_keepsDirectories _ _).bind fun _ => keepsDirectories_log _
  rw [extractRecord_eq, if_pos (by simpa using hd), finalState]
  cases hr : makeDirectories (Path.directory (Path.joinAll directory (Path.parts r.path)))
      emptyWorld with
  | ok u w =>
    rw [finalState_of_ok hr] at hm
    rw [bind_of_ok hr, ← finalState]
    exact hrest w l hm
  | error e w =>
    rw [finalState_of_error hr] at hm
    rw [bind_of_error hr]
    exact hm

/-- The file itself is written when it leaves the directory by its last name. -/
theorem extractRecord_writes {r : Record} {before : List Text} {name f : Text}
    (ha : Path.isAbsolute (Path.joinAll ('/' :: f) (Path.parts r.path)))
    (hd : Path.names (Path.directory (Path.joinAll ('/' :: f) (Path.parts r.path))) = f :: before)
    (hn : Path.fileName (Path.joinAll ('/' :: f) (Path.parts r.path)) = name)
    (h : Path.Escapes 0 before name) (hf : isStay f = false ∧ f ≠ Path.dotDot ∧ isHoldable f)
    (hne : name ≠ f) :
    (finalState (extractRecord ('/' :: f) r) emptyWorld).tree.get? [name] =
      some (.file r.content) := by
  have hnil := Path.directory_ne_nil ha
  have hda : Path.isAbsolute (Path.directory (Path.joinAll ('/' :: f) (Path.parts r.path))) =
      true := by
    rw [Path.isAbsolute_directory hnil, ha]
  obtain ⟨hfollow, -, hstops⟩ := stops_of_escapes h hf []
  have hheld : ∀ n ∈ f :: before, isHoldable n :=
    List.forall_mem_cons.mpr ⟨hf.2.2, fun n hn => h.holdable n (by simp [hn])⟩
  have hname : name ≠ [] := by
    rintro rfl
    simpa [isStay] using h.proper.1
  obtain ⟨t, hw, hg, hmade, hkept⟩ := makeDirectories_ok (w := emptyWorld) hnil
    (Path.directory_isTrim _) Tree.sound_empty.grounded (open_empty hda) rfl (by rwa [hd])
  rw [hd, origin, if_pos hda] at hmade hkept
  obtain ⟨hwalk, -⟩ := hg.walk_of_stops rfl hheld hmade
  rw [hfollow] at hwalk
  rw [extractRecord_eq, if_pos (by simpa using hnil), finalState, bind_of_ok hw]
  generalize Path.joinAll ('/' :: f) (Path.parts r.path) = target at ha hd hn ⊢
  have hnames : Path.names target = f :: before ++ [name] := by
    rw [Path.names_directory, hd, Path.names_fileName, hn, if_neg hname]
  have hspot : spot emptyWorld.current target = [name] := by
    rw [spot_eq, origin, if_pos ha, hnames, follow_append, hfollow, follow_cons, enter,
      h.proper.1, if_neg (by simp), if_neg h.proper.2]
    rfl
  have hlen : (Utf8.encode name).length ≤ Tree.nameLimit := by
    have hh := h.holdable name (by simp)
    simp only [isHoldable, Bool.and_eq_true, decide_eq_true_eq] at hh
    exact hh.1
  have hfree : t.get? [name] = none := by
    refine (hkept _ fun hs => ?_).trans (get?_empty (by simp))
    have hp : f = name := by simpa using hstops _ hs
    exact hne hp.symm
  have hz : '\x00' ∉ target := by
    apply not_mem_of_isHoldable
    intro n hn
    rw [hnames, List.mem_append] at hn
    obtain hn | hn := hn
    · exact hheld n hn
    · exact h.holdable n (by simp_all)
  have hp : target ≠ [] := by
    rintro rfl
    cases ha
  have he : endsWith target ['/'] = false := by
    by_contra he
    exact hname (hn ▸ Path.fileName_of_endsWith (by simpa using he))
  have hlast : t.walk [] ((Tree.namesOf emptyWorld.current target).filter fun n => !n.isEmpty) =
      .ok (spot emptyWorld.current target) := by
    rw [filter_namesOf, if_pos ha, hnames, List.nil_append, hspot]
    refine Tree.walk_append_eq_ok.mpr
      ⟨_, hwalk, Tree.walk_cons_eq_ok.mpr ⟨rfl, fun _ _ => hlen, ?_⟩⟩
    rw [enter, h.proper.1, if_neg (by simp), if_neg h.proper.2]
    rfl
  have hwrite := writeFile_ok (w := { emptyWorld with tree := t }) ⟨hp, he, hz, hlast⟩ rfl
    (by rw [hspot, hfree]; simp) r.content
  rw [bind_of_ok hwrite, ← finalState, hspot]
  exact Tree.get?_insert_self _ (by simp) _

theorem extractRecord_escapes {r : Record} {before after : List Text} {name f : Text}
    (hp : (Path.parts r.path).filter (fun q => !q.isEmpty) = before ++ name :: after)
    (h : Path.Escapes 0 before name) (hf : isStay f = false ∧ f ≠ Path.dotDot ∧ isHoldable f)
    (hslash : '/' ∉ f) (hne : name ≠ f) :
    ((finalState (extractRecord ('/' :: f) r) emptyWorld).tree.get? [name]).isSome := by
  have hparts : ∀ q ∈ Path.parts r.path, '/' ∉ q := fun q hq => Path.not_mem_of_mem_parts hq
  have hnames := Path.names_joinAll hparts ('/' :: f)
  have hroot : Path.names ('/' :: f) = [f] := by
    apply Path.names_cons_slash hslash
    rintro rfl
    simp [isStay] at hf
  have ha : Path.isAbsolute (Path.joinAll ('/' :: f) (Path.parts r.path)) = true := by
    rw [Path.isAbsolute_joinAll hparts]
    rfl
  rw [hroot, hp, Path.names_directory, Path.names_fileName, List.singleton_append,
    ← List.cons_append] at hnames
  have hmade : ∀ rest, Path.names (Path.directory (Path.joinAll ('/' :: f) (Path.parts r.path))) =
      f :: before ++ name :: rest →
      ((finalState (extractRecord ('/' :: f) r) emptyWorld).tree.get? [name]).isSome := by
    intro rest hrest
    rw [extractRecord_makes ha]
    · rfl
    · rw [hrest]
      exact (stops_of_escapes h hf rest).2.1
  split at hnames
  · rw [List.append_nil] at hnames
    exact hmade after hnames
  · cases after using List.reverseRecOn with
    | nil =>
      obtain ⟨hd, hn⟩ := List.append_inj' hnames rfl
      rw [extractRecord_writes ha hd (by simpa using hn) h hf hne]
      rfl
    | append_singleton rest last =>
      rw [← List.cons_append, ← List.append_assoc] at hnames
      exact hmade rest (List.append_inj' hnames rfl).1

/-- Some directory does not hold a path that is not contained. -/
theorem exists_not_confined {r : Record} (h : Path.isContained r.path = false) :
    ∃ directory, ¬ Confined directory emptyWorld
      (finalState (extractRecord directory r) emptyWorld) := by
  rw [Path.isContained, ← Path.staysWithin_filter] at h
  obtain ⟨before, name, after, hp, he⟩ := Path.exists_escapes h
  -- a directory that is not named like what is entered from above it
  obtain ⟨f, hf, hslash, hne⟩ : ∃ f, (isStay f = false ∧ f ≠ Path.dotDot ∧ isHoldable f) ∧
      '/' ∉ f ∧ name ≠ f := by
    by_cases hn : name = "a".toList
    · exact ⟨"b".toList, by decide, by decide, by rw [hn]; decide⟩
    · exact ⟨"a".toList, by decide, by decide, hn⟩
  have hnames : Path.names ('/' :: f) = [f] := by
    apply Path.names_cons_slash hslash
    rintro rfl
    simp [isStay] at hf
  have horigin : origin emptyWorld.current ('/' :: f) = [] := rfl
  refine ⟨'/' :: f, fun hc => ?_⟩
  have hsome := extractRecord_escapes hp he hf hslash hne
  obtain h | h | ⟨h, -⟩ := hc [name]
  · rw [spot_eq, hnames, horigin, follow_cons, enter, hf.1, if_neg (by simp),
      if_neg hf.2.1] at h
    have hfn : f = name := by simpa using h
    exact hne hfn.symm
  · rw [h] at hsome
    cases hsome
  · rw [hnames, horigin, stops, hf.1, if_neg (by simp), if_neg hf.2.1, if_pos hf.2.2] at h
    exact hne (by simpa [stops] using h)

theorem finalState_extractRecords_singleton (directory : Text) (r : Record) (w : World) :
    finalState (extractRecords directory [r]) w = finalState (extractRecord directory r) w := by
  rw [extractRecords, finalState, finalState]
  cases hr : extractRecord directory r w with
  | ok u w' =>
    rw [bind_of_ok hr]
    rfl
  | error e w' => rw [bind_of_error hr]

/-- Extraction stays inside its target when every stored path is contained, and a path that is not
contained leaves some target: this condition on paths is the weakest one. -/
theorem extract_confined (a : Archiver) :
    (∀ (stream : Stream) (directory : Text) (w : World), w.tree.Grounded →
      (∀ r ∈ (Scan.ofStream a.codec stream).records, Path.isContained r.path) →
      Confined directory w (finalState (a.extract stream directory) w)) ∧
    ∀ r : Record, r.Storable →
      ((∀ (directory : Text) (w : World), w.tree.Grounded → Confined directory w
        (finalState (a.extract (Stream.ofBytes portion (pack a.codec [r])) directory) w)) ↔
      Path.isContained r.path) := by
  refine ⟨fun stream directory w hg h => confined_of_isContained a stream directory hg h,
    fun r hr => ?_⟩
  have hscan : Scan.ofStream a.codec (Stream.ofBytes portion (pack a.codec [r])) = ⟨[r], .clean⟩ :=
    Scan.ofStream_pack (by simpa using hr) (Stream.flatten_ofBytes (by decide) _)
  constructor
  · intro h
    by_contra hc
    obtain ⟨directory, hd⟩ := exists_not_confined (by simpa using hc)
    apply hd
    rw [← finalState_extractRecords_singleton]
    have hall := h directory emptyWorld Tree.sound_empty.grounded
    rw [extract, hscan] at hall
    simpa [finish] using hall
  · intro h directory w hg
    apply confined_of_isContained a _ directory hg
    rw [hscan]
    simpa using h

/-- A path with both separators, and one that goes up below the target. -/
theorem extract_confined_mixed :
    Path.isContained "\\sub/a/..\\one.txt".toList = true ∧
    Confined "/out".toList emptyWorld (finalState (({ codec := .deflate } : Archiver).extract
      (Stream.ofBytes portion (pack .deflate [⟨"\\sub/a/..\\one.txt".toList, [1, 2]⟩]))
      "/out".toList) emptyWorld) :=
  ⟨by decide, ((extract_confined { codec := .deflate }).2
    ⟨"\\sub/a/..\\one.txt".toList, [1, 2]⟩ ⟨by decide, by decide⟩).mpr (by decide) _ _
    Tree.sound_empty.grounded⟩

/-- A path that goes up writes a file beside the target. -/
theorem extract_beside :
    Scan.ofStream .plain (Stream.ofBytes portion (pack .plain [⟨"../evil.txt".toList, [0x78]⟩])) =
      ⟨[⟨"../evil.txt".toList, [0x78]⟩], .clean⟩ ∧
    emptyWorld.tree.get? ["evil.txt".toList] = none ∧
    (finalState (({} : Archiver).extract
      (Stream.ofBytes portion (pack .plain [⟨"../evil.txt".toList, [0x78]⟩])) "/out".toList)
      emptyWorld).tree.get? ["evil.txt".toList] = some (.file [0x78]) ∧
    ¬ Confined "/out".toList emptyWorld (finalState (({} : Archiver).extract
      (Stream.ofBytes portion (pack .plain [⟨"../evil.txt".toList, [0x78]⟩])) "/out".toList)
      emptyWorld) := by
  have hfile : (finalState (({} : Archiver).extract
      (Stream.ofBytes portion (pack .plain [⟨"../evil.txt".toList, [0x78]⟩])) "/out".toList)
      emptyWorld).tree.get? ["evil.txt".toList] = some (.file [0x78]) := by decide +kernel
  refine ⟨by decide +kernel, by decide, hfile, fun hc => ?_⟩
  obtain h | h | ⟨h, -⟩ := hc ["evil.txt".toList]
  · exact absurd h (by decide +kernel)
  · rw [hfile] at h
    exact absurd h (by decide)
  · exact absurd h (by decide +kernel)

end Archiver

end Rollout
