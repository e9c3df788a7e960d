import Rollout.Proofs.FileSystem.Removal
import Rollout.Proofs.Scripts

namespace Rollout

open Text Script

variable {α : Type}

/-- Nothing has changed outside of some locations. -/
def Spares (current : Text) (inside : Location → Prop) (w w' : World) : Prop :=
  w.current = current →
    w'.current = current ∧ w'.denied = w.denied ∧ ∀ l, ¬ inside l → w'.tree.get? l = w.tree.get? l

instance (current : Text) (inside : Location → Prop) : IsPreorder World (Spares current inside) where
  refl _ h := ⟨h, rfl, fun _ _ => rfl⟩
  trans := by
    intro u v w huv hvw h
    obtain ⟨hv, hdenied, hu⟩ := huv h
    obtain ⟨hw, hdenied', hv⟩ := hvw hv
    exact ⟨hw, hdenied'.trans hdenied, fun l hl => (hv l hl).trans (hu l hl)⟩

theorem Tree.get?_erase_of_not_prefix (t : Tree) {current path : Text} {l : Location}
    (h : ¬ spot current path <+: l) : (t.erase current path).1.get? l = t.get? l := by
  obtain heq | heq | heq := t.erase_cases current path
  · rw [heq]
  · rw [heq, get?_clear, if_neg fun hc => h hc.1]
  · by_cases hroot : l = []
    · rw [hroot]
      rfl
    · rw [heq, get?_remove _ _ _ hroot, if_neg (by rwa [List.isPrefixOf_iff_prefix])]

theorem Tree.get?_erase (t : Tree) (current path : Text) (l : Location) :
    (t.erase current path).1.get? l = t.get? l ∨ (t.erase current path).1.get? l = none := by
  by_cases hroot : l = []
  · rw [hroot]
    exact .inl rfl
  obtain heq | heq | heq := t.erase_cases current path
  · rw [heq]
    exact .inl rfl
  · rw [heq, get?_clear]
    split <;> simp
  · rw [heq, get?_remove _ _ _ hroot]
    split <;> simp

theorem removePath_spares {current path : Text} {inside : Location → Prop}
    (h : ∀ l, spot current path <+: l → inside l) :
    Obeys (Spares current inside) (removePath path) := by
  intro w
  obtain hend | hend := removePath_tree path w
  · rw [ObeysAt, hend]
    exact refl w
  · rw [ObeysAt, hend]
    rintro rfl
    exact ⟨rfl, rfl, fun l hl => w.tree.get?_erase_of_not_prefix fun hp => hl (h l hp)⟩

def Thins (w w' : World) : Prop := ∀ l, w'.tree.get? l = w.tree.get? l ∨ w'.tree.get? l = none

theorem Thins.of_none {w w' : World} (h : Thins w w') {l : Location} (hl : w.tree.get? l = none) :
    w'.tree.get? l = none := by
  obtain heq | hnone := h l
  · rw [heq, hl]
  · exact hnone

instance : IsPreorder World Thins where
  refl _ _ := .inl rfl
  trans := by
    intro u v w huv hvw l
    obtain heq | hnone := hvw l
    · rw [heq]
      exact huv l
    · exact .inr hnone

theorem removePath_thins (path : Text) : Obeys Thins (removePath path) := by
  intro w
  obtain hend | hend := removePath_tree path w
  · rw [ObeysAt, hend]
    exact refl w
  · rw [ObeysAt, hend]
    exact w.tree.get?_erase w.current path

def OnWorld (R : World → World → Prop) (s s' : Session) : Prop := R s.world s'.world

section

variable {R : World → World → Prop}

theorem onWorld_obeys {a : Action World α} (h : Obeys R a) : Obeys (OnWorld R) (onWorld a) := by
  intro s
  have hw := h s.world
  unfold ObeysAt finalState at *
  cases ha : a s.world <;> simpa only [onWorld, ha, OnWorld] using hw

instance [IsPreorder World R] : IsPreorder Session (OnWorld R) where
  refl _ := refl (r := R) _
  trans _ _ _ := IsTrans.trans (r := R) _ _ _

-- A relation that the journal does not matter to.
variable (hj : ∀ w journal, R w { w with journal })

include hj

theorem say_obeys (level : Level) (t : Text) : Obeys (OnWorld R) (say level t) :=
  onWorld_obeys (obeys_modify fun _ => hj _ _)

variable [IsPreorder World R]

theorem fail_obeys (flag : Flag) (message : Option Text) (exitCode : Option Int) :
    Obeys (OnWorld R) (fail flag message exitCode) := by
  refine Obeys.bind (obeys_modify fun _ => refl (r := R) _) fun _ => obeys_get.bind fun s => ?_
  split
  · exact (say_obeys hj _ _).bind fun _ => obeys_pure _
  · refine Obeys.bind ?_ fun _ => obeys_pure _
    refine Obeys.bind (obeys_modify fun _ => refl (r := R) _) fun _ => ?_
    exact (say_obeys hj _ _).bind fun _ => onWorld_obeys (obeys_modify fun _ => hj _ _)

omit hj in
theorem require_obeys (value what : Text) (command : Command) :
    Obeys (OnWorld R) (require value what command) := by
  unfold require
  split
  · refine Obeys.bind ?_ fun _ => obeys_throw _
    exact obeys_get.bind fun _ => obeys_pure _
  · exact obeys_pure _

theorem Builtin.decide_obeys (settings : Settings) (argument : Text) (condition : Condition) :
    Obeys (OnWorld R) (condition.decide settings argument) := by
  cases condition with
  | fileThere => exact obeys_get.bind fun s => obeys_pure _
  | fileMissing => exact obeys_get.bind fun s => obeys_pure _
  | upgrade =>
    refine obeys_get.bind fun s => ?_
    split
    · refine (onWorld_obeys (installedVersion_obeys ?_ _ _)).bind fun installed => ?_
      · exact fun _ => obeys_modify fun _ => hj _ _
      · split
        · exact obeys_pure _
        · exact (fail_obeys hj _ _ _).bind fun _ => obeys_pure _
    · exact obeys_pure _

theorem Builtin.deleteOne_obeys {settings : Settings} {argument : Text}
    (h : Obeys R (removePath (settings.pathOf argument))) :
    Obeys (OnWorld R) (deleteOne settings argument) := by
  have hd (flag : Flag) : Obeys (OnWorld R) (deleteAs flag (settings.pathOf argument)) := by
    refine (onWorld_obeys h).attempt.bind fun removed => ?_
    split
    · exact fail_obeys hj _ _ _
    · exact obeys_throw _
    · exact obeys_pure _
  refine obeys_get.bind fun s => ?_
  split
  · exact hd _
  · split
    · exact hd _
    · exact obeys_pure _

end

def Settings.named (settings : Settings) (current argument : Text) : Location :=
  spot current (settings.pathOf argument)

/-- The tokens delete, at once or under conditions, with these arguments. -/
inductive DeletesWith : List Text → List Text → Prop
  | here {name : Text} {arguments : List Text} (h : headOf name = .builtin .delete) :
      DeletesWith (name :: arguments) arguments
  | under {name path : Text} {rest arguments : List Text} {command : Command}
      {condition : Builtin.Condition} (h : headOf name = .builtin command)
      (hc : Interpreter.handlerOf command = .condition condition)
      (hr : DeletesWith rest arguments) : DeletesWith (name :: path :: rest) arguments

section

variable {settings : Settings} {R : World → World → Prop} [IsPreorder World R]

/-- Deleting does what removing the arguments does, and writes to the journal. -/
theorem execute_obeys_of_deletes (nested : Interpreter.Nested)
    (hj : ∀ w journal, R w { w with journal }) {tokens arguments : List Text}
    (h : DeletesWith tokens arguments)
    (hr : ∀ a ∈ arguments, Obeys R (removePath (settings.pathOf a))) :
    Obeys (OnWorld R) (Interpreter.execute settings nested tokens) := by
  induction h generalizing nested with
  | @here name arguments h =>
    unfold Interpreter.execute
    simp only [h]
    refine (say_obeys hj _ _).bind fun _ => ?_
    exact untilExit_obeys fun a ha => Builtin.deleteOne_obeys hj (hr a ha)
  | @under name path rest arguments command condition h hc _ ih =>
    unfold Interpreter.execute
    simp only [h, hc]
    refine (say_obeys hj _ _).bind fun _ => (require_obeys _ _ _).bind fun _ => ?_
    refine (Builtin.decide_obeys hj settings path condition).bind fun decision => ?_
    split
    · exact obeys_pure _
    · split
      · exact obeys_pure _
      · cases nested with
        | nil => exact obeys_throw _
        | cons run below => exact ih below hr

end

def SameFiles (w w' : World) : Prop :=
  w'.tree = w.tree ∧ w'.current = w.current ∧ w'.denied = w.denied

instance : IsPreorder World SameFiles where
  refl _ := ⟨rfl, rfl, rfl⟩
  trans _ _ _ h h' := ⟨h'.1.trans h.1, h'.2.1.trans h.2.1, h'.2.2.trans h.2.2⟩

theorem resolveMacros_sameFiles (t : Text) : Obeys (OnWorld SameFiles) (resolveMacros t) :=
  obeys_get.bind fun _ => onWorld_obeys (resolve_obeys (fun _ _ => ⟨rfl, rfl, rfl⟩) _ _)

def Session.withTree (s : Session) (tree : Tree) : Session :=
  { s with world := { s.world with tree } }

def Node.accessFlag : Node → Flag
  | .file _ => .fileAccessDenied
  | .directory => .directoryAccessDenied

namespace Builtin

variable {settings : Settings} {argument : Text} {s : Session} {n : Node}

theorem deleteOne_of_none (h : s.world.node? (settings.pathOf argument) = none) :
    deleteOne settings argument s = .ok .next s := by
  change (if s.world.isFile (settings.pathOf argument) then _ else
    if s.world.isDirectory (settings.pathOf argument) then _ else _ : Action Session Flow) s = _
  rw [World.isFile, World.isDirectory, h]
  rfl

theorem deleteOne_of_some (h : s.world.node? (settings.pathOf argument) = some n) :
    deleteOne settings argument s = deleteAs n.accessFlag (settings.pathOf argument) s := by
  change (if s.world.isFile (settings.pathOf argument) then _ else
    if s.world.isDirectory (settings.pathOf argument) then _ else _ : Action Session Flow) s = _
  rw [World.isFile, World.isDirectory, h]
  cases n <;> rfl

/-- What leads down and is not denied is gone afterwards with all that is below it. -/
theorem deleteOne_of_find (hdown : Tree.Descends s.world.current (settings.pathOf argument))
    (hdenied : s.world.isDenied (settings.pathOf argument) = false)
    (hnull : '\x00' ∉ settings.pathOf argument)
    (hfind : s.world.tree.find s.world.current (settings.pathOf argument) = .ok n) :
    deleteOne settings argument s =
      .ok .next (s.withTree (s.world.tree.remove (settings.named s.world.current argument))) := by
  have hremove : onWorld (removePath (settings.pathOf argument)) s =
      .ok () (s.withTree (s.world.tree.remove (settings.named s.world.current argument))) := by
    rw [onWorld, removePath_of_find hdown hdenied hnull hfind]
    rfl
  have hattempt : attempt (onWorld (removePath (settings.pathOf argument))) s = .ok (.ok ())
      (s.withTree (s.world.tree.remove (settings.named s.world.current argument))) := by
    rw [attempt, hremove]
  rw [deleteOne_of_some (n := n) (by rw [World.node?, hfind]; rfl)]
  exact bind_of_ok hattempt

end Builtin

/-- Everything that no argument names, the empty ones left out, is as before. -/
def Settings.SparesUnnamed (settings : Settings) (arguments : List Text) (w w' : World) : Prop :=
  ∀ l, (∀ a ∈ arguments, a ≠ [] → ¬ settings.named w.current a <+: l) →
    w'.tree.get? l = w.tree.get? l

/-- There is no empty argument, or another one names the working directory or one above it. -/
def Settings.Guarded (settings : Settings) (current : Text) (arguments : List Text) : Prop :=
  [] ∈ arguments →
    ∃ a ∈ arguments, a ≠ [] ∧ settings.named current a <+: settings.named current []

/-- The working directory is there, and nothing stands against removing it. -/
structure Settings.Exposed (settings : Settings) (w : World) : Prop where
  isDirectory : w.tree.find w.current settings.directory = .ok .directory
  descends : Tree.Descends w.current settings.directory
  allowed : w.isDenied (settings.pathOf []) = false
  clean : '\x00' ∉ settings.directory

theorem pathOf_nil (settings : Settings) :
    settings.pathOf [] = settings.directory ∨ settings.pathOf [] = settings.directory ++ ['/'] := by
  have h : settings.pathOf [] = Path.join settings.directory [] := rfl
  rw [h, Path.join, if_neg (by simp [Path.isAbsolute])]
  split
  · exact .inl (List.append_nil _)
  · exact .inr rfl

theorem Settings.Exposed.pathOf_nil {settings : Settings} {w : World} (h : settings.Exposed w) :
    Tree.Descends w.current (settings.pathOf []) ∧ '\x00' ∉ settings.pathOf [] ∧
      w.tree.find w.current (settings.pathOf []) = .ok .directory := by
  obtain he | he := Rollout.pathOf_nil settings
  · rw [he]
    exact ⟨h.descends, h.clean, h.isDirectory⟩
  · obtain ⟨hp, hw, hg⟩ := Tree.find_eq_ok.mp h.isDirectory
    have hn : Tree.namesOf w.current (settings.pathOf []) =
        Tree.namesOf w.current settings.directory ++ [[]] := by
      rw [he, Tree.namesOf, Tree.namesOf, Path.isAbsolute_append hp, Path.components_append]
      split
      · rfl
      · exact (List.append_assoc _ _ _).symm
    have hs : spot w.current (settings.pathOf []) = spot w.current settings.directory := by
      rw [spot, hn, Location.follow_append]
      rfl
    refine ⟨⟨?_, ?_, by rw [hs]; exact h.descends.below⟩, by simp [he, h.clean], ?_⟩
    · rw [hn, List.mem_append, not_or]
      exact ⟨h.descends.down, by simp [Path.dotDot]⟩
    · rw [hn, Tree.dropEmptyEnd, List.reverse_append]
      exact h.descends.named
    · refine Tree.find_eq_ok.mpr ⟨by simp [he], ?_, by rw [hs]; exact hg⟩
      rw [hn, hs]
      exact Tree.walk_within_eq_ok.mpr ⟨hw, hg⟩

/-- While the arguments are deleted in turn, an empty one is come to. -/
def Settings.ComesToEmpty (settings : Settings) (arguments : List Text) (s : Session) : Prop :=
  ∃ before after s₁, arguments = before ++ [] :: after ∧
    Builtin.delete settings before s = .ok .next s₁

section

variable (settings : Settings) (nested : Interpreter.Nested)
  {tokens arguments : List Text}

theorem removePath_spares_named {current : Text} {arguments : List Text}
    (hg : settings.Guarded current arguments) :
    ∀ a ∈ arguments, Obeys
      (Spares current fun l => ∃ a ∈ arguments, a ≠ [] ∧ settings.named current a <+: l)
      (removePath (settings.pathOf a)) := by
  refine fun a ha => removePath_spares fun l hl => ?_
  by_cases he : a = []
  · subst he
    obtain ⟨b, hb, hne, hp⟩ := hg ha
    exact ⟨b, hb, hne, hp.trans hl⟩
  · exact ⟨a, ha, he, hl⟩

theorem execute_spares_of_guarded (h : DeletesWith tokens arguments) (s : Session)
    (hg : settings.Guarded s.world.current arguments) :
    settings.SparesUnnamed arguments s.world
      (finalState (Interpreter.execute settings nested tokens) s).world := by
  have ho := execute_obeys_of_deletes nested (fun _ _ hc => ⟨hc, rfl, fun _ _ => rfl⟩) h
    (removePath_spares_named settings hg) s rfl
  refine fun l hl => ho.2.2 l ?_
  rintro ⟨a, ha, hne, hp⟩
  exact hl a ha hne hp

theorem delete_obeys {R : World → World → Prop} [IsPreorder World R]
    (hj : ∀ w journal, R w { w with journal })
    (hr : ∀ a ∈ arguments, Obeys R (removePath (settings.pathOf a))) :
    Obeys (OnWorld R) (Builtin.delete settings arguments) :=
  untilExit_obeys fun a ha => Builtin.deleteOne_obeys hj (hr a ha)

theorem delete_thins (arguments : List Text) :
    Obeys (OnWorld Thins) (Builtin.delete settings arguments) :=
  delete_obeys settings (fun _ _ _ => .inl rfl) fun _ _ => removePath_thins _

/-- What is deleted does not touch the way of the working directory if it names nothing there. As
long as the directory is still there, it can be removed as before. -/
theorem Settings.Exposed.after_delete {s s₁ : Session} (he : settings.Exposed s.world)
    (hdelete : Builtin.delete settings arguments s = .ok .next s₁)
    (hu : ∀ a ∈ arguments, a ≠ [] →
      ¬ settings.named s.world.current a <+: settings.named s.world.current [])
    (hthere : s₁.world.tree.get? (settings.named s.world.current []) ≠ none) :
    s₁.world.current = s.world.current ∧ s₁.world.isDenied (settings.pathOf []) = false ∧
      s₁.world.tree.find s₁.world.current (settings.pathOf []) = .ok .directory := by
  obtain ⟨hdown, -, hfind⟩ := he.pathOf_nil
  obtain ⟨hne, hwalk, hget⟩ := Tree.find_eq_ok.mp hfind
  let inside (l : Location) : Prop :=
    settings.named s.world.current [] <+: l ∨
      ∃ a ∈ arguments, a ≠ [] ∧ settings.named s.world.current a <+: l
  have hspares : ∀ a ∈ arguments,
      Obeys (Spares s.world.current inside) (removePath (settings.pathOf a)) := by
    refine fun a ha => removePath_spares fun l hl => ?_
    by_cases ha' : a = []
    · subst ha'
      exact .inl hl
    · exact .inr ⟨a, ha, ha', hl⟩
  obtain ⟨hcurrent, hdenied, hkept⟩ :=
    ((delete_obeys settings (fun _ _ hc => ⟨hc, rfl, fun _ _ => rfl⟩) hspares s).of_ok hdelete) rfl
  have hsame : s₁.world.tree.get? (settings.named s.world.current []) =
      s.world.tree.get? (settings.named s.world.current []) :=
    (((delete_thins settings arguments s).of_ok hdelete) _).resolve_right hthere
  have hon : ∀ k, k <+: settings.named s.world.current [] →
      s₁.world.tree.get? k = s.world.tree.get? k := by
    intro k hk
    by_cases heq : k = settings.named s.world.current []
    · rw [heq, hsame]
    · refine hkept k ?_
      rintro (hp | ⟨a, ha, hne, hp⟩)
      · exact heq (hk.eq_of_length_le hp.length_le)
      · exact hu a ha hne (hp.trans hk)
  refine ⟨hcurrent, ?_, ?_⟩
  · rw [World.isDenied, hdenied, hcurrent]
    exact he.allowed
  · rw [hcurrent]
    exact Tree.find_eq_ok.mpr ⟨hne, Tree.walk_congr hdown.down hwalk hon,
      (hon _ (List.prefix_refl _)).trans hget⟩

/-- Where nothing else names it, the working directory is gone after an empty argument. -/
theorem get?_delete_of_comesToEmpty {s : Session} (he : settings.Exposed s.world)
    (hc : settings.ComesToEmpty arguments s)
    (hu : ∀ a ∈ arguments, a ≠ [] →
      ¬ settings.named s.world.current a <+: settings.named s.world.current []) :
    (finalState (Builtin.delete settings arguments) s).world.tree.get?
      (settings.named s.world.current []) = none := by
  obtain ⟨hdown, hnull, -⟩ := he.pathOf_nil
  obtain ⟨before, after, s₁, rfl, hbefore⟩ := hc
  have hdelete : Builtin.delete settings (before ++ [] :: after) s =
      Builtin.delete settings ([] :: after) s₁ := untilExit_append_of_next hbefore _
  rw [finalState_of_eq hdelete]
  by_cases hnone : s₁.world.tree.get? (settings.named s.world.current []) = none
  · exact (delete_thins settings ([] :: after) s₁).of_none hnone
  · obtain ⟨hcurrent, hallowed, hfind⟩ :=
      he.after_delete settings hbefore (fun a ha => hu a (by simp [ha])) hnone
    have hone := Builtin.deleteOne_of_find (hcurrent ▸ hdown) hallowed hnull hfind
    have hrest : Builtin.delete settings ([] :: after) s₁ = _ := untilExit_cons_of_next hone after
    rw [finalState_of_eq hrest]
    refine (delete_thins settings after _).of_none ?_
    rw [hcurrent]
    exact (Tree.get?_remove _ _ _ hdown.below).trans
      (if_pos (List.isPrefixOf_iff_prefix.mpr (List.prefix_refl _)))

/-- As long as no empty argument is come to, the others take away what they name. -/
theorem delete_spares_of_not_comesToEmpty {s : Session}
    (hc : ¬ settings.ComesToEmpty arguments s) :
    settings.SparesUnnamed arguments s.world
      (finalState (Builtin.delete settings arguments) s).world := by
  obtain ⟨reached, hreached, hempty, hend⟩ : ∃ reached, reached ⊆ arguments ∧ [] ∉ reached ∧
      Builtin.delete settings arguments s = Builtin.delete settings reached s := by
    have hbefore {before items : List Text} {s' : Session} (hl : before ++ items = arguments)
        (h : Builtin.delete settings before s = .ok .next s') : [] ∉ before := by
      intro hm
      obtain ⟨first, second, rfl⟩ := List.append_of_mem hm
      obtain ⟨s₁, hfirst, -⟩ := untilExit_append_eq_next h
      exact hc ⟨first, second ++ items, s₁, by simp [← hl], hfirst⟩
    obtain ⟨s', hs'⟩ | ⟨before, a, after, s₁, hl, hb, hlast⟩ :=
      untilExit_cases (Builtin.deleteOne settings) arguments s
    · exact ⟨arguments, List.Subset.refl _, hbefore (List.append_nil _) hs', rfl⟩
    · refine ⟨before ++ [a], by simp [hl], ?_, ?_⟩
      · rw [List.mem_append, not_or]
        refine ⟨hbefore hl.symm hb, fun hm => hc ⟨before, after, s₁, ?_, hb⟩⟩
        rw [hl, List.mem_singleton.mp hm]
      · refine hlast.trans (Eq.symm ?_)
        exact (untilExit_append_of_next hb [a]).trans (untilExit_singleton _ a s₁)
  have hspares := delete_obeys settings (fun _ _ hc => ⟨hc, rfl, fun _ _ => rfl⟩)
    (removePath_spares_named settings fun hm => absurd hm hempty) s rfl
  intro l hl
  rw [finalState_of_eq hend]
  refine hspares.2.2 l ?_
  rintro ⟨a, ha, hne, hp⟩
  exact hl a (hreached ha) hne hp

/-- Deleting spares what is not named if and only if, when an empty argument is come to, another one
names the working directory. -/
theorem delete_spares_iff {s : Session} (he : settings.Exposed s.world) :
    settings.SparesUnnamed arguments s.world
        (finalState (Builtin.delete settings arguments) s).world ↔
      (settings.ComesToEmpty arguments s →
        ∃ a ∈ arguments, a ≠ [] ∧
          settings.named s.world.current a <+: settings.named s.world.current []) := by
  refine ⟨fun h hc => ?_, fun h => ?_⟩
  · by_contra hu
    replace hu : ∀ a ∈ arguments, a ≠ [] →
        ¬ settings.named s.world.current a <+: settings.named s.world.current [] :=
      fun a ha hne hp => hu ⟨a, ha, hne, hp⟩
    have hgone := get?_delete_of_comesToEmpty settings he hc hu
    rw [h _ hu, Settings.named, (Tree.find_eq_ok.mp he.pathOf_nil.2.2).2.2] at hgone
    cases hgone
  · by_cases hc : settings.ComesToEmpty arguments s
    · exact fun l hl => ((delete_obeys settings (fun _ _ hc => ⟨hc, rfl, fun _ _ => rfl⟩)
        (removePath_spares_named settings fun _ => h hc)) s rfl).2.2 l
          fun ⟨a, ha, hne, hp⟩ => hl a ha hne hp
    · exact delete_spares_of_not_comesToEmpty settings hc

theorem comesToEmpty_of_next {s s' : Session}
    (h : Builtin.delete settings arguments s = .ok .next s') (hm : [] ∈ arguments) :
    settings.ComesToEmpty arguments s := by
  obtain ⟨before, after, rfl⟩ := List.append_of_mem hm
  obtain ⟨s₁, hbefore, -⟩ := untilExit_append_eq_next h
  exact ⟨before, after, s₁, rfl, hbefore⟩

theorem mem_of_comesToEmpty {s : Session} (h : settings.ComesToEmpty arguments s) :
    [] ∈ arguments := by
  obtain ⟨before, after, s₁, rfl, -⟩ := h
  simp

end

/-- A line that deletes leaves alone what its arguments do not name, unless an empty one is come to
and no other names the working directory. Then it removes that directory, wherever it can. -/
theorem executeLine_spares {settings : Settings} {nested : Interpreter.Nested}
    {line resolved : Text} {arguments : List Text} {s s' : Session}
    (hl : splitAssignment line = none) (hr : resolveMacros line s = .ok resolved s')
    (hd : DeletesWith (tokenize resolved) arguments) :
    (settings.Guarded s.world.current arguments →
      settings.SparesUnnamed arguments s.world
        (finalState (Interpreter.executeLine settings nested line) s).world) ∧
    (∀ name, tokenize resolved = name :: arguments → headOf name = .builtin .delete →
      settings.Exposed s.world →
      (settings.SparesUnnamed arguments s.world
        (finalState (Interpreter.executeLine settings nested line) s).world ↔
      (settings.ComesToEmpty arguments (s'.announced .delete arguments) →
        ∃ a ∈ arguments, a ≠ [] ∧
          settings.named s.world.current a <+: settings.named s.world.current [])) ∧
      ∀ s₁, Interpreter.executeLine settings nested line s = .ok .next s₁ →
        (settings.SparesUnnamed arguments s.world
          (finalState (Interpreter.executeLine settings nested line) s).world ↔
        settings.Guarded s.world.current arguments)) := by
  obtain ⟨ht, hc, hn⟩ := (resolveMacros_sameFiles line s).of_ok hr
  have he : Interpreter.executeLine settings nested line s =
      Interpreter.execute settings nested (tokenize resolved) s' :=
    executeLine_of_command hl hr
  have hs (w : World) : settings.SparesUnnamed arguments s.world w ↔
      settings.SparesUnnamed arguments s'.world w := by
    rw [Settings.SparesUnnamed, Settings.SparesUnnamed, ht, hc]
  rw [finalState_of_eq he, ← hc]
  have hg := execute_spares_of_guarded settings nested hd s'
  refine ⟨fun h => (hs _).mpr (hg h), fun name hname hdelete hx => ?_⟩
  have hx' : settings.Exposed (s'.announced .delete arguments).world := by
    refine ⟨?_, ?_, ?_, hx.clean⟩
    · exact (congrArg₂ (fun (t : Tree) c => t.find c settings.directory) ht hc).trans hx.isDirectory
    · exact (congrArg (Tree.Descends · settings.directory) hc).mpr hx.descends
    · exact (congrArg₂ (fun d c => d.contains (Path.absolute c (settings.pathOf []))) hn hc).trans
        hx.allowed
  have hdel : Interpreter.execute settings nested (tokenize resolved) s' =
      Builtin.delete settings arguments (s'.announced .delete arguments) := by
    rw [hname]
    exact execute_of_plain hdelete rfl
  have hiff := @delete_spares_iff settings arguments _ hx'
  rw [← finalState_of_eq hdel] at hiff
  refine ⟨(hs _).trans hiff, fun s₁ hnext => ((hs _).trans hiff).trans ?_⟩
  have hend := hdel.symm.trans (he.symm.trans hnext)
  exact ⟨fun h hm => h (comesToEmpty_of_next settings hend hm),
    fun h hm => h (mem_of_comesToEmpty settings hm)⟩

namespace Deletion

def home : Session where
  world :=
    { tree := ⟨[(["work".toList], .directory), (["work".toList, "a b".toList], .file []),
        (["work".toList, "keep".toList], .file [])]⟩
      current := "/work".toList }

def settings : Settings where
  resources := .memory []
  version := [1]
  directory := "/work".toList

end Deletion

open Deletion in
theorem executeLine_spares_quoted :
    settings.SparesUnnamed ["\"a b\"".toList] home.world
      (finalState (Interpreter.executeLine settings (Interpreter.levels settings 1)
        "IfExists keep Delete \"a b\"".toList) home).world := by
  have hl : splitAssignment "IfExists keep Delete \"a b\"".toList = none := by decide +kernel
  have hr : resolveMacros "IfExists keep Delete \"a b\"".toList home =
      .ok "IfExists keep Delete \"a b\"".toList home := rfl
  have ht : tokenize "IfExists keep Delete \"a b\"".toList =
      ["IfExists".toList, "keep".toList, "Delete".toList, "\"a b\"".toList] := by decide +kernel
  have hc : headOf "IfExists".toList = .builtin .ifExists := by decide +kernel
  have hd : headOf "Delete".toList = .builtin .delete := by decide +kernel
  refine (executeLine_spares hl hr ?_).1 ?_
  · rw [ht]
    exact .under hc rfl (.here hd)
  · intro h
    simp at h

open Deletion in
/-- With two spaces before its argument, the line removes the file beside the one it names. -/
theorem executeLine_two_spaces :
    tokenize "Delete  \"a b\"".toList = ["Delete".toList, [], "\"a b\"".toList] ∧
    ¬ settings.named home.world.current "\"a b\"".toList <+: ["work".toList, "keep".toList] ∧
    home.world.tree.get? ["work".toList, "keep".toList] = some (.file []) ∧
    (finalState (Interpreter.executeLine settings (Interpreter.levels settings 1)
      "Delete  \"a b\"".toList) home).world.tree.get? ["work".toList, "keep".toList] = none := by
  decide +kernel

end Rollout
