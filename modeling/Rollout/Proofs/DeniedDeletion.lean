import Rollout.Proofs.Conduct
import Rollout.Proofs.Coupling
import Rollout.Proofs.WorkingDirectory

namespace Rollout

open Text Location Script

namespace Tree

def lessAll (t : Tree) (gone : List Location) : Tree :=
  ⟨t.entries.filter fun e => !gone.any (·.isPrefixOf e.1)⟩

variable {t : Tree} {l : Location}

theorem lessAll_nil (t : Tree) : t.lessAll [] = t := by simp [lessAll]

theorem lessAll_lessAll (t : Tree) (gone more : List Location) :
    (t.lessAll gone).lessAll more = t.lessAll (gone ++ more) := by
  simp [lessAll, List.filter_filter, Bool.and_comm]

theorem remove_eq_lessAll (t : Tree) (l : Location) : t.remove l = t.lessAll [l] := by
  simp [remove, lessAll]

theorem get?_lessAll (t : Tree) (gone : List Location) (hl : l ≠ []) :
    (t.lessAll gone).get? l = if ∃ g ∈ gone, g <+: l then none else t.get? l := by
  induction gone generalizing t with
  | nil => simp [lessAll_nil]
  | cons g gone ih =>
    rw [← List.singleton_append, ← lessAll_lessAll, ih, ← remove_eq_lessAll, get?_remove _ _ _ hl]
    by_cases hg : g <+: l <;> simp [hg]

theorem lessAll_congr {gone gone' : List Location} (h : ∀ g, g ∈ gone ↔ g ∈ gone') (t : Tree) :
    t.lessAll gone = t.lessAll gone' := by
  have hany (e : Location × Node) :
      gone.any (·.isPrefixOf e.1) = gone'.any (·.isPrefixOf e.1) := by
    rw [Bool.eq_iff_iff]
    simp only [List.any_eq_true, h]
  simp only [lessAll, hany]

theorem isSome_get?_of_mem {e : Location × Node} (h : e ∈ t.entries) : (t.get? e.1).isSome := by
  rw [get?]
  split
  · rfl
  · rw [Option.isSome_iff_ne_none, ne_eq, List.lookup_eq_none_iff]
    exact fun hnone => by simpa using hnone e h

theorem Grounded.lessAll_of_none (ht : t.Grounded) (h : t.get? l = none) : t.lessAll [l] = t := by
  have hkeep : ∀ e ∈ t.entries, (!l.isPrefixOf e.1) = true := by
    intro e he
    by_contra hp
    obtain ⟨k, hk⟩ : l <+: e.1 := by simpa using hp
    have hsome := isSome_get?_of_mem he
    rw [← hk] at hsome
    by_cases hnil : k = []
    · simp [hnil, h] at hsome
    · rw [ht.get?_above hsome hnil] at h
      cases h
  rw [← remove_eq_lessAll, remove, List.filter_eq_self.mpr hkeep]

theorem Sound.lessAll (ht : t.Sound) (gone : List Location) : (t.lessAll gone).Sound := by
  have hless {l : Location} (hl : l ≠ []) (h : ((t.lessAll gone).get? l).isSome) :
      (¬ ∃ g ∈ gone, g <+: l) ∧ (t.get? l).isSome := by
    rw [get?_lessAll t gone hl] at h
    split at h
    · cases h
    · next hg => exact ⟨hg, h⟩
  refine ⟨fun l name h => ?_, fun l h name hn => ?_⟩
  · obtain ⟨hg, hsome⟩ := hless (by simp) h
    by_cases hl : l = []
    · rw [hl]
      rfl
    · rw [get?_lessAll t gone hl, if_neg, ht.grounded l name hsome]
      rintro ⟨g, hm, hp⟩
      exact hg ⟨g, hm, hp.trans (List.prefix_append l [name])⟩
  · exact ht.isName l (hless (List.ne_nil_of_mem hn) h).2 name hn

end Tree

/-- Once unquoted, an argument is a relative path that leads down by each of its components. -/
structure LeadsDown (argument : Text) : Prop where
  proper : ∀ c ∈ Path.components (unquote argument), c ≠ [] ∧ c ≠ Path.dot ∧ c ≠ Path.dotDot

namespace LeadsDown

variable {argument : Text} (h : LeadsDown argument)

include h

theorem names_eq : Path.names (unquote argument) = Path.components (unquote argument) :=
  List.filter_eq_self.mpr fun c hc => by simpa using (h.proper c hc).1

theorem ne_nil : unquote argument ≠ [] := by
  intro hnil
  have hc := h.proper []
  rw [hnil] at hc
  exact (hc (by decide)).1 rfl

theorem relative : Path.isAbsolute (unquote argument) = false := by
  by_contra habs
  obtain ⟨rest, hrest⟩ : ∃ rest, unquote argument = '/' :: rest := by
    cases hp : unquote argument with
    | nil => exact absurd hp h.ne_nil
    | cons c rest => exact ⟨rest, by simpa [Path.isAbsolute, hp] using habs⟩
  refine (h.proper [] ?_).1 rfl
  rw [hrest, ← List.nil_append ('/' :: rest), Path.components_append]
  simp [Path.components]

theorem noSlash : endsWith (unquote argument) ['/'] = false := by
  by_contra hs
  obtain ⟨start, hstart⟩ := Path.endsWith_iff.mp (by simpa using hs)
  refine (h.proper [] ?_).1 rfl
  rw [← hstart, Path.components_append]
  simp [Path.components]

end LeadsDown

theorem Rooted.descends {path : Text} (h : Rooted path) (hne : Path.names path ≠ [])
    (current : Text) : Tree.Descends current path := by
  have hnames : Tree.namesOf current path = Path.components path := if_pos h.absolute
  refine ⟨fun hup => ?_, fun hdot => ?_, by rwa [h.spot_eq]⟩
  · rw [hnames] at hup
    exact (h.isName _ (Path.mem_names.mpr ⟨hup, by decide⟩)).ne_dotDot rfl
  · have hmem := (List.mem_filter (p := fun name : Text => !name.isEmpty)).mpr
      ⟨List.mem_of_getLast? hdot, by decide⟩
    rw [Tree.filter_dropEmptyEnd, hnames] at hmem
    exact absurd (h.isName Path.dot hmem).notStay (by decide)

section

variable {settings : Settings} {argument : Text} {w : World}
  (hd : Settled w.current settings.directory) (ha : LeadsDown argument)

include hd ha

theorem LeadsDown.named_eq :
    settings.named w.current argument =
      Path.names settings.directory ++ Path.components (unquote argument) := by
  rw [Settings.named, Settings.pathOf, hd.spot_join ha.relative, ha.names_eq]
  rw [ha.names_eq]
  exact fun n hn => (ha.proper n hn).2

theorem LeadsDown.rooted (ht : w.tree.Sound)
    (h : (w.tree.get? (settings.named w.current argument)).isSome) :
    Rooted (settings.pathOf argument) := by
  have hisName := ht.isName _ h
  rw [ha.named_eq hd, ← ha.names_eq] at hisName
  exact hd.rooted_join ha.relative hisName

theorem LeadsDown.leads (ht : w.tree.Sound)
    (h : (w.tree.get? (settings.named w.current argument)).isSome) :
    w.tree.Leads w.current (settings.pathOf argument) := by
  have hrooted := ha.rooted hd ht h
  rw [ha.named_eq hd, ← ha.names_eq] at h
  have hparent := ht.grounded.get?_dropLast h
  rw [← Path.names_join ha.relative] at hparent
  exact hrooted.leads w.current ht.grounded
    (endsWith_join_of_relative ha.relative ha.ne_nil ha.noSlash _) hparent

theorem LeadsDown.descends (ht : w.tree.Sound)
    (h : (w.tree.get? (settings.named w.current argument)).isSome) :
    Tree.Descends w.current (settings.pathOf argument) := by
  refine (ha.rooted hd ht h).descends ?_ _
  have hnames : Path.names (settings.pathOf argument) = _ := Path.names_join ha.relative _
  obtain ⟨cs, hcs⟩ := Path.components_eq_append (unquote argument)
  simp [hnames, ha.names_eq, hcs]

theorem LeadsDown.node?_eq (ht : w.tree.Sound) :
    w.node? (settings.pathOf argument) = w.tree.get? (settings.named w.current argument) := by
  rw [World.node?]
  cases hget : w.tree.get? (settings.named w.current argument) with
  | none =>
    cases hfind : w.tree.find w.current (settings.pathOf argument) with
    | error r => rfl
    | ok n => cases hget.symm.trans (Tree.find_eq_ok.mp hfind).2.2
  | some n =>
    rw [(ha.leads hd ht (by rw [hget]; rfl)).find hget]
    rfl

end

namespace Builtin

variable {settings : Settings} {argument : Text} {s : Session} {n : Node}

variable (hd : Settled s.world.current settings.directory) (ha : LeadsDown argument)
  (ht : s.world.tree.Sound)

include hd ha ht

theorem deleteOne_denied
    (h : s.world.tree.get? (settings.named s.world.current argument) = some n)
    (hdenied : s.world.isDenied (settings.pathOf argument) = true) :
    deleteOne settings argument s =
      fail n.accessFlag (some (Refusal.denied.message (settings.pathOf argument))) none s := by
  have hremove : removePath (settings.pathOf argument) s.world =
      .error (.refused .denied (settings.pathOf argument)) s.world := by
    rw [removePath_eq, if_pos hdenied]
  rw [deleteOne_of_some ((ha.node?_eq hd ht).trans h)]
  exact bind_of_ok (attempt_onWorld_of_error hremove)

/-- What is not there, or not denied, is gone afterwards with all that is below it. -/
theorem deleteOne_allowed
    (h : s.world.isDenied (settings.pathOf argument) = true →
      s.world.tree.get? (settings.named s.world.current argument) = none) :
    deleteOne settings argument s =
      .ok .next (s.withTree (s.world.tree.lessAll [settings.named s.world.current argument])) := by
  cases hget : s.world.tree.get? (settings.named s.world.current argument) with
  | none =>
    rw [deleteOne_of_none ((ha.node?_eq hd ht).trans hget), ht.grounded.lessAll_of_none hget]
    rfl
  | some n =>
    have hleads := ha.leads hd ht (by rw [hget]; rfl)
    have hallowed : s.world.isDenied (settings.pathOf argument) = false := by
      by_contra hdenied
      rw [h (by simpa using hdenied)] at hget
      cases hget
    rw [deleteOne_of_find (ha.descends hd ht (by rw [hget]; rfl)) hallowed hleads.noNull
      (hleads.find hget), Tree.remove_eq_lessAll]

end Builtin

theorem Status.contains_add (status : Status) (flag : Flag) :
    (status.add flag).contains flag = true := by
  have hflag : flag.bit ≠ 0 := by cases flag <;> decide
  simp [Status.contains, Status.add, Status.union, Status.ofFlag, Nat.and_or_distrib_right, hflag]

/-- After the arguments before it, an argument is there and its removal is denied. -/
def Settings.Stuck (settings : Settings) (w : World) (before : List Text) (argument : Text)
    (n : Node) : Prop :=
  w.isDenied (settings.pathOf argument) = true ∧
    (w.tree.lessAll (before.map (settings.named w.current))).get?
      (settings.named w.current argument) = some n

def Settings.Clear (settings : Settings) (w : World) (arguments : List Text) : Prop :=
  ∀ before argument after n, arguments = before ++ argument :: after →
    ¬ settings.Stuck w before argument n

/-- Where some argument is there and denied at its turn, there is a first such. -/
theorem Settings.exists_first_stuck {settings : Settings} {w : World} {arguments : List Text}
    (h : ¬ settings.Clear w arguments) :
    ∃ before argument after n, arguments = before ++ argument :: after ∧
      settings.Clear w before ∧ settings.Stuck w before argument n := by
  induction arguments using List.reverseRecOn with
  | nil => exact absurd (fun before argument after n he => by simp at he) h
  | append_singleton arguments a ih =>
    by_cases hc : settings.Clear w arguments
    · simp only [Settings.Clear, not_forall, not_not] at h
      obtain ⟨before, argument, after, n, he, hstuck⟩ := h
      cases after using List.reverseRecOn with
      | nil =>
        obtain ⟨rfl, ha⟩ := List.append_inj' he rfl
        exact ⟨_, argument, [], n, he, hc, hstuck⟩
      | append_singleton after b =>
        rw [← List.cons_append, ← List.append_assoc] at he
        exact absurd hstuck (hc before argument after n (List.append_inj' he rfl).1)
    · obtain ⟨before, argument, after, n, rfl, hbefore, hstuck⟩ := ih hc
      exact ⟨before, argument, after ++ [a], n, by simp, hbefore, hstuck⟩

/-- Between two sessions nothing but files, the status and the log has changed. -/
structure Tacit (s s' : Session) : Prop where
  eq : s' = { s with
    status := s'.status
    world := { s.world with tree := s'.world.tree, journal := s'.world.journal } }
  trace : s'.world.journal.trace = s.world.journal.trace

instance : IsPreorder Session Tacit where
  refl _ := ⟨rfl, rfl⟩
  trans := by
    intro r s t hrs hst
    refine ⟨?_, hst.trace.trans hrs.trace⟩
    rw [hst.eq, hrs.eq]

namespace Builtin

variable {settings : Settings} {arguments : List Text} {s : Session}

theorem delete_cons (settings : Settings) (argument : Text) (arguments : List Text) (s : Session) :
    delete settings (argument :: arguments) s = (do
      match ← deleteOne settings argument with
      | .exit => pure .exit
      | .next => delete settings arguments : Action Session Flow) s := rfl

/-- As long as nothing that is there is denied, all that is named is removed in turn. -/
theorem delete_clear (hd : Settled s.world.current settings.directory) (ht : s.world.tree.Sound)
    {before : List Text} (ha : ∀ a ∈ before, LeadsDown a) (hclear : settings.Clear s.world before)
    (rest : List Text) :
    delete settings (before ++ rest) s =
      delete settings rest (s.withTree
        (s.world.tree.lessAll (before.map (settings.named s.world.current)))) := by
  induction before using List.reverseRecOn generalizing rest with
  | nil =>
    rw [List.map_nil, Tree.lessAll_nil]
    rfl
  | append_singleton before a ih =>
    have hbefore : settings.Clear s.world before := fun earlier b later n he =>
      hclear earlier b (later ++ [a]) n (by simp [he])
    rw [List.append_assoc, ih (fun b hb => ha b (by simp [hb])) hbefore, List.singleton_append,
      delete_cons]
    generalize hless : s.world.tree.lessAll (before.map (settings.named s.world.current)) = less
    have hsound : less.Sound := hless ▸ ht.lessAll _
    have hstep := deleteOne_allowed (s := s.withTree less) hd (ha a (by simp)) hsound
      fun hdenied => by
        by_contra hsome
        obtain ⟨n, hn⟩ := Option.ne_none_iff_exists'.mp hsome
        exact hclear before a [] n rfl ⟨hdenied, by rw [hless]; exact hn⟩
    rw [bind_of_ok hstep, List.map_append, ← Tree.lessAll_lessAll, hless]
    rfl

/-- The first argument that is there and denied ends the run. -/
theorem delete_stuck (hd : Settled s.world.current settings.directory) (ht : s.world.tree.Sound)
    (hstrict : s.store.ignoreErrors = false) {before after : List Text} {argument : Text} {n : Node}
    (ha : ∀ a ∈ before ++ argument :: after, LeadsDown a)
    (hclear : settings.Clear s.world before) (hstuck : settings.Stuck s.world before argument n) :
    ∃ message,
      delete settings (before ++ argument :: after) s =
        .ok .exit ((s.withTree
          (s.world.tree.lessAll (before.map (settings.named s.world.current)))).endedBy
            (s.report n.accessFlag message none)) := by
  rw [delete_clear hd ht (fun a hm => ha a (by simp [hm])) hclear, delete_cons]
  generalize hless : s.world.tree.lessAll (before.map (settings.named s.world.current)) = less
  have hstep := deleteOne_denied (s := s.withTree less) hd (ha argument (by simp))
    (hless ▸ ht.lessAll _) (hless ▸ hstuck.2) hstuck.1
  rw [fail_of_strict (s := s.withTree less) hstrict] at hstep
  exact ⟨_, bind_of_ok hstep⟩

end Builtin

def Settings.allowed (settings : Settings) (w : World) (arguments : List Text) : List Location :=
  (arguments.filter fun a => !w.isDenied (settings.pathOf a)).map (settings.named w.current)

theorem Settings.allowed_cons (settings : Settings) (w : World) (a : Text) (arguments : List Text) :
    settings.allowed w (a :: arguments) = settings.allowed w [a] ++ settings.allowed w arguments := by
  rw [← List.singleton_append, Settings.allowed, List.filter_append, List.map_append]
  rfl

theorem Settings.allowed_congr {settings : Settings} {w w' : World} (hc : w'.current = w.current)
    (hd : w'.denied = w.denied) (arguments : List Text) :
    settings.allowed w' arguments = settings.allowed w arguments := by
  simp only [Settings.allowed, World.isDenied, hc, hd]

theorem Tacit.ignoreErrors {s s' : Session} (h : Tacit s s') :
    s'.store.ignoreErrors = s.store.ignoreErrors := congrArg (·.store.ignoreErrors) h.eq

theorem Tacit.current {s s' : Session} (h : Tacit s s') : s'.world.current = s.world.current :=
  congrArg (·.world.current) h.eq

theorem Tacit.denied {s s' : Session} (h : Tacit s s') : s'.world.denied = s.world.denied :=
  congrArg (·.world.denied) h.eq

theorem tacit_withTree (s : Session) (tree : Tree) : Tacit s (s.withTree tree) := ⟨rfl, rfl⟩

theorem fail_tacit {s : Session} (h : s.store.ignoreErrors = true) (flag : Flag)
    (message : Option Text) (exitCode : Option Int) :
    ∃ s', fail flag message exitCode s = .ok .next s' ∧ s'.world.tree = s.world.tree ∧
      Tacit s s' := by
  refine ⟨_, fail_of_ignoring h flag message exitCode, rfl, rfl, ?_⟩
  exact (Journal.trace_append _ _).trans (List.append_nil _)

namespace Builtin

variable {settings : Settings} {arguments : List Text} {s : Session}

/-- While errors are ignored, an argument that is denied is passed over. -/
theorem deleteOne_ignoring (hd : Settled s.world.current settings.directory)
    (ht : s.world.tree.Sound) (hignore : s.store.ignoreErrors = true) {argument : Text}
    (ha : LeadsDown argument) :
    ∃ s', deleteOne settings argument s = .ok .next s' ∧
      s'.world.tree = s.world.tree.lessAll (settings.allowed s.world [argument]) ∧ Tacit s s' := by
  cases hdenied : s.world.isDenied (settings.pathOf argument) with
  | false =>
    refine ⟨_, deleteOne_allowed hd ha ht (by simp [hdenied]), ?_, tacit_withTree s _⟩
    simp [Session.withTree, Settings.allowed, hdenied]
  | true =>
    have hnone : settings.allowed s.world [argument] = [] := by simp [Settings.allowed, hdenied]
    rw [hnone, Tree.lessAll_nil]
    cases hget : s.world.tree.get? (settings.named s.world.current argument) with
    | none =>
      refine ⟨_, deleteOne_allowed hd ha ht fun _ => hget, ?_, tacit_withTree s _⟩
      exact ht.grounded.lessAll_of_none hget
    | some n =>
      rw [deleteOne_denied hd ha ht hget hdenied]
      exact fail_tacit hignore _ _ _

/-- While errors are ignored, all that is named and not denied is removed in turn. -/
theorem delete_ignoring (hd : Settled s.world.current settings.directory)
    (ht : s.world.tree.Sound) (hignore : s.store.ignoreErrors = true)
    (ha : ∀ a ∈ arguments, LeadsDown a) :
    ∃ s', delete settings arguments s = .ok .next s' ∧
      s'.world.tree = s.world.tree.lessAll (settings.allowed s.world arguments) ∧ Tacit s s' := by
  induction arguments generalizing s with
  | nil => exact ⟨s, rfl, (Tree.lessAll_nil _).symm, refl s⟩
  | cons a arguments ih =>
    obtain ⟨s₁, hfirst, htree, htacit⟩ := deleteOne_ignoring hd ht hignore (ha a (by simp))
    obtain ⟨s₂, hrest, htree₂, htacit₂⟩ := ih (by rw [htacit.current]; exact hd)
      (htree ▸ ht.lessAll _) (htacit.ignoreErrors.trans hignore) fun b hb => ha b (by simp [hb])
    refine ⟨s₂, ?_, ?_, IsTrans.trans _ _ _ htacit htacit₂⟩
    · rw [delete_cons, bind_of_ok hfirst]
      exact hrest
    · rw [htree₂, htree, Settings.allowed_congr htacit.current htacit.denied, Tree.lessAll_lessAll,
        ← Settings.allowed_cons]

/-- Deleting where some paths are denied. While errors are ignored, all that the arguments name and
that is not denied itself is gone, in whatever order they are given, and the host hears nothing.
Otherwise the first argument that is there at its turn and denied, if there is any such, ends the
run: what is named before it is gone and nothing else, and the host hears of one failure, with the
flag for what is there. Without such an argument all that is named is gone and nothing else. -/
theorem delete_denied (hd : Settled s.world.current settings.directory) (ht : s.world.tree.Sound)
    (ha : ∀ a ∈ arguments, LeadsDown a) :
    (s.store.ignoreErrors = true →
      ∃ s', delete settings arguments s = .ok .next s' ∧
        s'.world.tree = s.world.tree.lessAll (settings.allowed s.world arguments) ∧ Tacit s s' ∧
        ∀ arguments', arguments'.Perm arguments →
          (finalState (delete settings arguments') s).world.tree = s'.world.tree) ∧
    (s.store.ignoreErrors = false →
      (¬ settings.Clear s.world arguments →
        ∃ before argument after n, arguments = before ++ argument :: after ∧
          settings.Clear s.world before ∧ settings.Stuck s.world before argument n) ∧
      (∀ before argument after n, arguments = before ++ argument :: after →
        settings.Clear s.world before → settings.Stuck s.world before argument n →
        ∃ s' d, delete settings arguments s = .ok .exit s' ∧
          s'.world.tree =
            s.world.tree.lessAll (before.map (settings.named s.world.current)) ∧
          s'.world.journal.trace = s.world.journal.trace ++ [.failure d] ∧
          d.status.contains n.accessFlag = true) ∧
      (settings.Clear s.world arguments →
        delete settings arguments s =
          .ok .next (s.withTree
            (s.world.tree.lessAll (arguments.map (settings.named s.world.current)))))) := by
  refine ⟨fun hignore => ?_, fun hstrict =>
    ⟨settings.exists_first_stuck, ?_, fun hclear => ?_⟩⟩
  · obtain ⟨s', hrun, htree, htacit⟩ := delete_ignoring hd ht hignore ha
    refine ⟨s', hrun, htree, htacit, fun arguments' hperm => ?_⟩
    obtain ⟨s₁, hrun₁, htree₁, -⟩ := delete_ignoring hd ht hignore fun a hm =>
      ha a (hperm.mem_iff.mp hm)
    rw [finalState_of_ok hrun₁, htree₁, htree]
    exact Tree.lessAll_congr (fun g => ((hperm.filter _).map _).mem_iff) _
  · rintro before argument after n rfl hclear hstuck
    obtain ⟨message, hrun⟩ := delete_stuck hd ht hstrict ha hclear hstuck
    exact ⟨_, _, hrun, rfl, Journal.trace_append _ _, Status.contains_add _ _⟩
  · have hrun := delete_clear hd ht ha hclear []
    rwa [List.append_nil] at hrun

end Builtin

namespace DeniedDeletion

open Deletion (settings)

def home : Session where
  world :=
    { tree := Tree.empty.insert ["work".toList] .directory
        |>.insert ["work".toList, "a".toList] .directory
        |>.insert ["work".toList, "a".toList, "b".toList] (.file [1])
        |>.insert ["work".toList, "c".toList] (.file [2])
      current := "/work".toList
      denied := ["/work/a".toList] }

theorem settled_home : Settled home.world.current settings.directory := ⟨rfl, rfl⟩

theorem sound_home : home.world.tree.Sound :=
  Tree.sound_empty
    |>.insert [] _ rfl (by decide) (by decide) _
    |>.insert ["work".toList] _ rfl (by decide) (by decide) _
    |>.insert ["work".toList, "a".toList] _ rfl (by decide) (by decide) _
    |>.insert ["work".toList] _ rfl (by decide) (by decide) _

def arguments : List Text := ["x".toList, "a/b".toList, "\"a\"".toList, "c".toList]

theorem leadsDown_arguments : ∀ a ∈ arguments, LeadsDown a := by
  have hproper : ∀ a ∈ arguments, ∀ c ∈ Path.components (unquote a),
      c ≠ [] ∧ c ≠ Path.dot ∧ c ≠ Path.dotDot := by decide +kernel
  exact fun a ha => ⟨hproper a ha⟩

end DeniedDeletion

open DeniedDeletion in
open Deletion (settings) in
theorem Builtin.delete_denied_home :
    ∃ s' d, Builtin.delete settings arguments home = .ok .exit s' ∧
      s'.world.tree.get? ["work".toList, "a".toList] = some .directory ∧
      s'.world.tree.get? ["work".toList, "a".toList, "b".toList] = none ∧
      s'.world.tree.get? ["work".toList, "c".toList] = some (.file [2]) ∧
      s'.world.journal.trace = [.failure d] ∧
      d.status.contains .directoryAccessDenied = true := by
  obtain ⟨-, hstrict⟩ := Builtin.delete_denied settled_home sound_home leadsDown_arguments
  have hclear : settings.Clear home.world ["x".toList, "a/b".toList] := by
    rintro before argument after n he ⟨hdenied, -⟩
    have hmem : argument ∈ ["x".toList, "a/b".toList] := by
      rw [he]
      simp
    have hfree : ∀ a ∈ ["x".toList, "a/b".toList],
        home.world.isDenied (settings.pathOf a) = false := by decide +kernel
    rw [hfree argument hmem] at hdenied
    cases hdenied
  have hstuck : settings.Stuck home.world ["x".toList, "a/b".toList] "\"a\"".toList .directory := by
    refine ⟨?_, ?_⟩ <;> decide +kernel
  obtain ⟨s', d, hrun, htree, htrace, hflag⟩ :=
    (hstrict rfl).2.1 _ _ ["c".toList] _ rfl hclear hstuck
  refine ⟨s', d, hrun, ?_, ?_, ?_, htrace, hflag⟩ <;> rw [htree] <;> decide +kernel

end Rollout
