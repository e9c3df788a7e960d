import Rollout.Proofs.Archive.Capture
import Rollout.Proofs.BaseDirectory
import Rollout.Proofs.Extraction

namespace Rollout

open Text Location

namespace Path

def IsPlain (p : Text) : Prop := ∀ name ∈ segments p, name ≠ dot ∧ name ≠ dotDot

instance (p : Text) : Decidable (IsPlain p) := by
  unfold IsPlain
  infer_instance

variable {p : Text}

theorem IsPlain.proper (h : IsPlain p) :
    ∀ name ∈ segments p, isStay name = false ∧ name ≠ dotDot := by
  intro name hname
  obtain ⟨hdot, hdotDot⟩ := h name hname
  exact ⟨by simp [isStay, hdot, (mem_segments hname).1], hdotDot⟩

end Path

theorem prefix_of_mem_stops {names : List Text} {l s : Location}
    (h : ∀ name ∈ names, isStay name = false ∧ name ≠ Path.dotDot) (hs : s ∈ stops l names) :
    s <+: l ++ names := by
  induction names generalizing l with
  | nil => simp [stops] at hs
  | cons name rest ih =>
    obtain ⟨hstay, hdotDot⟩ := h name (by simp)
    rw [stops, hstay, if_neg (by simp), if_neg hdotDot] at hs
    split_ifs at hs
    · rw [List.append_cons]
      obtain rfl | hs := List.mem_cons.mp hs
      · exact List.prefix_append _ _
      · exact ih (fun n hn => h n (by simp [hn])) hs
    · simp at hs

def Record.place (current directory : Text) (r : Record) : Location :=
  spot current directory ++ Path.segments r.path

/-- The places above the file of a record, and those that the path of the target goes through on the
way to it. -/
def OnTheWay (current directory : Text) (rs : List Record) (l : Location) : Prop :=
  ∃ r ∈ rs, l <+: r.place current directory ∨
    l ∈ stops (origin current directory) (Path.names directory)

/-- Between two worlds the records have been extracted: of those for one place the last has won. All
else is as it was, but for directories that were missing on the way. -/
structure Extracted (directory : Text) (rs : List Record) (w w' : World) : Prop where
  same : w' = { w with tree := w'.tree, journal := w'.journal }
  grounded : w'.tree.Grounded
  below : ∀ r ∈ rs, Path.segments r.path ≠ []
  last : ∀ before r after, rs = before ++ r :: after →
    (∀ r' ∈ after, r'.place w.current directory ≠ r.place w.current directory) →
    w'.tree.get? (r.place w.current directory) = some (.file r.content)
  directories : KeepsDirectories w w'
  rest : ∀ l, (∀ r ∈ rs, r.place w.current directory ≠ l) →
    w'.tree.get? l = w.tree.get? l ∨
    w.tree.get? l = none ∧ w'.tree.get? l = some .directory ∧ OnTheWay w.current directory rs l

variable {current directory : Text} {r : Record} {rs : List Record} {w w₁ w' : World}

theorem onTheWay_cons {l : Location} :
    OnTheWay current directory (r :: rs) l ↔
      OnTheWay current directory [r] l ∨ OnTheWay current directory rs l := by
  simp [OnTheWay]

/-- What a record has written lasts until a later record writes there. -/
theorem Extracted.cons (h : Extracted directory [r] w w₁) (h' : Extracted directory rs w₁ w') :
    Extracted directory (r :: rs) w w' := by
  have hcurrent : w₁.current = w.current := by rw [h.same]
  obtain ⟨hsame', hground', hbelow', hlast', hdirectories', hrest'⟩ := h'
  rw [hcurrent] at hlast' hrest'
  refine ⟨?_, hground', ?_, fun before r₀ after he hafter => ?_,
    fun l hl => hdirectories' l (h.directories l hl), fun l hl => ?_⟩
  · rw [hsame', h.same]
  · exact List.forall_mem_cons.mpr ⟨h.below r (by simp), hbelow'⟩
  · cases before with
    | nil =>
      obtain ⟨rfl, rfl⟩ := List.cons.inj he
      have hfile := h.last [] r [] rfl (by simp)
      obtain heq | ⟨hnone, -⟩ := hrest' (r.place w.current directory) hafter
      · exact heq.trans hfile
      · rw [hfile] at hnone
        cases hnone
    | cons r' before =>
      obtain ⟨rfl, rfl⟩ := List.cons.inj he
      exact hlast' before r₀ after rfl hafter
  · obtain ⟨hr, hrs⟩ := List.forall_mem_cons.mp hl
    have hfirst := h.rest l (by simpa using hr)
    rw [onTheWay_cons]
    obtain heq | ⟨hnone, hmade, hway⟩ := hrest' l hrs
    · rw [heq]
      exact hfirst.imp_right fun ⟨hnone, hmade, hway⟩ => ⟨hnone, hmade, .inl hway⟩
    · obtain heq | ⟨-, hdirectory, -⟩ := hfirst
      · exact .inr ⟨heq ▸ hnone, hmade, .inr hway⟩
      · rw [hdirectory] at hnone
        cases hnone

namespace Archiver

structure ParentMade (directory : Text) (r : Record) (w : World) (t : Tree) : Prop where
  grounded : t.Grounded
  below : Path.segments r.path ≠ []
  above : ∃ above name, r.place w.current directory = above ++ [name] ∧
    t.get? above = some .directory
  free : t.get? (r.place w.current directory) ≠ some .directory
  made : ∀ l, t.get? l = w.tree.get? l ∨
    w.tree.get? l = none ∧ t.get? l = some .directory ∧ OnTheWay w.current directory [r] l

theorem ParentMade.keeps {t : Tree} (h : ParentMade directory r w t) {l : Location}
    (hl : w.tree.get? l = some .directory) : t.get? l = some .directory := by
  obtain he | ⟨hnone, -⟩ := h.made l
  · exact he.trans hl
  · rw [hl] at hnone
    cases hnone

theorem ParentMade.extracted {t : Tree} (h : ParentMade directory r w t)
    (hw : w' = { w with
      tree := t.insert (r.place w.current directory) (.file r.content)
      journal := w'.journal }) : Extracted directory [r] w w' := by
  obtain ⟨above, name, hplace, habove⟩ := h.above
  have hne : r.place w.current directory ≠ [] := by simp [hplace]
  have htree : w'.tree = t.insert (r.place w.current directory) (.file r.content) := by rw [hw]
  refine ⟨by rw [hw], ?_, by simpa using h.below, fun before r' after he _ => ?_, fun l hl => ?_,
    fun l hl => ?_⟩
  · have hfree := h.free
    rw [htree, hplace] at *
    exact h.grounded.insert habove hfree _
  · obtain ⟨rfl, hr, rfl⟩ : before = [] ∧ r = r' ∧ after = [] := by
      simpa [List.append_eq_singleton_iff, eq_comm] using he
    subst hr
    rw [htree, Tree.get?_insert_self _ hne]
  · have hother : l ≠ r.place w.current directory := by
      rintro rfl
      exact h.free (h.keeps hl)
    rw [htree, Tree.get?_insert_of_ne _ hother]
    exact h.keeps hl
  · have hother : l ≠ r.place w.current directory := (hl r (by simp)).symm
    rw [htree, Tree.get?_insert_of_ne _ hother]
    exact h.made l

end Archiver

end Rollout
