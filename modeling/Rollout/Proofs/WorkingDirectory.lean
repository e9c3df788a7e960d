import Rollout.Proofs.Archive.RoundTrip
import Rollout.Proofs.Deletion
import Rollout.Proofs.PlainLine

namespace Rollout

open Text Location Script

structure Rooted (path : Text) : Prop where
  absolute : Path.isAbsolute path = true
  isName : ∀ n ∈ Path.names path, IsName n

namespace Rooted

variable {path : Text} (h : Rooted path) (current : Text)

include h

theorem origin_eq : origin current path = [] := if_pos h.absolute

theorem spot_eq : spot current path = Path.names path := by
  rw [Rollout.spot_eq, h.origin_eq, follow_of_isName h.isName, List.nil_append]

theorem mem_stops {s : Location} :
    s ∈ stops (origin current path) (Path.names path) ↔ s ≠ [] ∧ s <+: Path.names path := by
  rw [h.origin_eq, mem_stops_iff h.isName]
  simp

theorem isOpen {t : Tree} (hf : ∀ k, k <+: Path.names path →
    t.get? k = none ∨ t.get? k = some .directory) : t.Open current path := by
  refine ⟨?_, ?_, fun s hs => hf s ((h.mem_stops current).mp hs).2⟩
  · rw [if_pos h.absolute, h.origin_eq]
    rfl
  · rw [h.origin_eq]
    rfl

theorem receiver : Archiver.Receiver current path := by
  refine ⟨fun n hn => (h.isName n hn).holdable, fun s hs hp => ?_⟩
  rw [h.spot_eq] at hp ⊢
  have hle := ((h.mem_stops current).mp hs).2.length_le
  exact (hp.eq_of_length (Nat.le_antisymm hp.length_le hle)).symm

theorem leads {t : Tree} (hg : t.Grounded) (he : endsWith path ['/'] = false)
    (hd : t.get? (Path.names path).dropLast = some .directory) : t.Leads current path := by
  refine ⟨?_, he, not_mem_of_isHoldable fun n hn => (h.isName n hn).holdable, ?_⟩
  · rintro rfl
    exact absurd h.absolute (by decide)
  · rw [filter_namesOf, if_pos h.absolute, h.spot_eq, List.nil_append]
    exact hg.walk_of_directory (l := []) h.isName hd

theorem directory (he : endsWith path ['/'] = false) :
    Rooted (Path.directory path) ∧ Path.names (Path.directory path) = (Path.names path).dropLast := by
  have hne : path ≠ [] := by
    rintro rfl
    exact absurd h.absolute (by decide)
  have hn := Path.names_directory path
  rw [Path.names_fileName, if_neg (Path.fileName_ne_nil hne he)] at hn
  have hd : Path.names (Path.directory path) = (Path.names path).dropLast := by
    rw [hn, List.dropLast_concat]
  refine ⟨⟨?_, ?_⟩, hd⟩
  · rw [Path.isAbsolute_directory (Path.directory_ne_nil h.absolute), h.absolute]
  · rw [hd]
    exact fun n hm => h.isName n (List.dropLast_subset _ hm)

end Rooted

theorem Tree.Grounded.get?_dropLast {t : Tree} (ht : t.Grounded) {l : Location}
    (h : (t.get? l).isSome) : t.get? l.dropLast = some .directory := by
  cases l using List.reverseRecOn with
  | nil => rfl
  | append_singleton l name =>
    rw [List.dropLast_concat]
    exact ht l name h

theorem isPrefix_dropLast {k l : Location} (h : k <+: l) (hne : k ≠ l) : k <+: l.dropLast := by
  cases l using List.reverseRecOn with
  | nil => exact absurd (List.prefix_nil.mp h) hne
  | append_singleton l name =>
    rw [List.dropLast_concat]
    exact (List.prefix_concat_iff.mp h).resolve_left hne

theorem endsWith_slash_append (start : Text) {p : Text} (hp : p ≠ []) :
    endsWith (start ++ p) ['/'] = endsWith p ['/'] := by
  cases p using List.reverseRecOn with
  | nil => exact absurd rfl hp
  | append_singleton p c => simp [endsWith, List.isPrefixOf_cons_cons]

theorem endsWith_join_of_relative {q : Text} (hq : Path.isAbsolute q = false) (hne : q ≠ [])
    (hend : endsWith q ['/'] = false) (p : Text) : endsWith (Path.join p q) ['/'] = false := by
  unfold Path.join
  rw [if_neg (by simp [hq])]
  split
  · rw [endsWith_slash_append p hne, hend]
  · have hcons : p ++ '/' :: q = (p ++ ['/']) ++ q := by simp
    rw [hcons, endsWith_slash_append _ hne, hend]

/-- A relative path that an assignment takes as it stands, and that does not lead up. -/
structure Operand (p : Text) : Prop extends IsValue p where
  ne_nil : p ≠ []
  relative : Path.isAbsolute p = false
  proper : ∀ n ∈ Path.names p, n ≠ Path.dot ∧ n ≠ Path.dotDot

theorem unquote_of_not_mem {t : Text} (h : '"' ∉ t) : unquote t = t :=
  List.filter_eq_self.mpr fun c hc => by
    simp only [decide_eq_true_eq]
    rintro rfl
    exact h hc

theorem Operand.pathOf_eq {p : Text} (h : Operand p) (settings : Settings) :
    settings.pathOf p = Path.join settings.directory p := by
  rw [Settings.pathOf, unquote_of_not_mem h.noQuote]

theorem Operand.isName {p : Text} (h : Operand p) (hh : ∀ n ∈ Path.names p, isHoldable n) :
    ∀ n ∈ Path.names p, IsName n := by
  intro n hn
  obtain ⟨hc, hne⟩ := Path.mem_names.mp hn
  obtain ⟨hdot, hdotDot⟩ := h.proper n hn
  exact ⟨by simp [isStay, hne, hdot], hdotDot, Path.not_mem_of_mem_components hc, hh n hn⟩

/-- An absolute directory, as it is left when it has been normalised. -/
structure Settled (current directory : Text) : Prop where
  isAbsolute : Path.isAbsolute current = true
  normal : Path.absolute current directory = directory

namespace Settled

variable {current : Text} {settings : Settings} (h : Settled current settings.directory)

include h

theorem absolute : Path.isAbsolute settings.directory = true := by
  rw [← h.normal]
  exact Path.isAbsolute_absolute h.isAbsolute _

theorem spot_join {p : Text} (hr : Path.isAbsolute p = false)
    (hp : ∀ n ∈ Path.names p, n ≠ Path.dot ∧ n ≠ Path.dotDot) :
    spot current (Path.join settings.directory p) =
      Path.names settings.directory ++ Path.names p := by
  have hspot : follow [] (Path.names settings.directory) = Path.names settings.directory := by
    conv_rhs => rw [← h.normal, Path.names_absolute h.isAbsolute, spot_eq, origin, if_pos h.absolute]
  rw [spot_eq, origin, Path.isAbsolute_join hr, if_pos h.absolute, Path.names_join hr,
    follow_append, hspot]
  apply follow_of_proper
  intro n hn
  obtain ⟨hdot, hdotDot⟩ := hp n hn
  exact ⟨by simp [isStay, (Path.mem_names.mp hn).2, hdot], hdotDot⟩

theorem named_eq {p : Text} (hp : Operand p) :
    settings.named current p = Path.names settings.directory ++ Path.names p := by
  rw [Settings.named, hp.pathOf_eq, h.spot_join hp.relative hp.proper]

theorem rooted_join {p : Text} (hr : Path.isAbsolute p = false)
    (hh : ∀ n ∈ Path.names settings.directory ++ Path.names p, IsName n) :
    Rooted (Path.join settings.directory p) :=
  ⟨by rw [Path.isAbsolute_join hr, h.absolute], by rwa [Path.names_join hr]⟩

theorem rooted {p : Text} (hp : Operand p) (hh : ∀ n ∈ settings.named current p, IsName n) :
    Rooted (settings.pathOf p) ∧ Path.names (settings.pathOf p) = settings.named current p := by
  rw [h.named_eq hp] at hh ⊢
  rw [hp.pathOf_eq, Path.names_join hp.relative]
  exact ⟨h.rooted_join hp.relative hh, rfl⟩

end Settled

end Rollout
