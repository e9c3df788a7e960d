import Rollout.Proofs.Listing
import Rollout.Proofs.WorkingDirectory

namespace Rollout

open Text Location

def Builtin.packing (directory target listing : Text) : Action World Unit := do
  makeDirectories (Path.directory target)
  let w ← get
  Archiver.create (Archiver.setBase { codec := .deflate } w directory) target
    (Builtin.listedFiles directory listing)

/-- Files below a source directory that a list names, an archive for them and a destination. Nothing
but directories stands above the archive and the destination. -/
structure Exchange (settings : Settings) (t : Tree) (current source archive target listing : Text) :
    Prop where
  resources : settings.resources = .directory settings.directory
  settled : Settled current settings.directory
  sound : t.Sound
  small : ∀ l content, t.get? l = some (.file content) → content.length < 0x80000000
  source_operand : Operand source
  source_isDirectory : t.get? (settings.named current source) = some .directory
  isFile : ∀ names ∈ listed listing, ∃ content,
    t.get? (settings.named current source ++ names) = some (.file content)
  archive_operand : Operand archive
  archive_noSlash : endsWith archive ['/'] = false
  archive_holdable : ∀ n ∈ Path.names archive, isHoldable n
  archive_above : ∀ k, k <+: settings.named current archive → k ≠ settings.named current archive →
    t.get? k = none ∨ t.get? k = some .directory
  archive_free : t.get? (settings.named current archive) ≠ some .directory
  archive_new : ∀ names ∈ listed listing,
    settings.named current archive ≠ settings.named current source ++ names
  target_operand : Operand target
  target_holdable : ∀ n ∈ Path.names target, isHoldable n
  target_above : ∀ k, k <+: settings.named current target →
    t.get? k = none ∨ t.get? k = some .directory
  target_empty : ∀ k, k ≠ [] → t.get? (settings.named current target ++ k) = none
  target_outside : ¬ settings.named current target <+: settings.named current archive
  target_aside : ¬ settings.named current archive <+: settings.named current target

structure Tree.Filed (t t' : Tree) (l : Location) (content : Bytes) : Prop where
  grounded : t'.Grounded
  isFile : t'.get? l = some (.file content)
  above : ∀ k, k <+: l → k ≠ l → t'.get? k = some .directory
  same : ∀ k, ¬ k <+: l → t'.get? k = t.get? k

namespace Exchange

variable {settings : Settings} {t : Tree} {current source archive target listing : Text}
  (h : Exchange settings t current source archive target listing)

include h

theorem isName_directory : ∀ n ∈ Path.names settings.directory, IsName n := by
  intro n hn
  refine h.sound.isName (settings.named current source) ?_ n ?_
  · rw [h.source_isDirectory]
    rfl
  · rw [h.settled.named_eq h.source_operand]
    exact List.mem_append_left _ hn

theorem rooted {p : Text} (hp : Operand p) (hh : ∀ n ∈ Path.names p, isHoldable n) :
    Rooted (settings.pathOf p) ∧ Path.names (settings.pathOf p) = settings.named current p := by
  apply h.settled.rooted hp
  rw [h.settled.named_eq hp]
  intro n hn
  obtain hn | hn := List.mem_append.mp hn
  · exact h.isName_directory n hn
  · exact hp.isName hh n hn

theorem rooted_source :
    Rooted (settings.pathOf source) ∧
      Path.names (settings.pathOf source) = settings.named current source := by
  apply h.settled.rooted h.source_operand
  exact h.sound.isName _ (by rw [h.source_isDirectory]; rfl)

theorem sourced {names : Location} (hn : names ∈ listed listing) :
    Archiver.Sourced (fun k => t.get? (settings.named current source ++ k)) names
      (t.contentAt (settings.named current source ++ names)) := by
  obtain ⟨hne, entry, -, hparts⟩ := mem_listed.mp hn
  refine Archiver.sourced_of_isFile h.sound hne (fun n hm => ?_) (h.isFile names hn)
  rw [← hparts] at hm
  exact (Path.not_mem_of_mem_splitSeparators (List.mem_of_mem_filter hm)).2

theorem archive_ne_nil : settings.named current archive ≠ [] := by
  intro hnil
  exact h.archive_free (by rw [hnil]; rfl)

theorem archive_endsWith : endsWith (settings.pathOf archive) ['/'] = false := by
  obtain ⟨start, hstart⟩ := Path.exists_join_eq settings.directory
  rw [h.archive_operand.pathOf_eq, hstart _ h.archive_operand.relative,
    endsWith_slash_append _ h.archive_operand.ne_nil, h.archive_noSlash]

theorem eq_of_file_above {l : Location} {content : Bytes} (hl : t.get? l = some (.file content))
    (hp : l <+: settings.named current archive) : l = settings.named current archive := by
  by_contra hne
  obtain hnone | hdirectory := h.archive_above l hp hne
  · rw [hl] at hnone
    cases hnone
  · rw [hl] at hdirectory
    cases hdirectory

/-- The directories above the archive are made. -/
theorem makes_parent {w : World} (hw : w.tree = t) (hc : w.current = current) (hd : w.denied = []) :
    ∃ t', makeDirectories (Path.directory (settings.pathOf archive)) w =
        .ok () { w with tree := t' } ∧ t'.Grounded ∧
      (∀ k, k <+: settings.named current archive → k ≠ settings.named current archive →
        t'.get? k = some .directory) ∧
      ∀ k, ¬(k <+: settings.named current archive ∧ k ≠ settings.named current archive) →
        t'.get? k = t.get? k := by
  subst hw hc
  obtain ⟨hroot, hnames⟩ := h.rooted h.archive_operand h.archive_holdable
  obtain ⟨hparent, hparents⟩ := hroot.directory h.archive_endsWith
  rw [hnames] at hparents
  have hstops {k : Location} : k ∈ stops (origin w.current (Path.directory (settings.pathOf archive)))
      (Path.names (Path.directory (settings.pathOf archive))) ↔
        k ≠ [] ∧ k <+: (settings.named w.current archive).dropLast := by
    rw [hparent.mem_stops, hparents]
  have hne {k : Location} (hk : k <+: (settings.named w.current archive).dropLast) :
      k <+: settings.named w.current archive ∧ k ≠ settings.named w.current archive :=
    ⟨hk.trans (List.dropLast_prefix _), Archiver.ne_of_isPrefix_dropLast h.archive_ne_nil hk⟩
  have hopen : w.tree.Open w.current (Path.directory (settings.pathOf archive)) := by
    apply hparent.isOpen
    rw [hparents]
    exact fun k hk => h.archive_above k (hne hk).1 (hne hk).2
  obtain ⟨t', hmake, hground, hmade, hkept⟩ :=
    makeDirectories_ok (Path.directory_ne_nil hroot.absolute) (Path.directory_isTrim _)
      h.sound.grounded hopen hd fun n hn => (hparent.isName n hn).holdable
  refine ⟨t', hmake, hground, fun k hk hka => ?_, fun k hk => ?_⟩
  · by_cases hnil : k = []
    · rw [hnil]
      rfl
    · exact hmade k (hstops.mpr ⟨hnil, isPrefix_dropLast hk hka⟩)
  · exact hkept k fun hs => hk (hne (hstops.mp hs).2)

/-- A listed file can go into an archive as long as it is there. -/
theorem archivable {w : World} (hg : w.tree.Grounded) {names : Location}
    (hn : names ∈ listed listing) {content : Bytes}
    (hf : w.tree.get? (settings.named current source ++ names) = some (.file content))
    (hst : (Archiver.recordAt w.tree (settings.named current source) names).Storable) :
    Archiver.Archivable w (settings.pathOf source) names := by
  obtain ⟨hroot, hnames⟩ := h.rooted_source
  have hs := h.sourced hn
  have hslash : ∀ q ∈ names, '/' ∉ q := fun q hq => (hs.isName q hq).noSlash
  have hjoin : Path.names (Path.joinAll (settings.pathOf source) names) =
      settings.named current source ++ names := by
    rw [Path.names_joinAll hslash, filter_of_isName hs.isName, hnames]
  have hpath : Rooted (Path.joinAll (settings.pathOf source) names) := by
    refine ⟨?_, fun n hm => ?_⟩
    · rw [Path.isAbsolute_joinAll hslash, hroot.absolute]
    · rw [hjoin, ← hnames] at hm
      exact (List.mem_append.mp hm).elim (hroot.isName n) (hs.isName n)
  refine ⟨hs.ne_nil, hs.isName, hs.noBackslash, ?_, ⟨content, ?_⟩, ?_⟩
  · apply hpath.leads _ hg (Path.endsWith_joinAll hs.isName hs.ne_nil _)
    rw [hjoin]
    exact hg.get?_dropLast (by rw [hf]; rfl)
  · rw [hroot.spot_eq, hnames, hf]
  · rwa [hroot.spot_eq, hnames]

/-- The archive is written in a directory that is there. -/
theorem create_ok {w : World} (hc : w.current = current) (hd : w.denied = [])
    (hg : w.tree.Grounded)
    (hparent : w.tree.get? (settings.named current archive).dropLast = some .directory)
    (hfree : w.tree.get? (settings.named current archive) ≠ some .directory)
    (hf : ∀ names ∈ listed listing, w.tree.get? (settings.named current source ++ names) =
      t.get? (settings.named current source ++ names))
    (hs : ∀ names ∈ listed listing,
      (Archiver.recordAt t (settings.named current source) names).Storable) :
    (Archiver.setBase { codec := .deflate } w (settings.pathOf source)).create
        (settings.pathOf archive) (Builtin.listedFiles (settings.pathOf source) listing) w =
      .ok () { w with
        tree := w.tree.insert (settings.named current archive) (.file (Archiver.pack .deflate
          ((listed listing).map (Archiver.recordAt t (settings.named current source))))) } := by
  obtain ⟨hroot, hnames⟩ := h.rooted h.archive_operand h.archive_holdable
  obtain ⟨hsource, hsources⟩ := h.rooted_source
  have hspot : spot w.current (settings.pathOf archive) = settings.named current archive :=
    (hroot.spot_eq _).trans hnames
  have hplace : spot w.current (settings.pathOf source) = settings.named current source :=
    (hsource.spot_eq _).trans hsources
  rw [← hspot] at hfree ⊢
  rw [← Archiver.recordAt_congr hf, ← hplace, listedFiles_eq]
  apply Archiver.create_ok (hc ▸ h.settled.isAbsolute) rfl hd (fun _ => rfl) _ hfree
  · intro names hn
    obtain ⟨content, hfile⟩ := h.isFile names hn
    refine h.archivable hg hn ((hf names hn).trans hfile) ?_
    rw [Archiver.recordAt, Tree.contentAt, hf names hn]
    exact hs names hn
  · rw [hspot, hplace]
    exact h.archive_new
  · apply hroot.leads _ hg h.archive_endsWith
    rwa [hnames]

/-- Packing leaves the archive, in directories. -/
theorem packing_ok {w : World} (hw : w.tree = t) (hc : w.current = current) (hd : w.denied = [])
    (hs : ∀ names ∈ listed listing,
      (Archiver.recordAt t (settings.named current source) names).Storable) :
    ∃ t', Builtin.packing (settings.pathOf source) (settings.pathOf archive) listing w =
        .ok () { w with tree := t' } ∧
      t.Filed t' (settings.named current archive)
        (Archiver.pack .deflate
          ((listed listing).map (Archiver.recordAt t (settings.named current source)))) := by
  obtain ⟨t₁, hmake, hground, habove, hsame⟩ := h.makes_parent hw hc hd
  have hparent := habove _ (List.dropLast_prefix _)
    (Archiver.ne_of_isPrefix_dropLast h.archive_ne_nil (List.prefix_refl _))
  have hfree : t₁.get? (settings.named current archive) ≠ some .directory := by
    rw [hsame _ (by simp)]
    exact h.archive_free
  have hfile : ∀ names ∈ listed listing, t₁.get? (settings.named current source ++ names) =
      t.get? (settings.named current source ++ names) := by
    intro names hn
    apply hsame
    rintro ⟨hp, hne⟩
    obtain ⟨content, hf⟩ := h.isFile names hn
    exact hne (h.eq_of_file_above hf hp)
  have hcreate := h.create_ok (w := { w with tree := t₁ }) hc hd hground hparent hfree hfile hs
  refine ⟨_, (bind_of_ok hmake).trans hcreate, ?_, ?_, fun k hk hne => ?_, fun k hk => ?_⟩
  · have hcut := List.dropLast_concat_getLast h.archive_ne_nil
    rw [← hcut] at hfree ⊢
    exact hground.insert (by simpa using hparent) hfree _
  · exact Tree.get?_insert_self _ h.archive_ne_nil _
  · rw [Tree.get?_insert_of_ne _ hne]
    exact habove k hk hne
  · rw [Tree.get?_insert_of_ne _ (by rintro rfl; exact hk (List.prefix_refl _))]
    exact hsame k fun hp => hk hp.1

section

variable {t' : Tree} {bytes : Bytes} (hp : t.Filed t' (settings.named current archive) bytes)

include hp

theorem keeps_directory {l : Location} (hl : t.get? l = some .directory) :
    t'.get? l = some .directory := by
  by_cases hk : l <+: settings.named current archive
  · refine hp.above l hk ?_
    rintro rfl
    exact h.archive_free hl
  · rw [hp.same l hk, hl]

theorem keeps_file {l : Location} {content : Bytes} (hl : t.get? l = some (.file content))
    (hne : l ≠ settings.named current archive) : t'.get? l = some (.file content) := by
  rw [hp.same l fun hk => hne (h.eq_of_file_above hl hk), hl]

/-- The destination is as empty as before. -/
theorem holding {w : World} (hw : w.tree = t') (hc : w.current = current) (hd : w.denied = []) :
    Archiver.Holding (fun k => t.get? (settings.named current source ++ k)) current
      (settings.pathOf target) [] w := by
  subst hw
  obtain ⟨hroot, hnames⟩ := h.rooted h.target_operand h.target_holdable
  refine ⟨hc, hd, hp.grounded, hroot.isOpen current fun k hk => ?_, fun hnil => absurd rfl hnil,
    fun k hk => ?_⟩
  · rw [hnames] at hk
    by_cases hka : k <+: settings.named current archive
    · refine .inr (hp.above k hka ?_)
      rintro rfl
      exact h.target_aside hk
    · rw [hp.same k hka]
      exact h.target_above k hk
  · have hout : ¬ settings.named current target ++ k <+: settings.named current archive :=
      fun hpre => h.target_outside ((List.prefix_append _ _).trans hpre)
    rw [hroot.spot_eq, hnames, hp.same _ hout, h.target_empty k hk, if_neg (by simp)]

theorem holds_archive {w : World} (hw : w.tree = t') :
    Resources.Holds settings.directory archive w bytes := by
  subst hw
  obtain ⟨hroot, hnames⟩ := h.rooted h.archive_operand h.archive_holdable
  have hleads : w.tree.Leads w.current (settings.pathOf archive) := by
    apply hroot.leads _ hp.grounded h.archive_endsWith
    rw [hnames]
    exact hp.grounded.get?_dropLast (by rw [hp.isFile]; rfl)
  have hfind := hleads.find (by rw [hroot.spot_eq, hnames, hp.isFile])
  rw [h.archive_operand.pathOf_eq] at hleads hfind
  exact ⟨hleads.noNull, hfind⟩

/-- What was packed is unpacked. -/
theorem extract_ok {w : World} (hw : w.tree = t') (hc : w.current = current) (hd : w.denied = [])
    (hbytes : bytes = Archiver.pack .deflate
      ((listed listing).map (Archiver.recordAt t (settings.named current source))))
    (hs : ∀ names ∈ listed listing,
      (Archiver.recordAt t (settings.named current source) names).Storable) :
    ∃ w', Archiver.extract { codec := .deflate } (Stream.ofBytes portion bytes)
        (settings.pathOf target) w = .ok () w' ∧
      ∀ k, k ≠ [] → w'.tree.get? (settings.named current target ++ k) =
        if ∃ names ∈ listed listing, k <+: names then
          t.get? (settings.named current source ++ k) else none := by
  obtain ⟨hroot, hnames⟩ := h.rooted h.target_operand h.target_holdable
  have hstream : (Stream.ofBytes portion bytes).flatten = Archiver.pack .deflate
      ((listed listing).map (Archiver.recordAt t (settings.named current source))) :=
    (Stream.flatten_ofBytes (by decide) bytes).trans hbytes
  obtain ⟨w', hextract, hold⟩ := Archiver.extract_ok (a := { codec := .deflate })
    (h.holding hp hw hc hd) (hroot.receiver current) (fun names hn => h.sourced hn) hs hstream
  have hbelow := hold.below
  rw [hroot.spot_eq, hnames] at hbelow
  exact ⟨w', hextract, hbelow⟩

end

/-- The path of a listed file is no longer than the list, and the file is not too long either. -/
theorem storable {w : World} (hw : w.tree = t) {list : Text} {content : Bytes}
    (hl : Resources.Holds settings.directory list w content)
    (hdecode : (Resources.directory settings.directory).decode content = .ok listing) :
    ∀ names ∈ listed listing,
      (Archiver.recordAt t (settings.named current source) names).Storable := by
  intro names hn
  subst hw
  refine ⟨?_, ?_⟩
  · have hsmall := h.small _ _ (Tree.find_eq_ok.mp hl.find).2.2
    have hlisting := Resources.length_encode_decode hdecode
    have hpath := length_le_of_mem_listed hn
    dsimp only [Archiver.recordAt]
    omega
  · obtain ⟨file, hf⟩ := h.isFile names hn
    dsimp only [Archiver.recordAt]
    rw [Tree.contentAt_of_file hf]
    exact h.small _ _ hf

end Exchange

end Rollout
