import Rollout.Proofs.Archive.Writing
import Rollout.Proofs.Extraction
import Rollout.Proofs.StoredPath

namespace Rollout

open Text Location

namespace Tree

theorem Grounded.walk_of_directory {t : Tree} (ht : t.Grounded) {l : Location} {names : List Text}
    (h : ∀ n ∈ names, IsName n) (hd : t.get? (l ++ names.dropLast) = some .directory) :
    t.walk l names = .ok (l ++ names) := by
  cases names using List.reverseRecOn with
  | nil => simp [walk]
  | append_singleton names last =>
    have hl := h last (by simp)
    rw [List.dropLast_concat] at hd
    refine walk_append_eq_ok.mpr ⟨l ++ names,
      ht.walk_of_get? (fun n hn => h n (by simp [hn])) (by rw [hd]; rfl), ?_⟩
    refine walk_cons_eq_ok.mpr ⟨hd, fun _ _ => hl.length_le, ?_⟩
    rw [hl.enter, List.append_assoc]
    rfl

theorem Grounded.leads_joinAll {t : Tree} (ht : t.Grounded) {current p : Text} {names : List Text}
    (h : ∀ n ∈ names, IsName n) (hne : names ≠ []) (hh : ∀ n ∈ Path.names p, isHoldable n)
    (hw : t.walk [] ((namesOf current p).filter fun n => !n.isEmpty) = .ok (spot current p))
    (hd : t.get? (spot current p ++ names.dropLast) = some .directory) :
    t.Leads current (Path.joinAll p names) := by
  have hs : ∀ q ∈ names, '/' ∉ q := fun q hq => (h q hq).noSlash
  have hn : Path.names (Path.joinAll p names) = Path.names p ++ names := by
    rw [Path.names_joinAll hs, filter_of_isName h]
  refine ⟨Path.joinAll_ne_nil h hne p, Path.endsWith_joinAll h hne p, not_mem_of_isHoldable ?_, ?_⟩
  · rw [hn]
    exact fun n hm => (List.mem_append.mp hm).elim (hh n) fun hm => (h n hm).holdable
  · rw [filter_namesOf] at hw ⊢
    rw [hn, Path.isAbsolute_joinAll hs, ← List.append_assoc, walk_append, hw, spot_joinAll h]
    exact ht.walk_of_directory h hd

def contentAt (t : Tree) (l : Location) : Bytes :=
  match t.get? l with
  | some (.file content) => content
  | _ => []

theorem contentAt_of_file {t : Tree} {l : Location} {content : Bytes}
    (h : t.get? l = some (.file content)) : t.contentAt l = content := by
  rw [contentAt, h]

end Tree

namespace Archiver

def recordAt (t : Tree) (place names : Location) : Record :=
  ⟨Text.join ['/'] names, t.contentAt (place ++ names)⟩

structure Archivable (w : World) (directory : Text) (names : Location) : Prop where
  ne_nil : names ≠ []
  isName : ∀ n ∈ names, IsName n
  noBackslash : ∀ n ∈ names, '\\' ∉ n
  leads : w.tree.Leads w.current (Path.joinAll directory names)
  isFile : ∃ content, w.tree.get? (spot w.current directory ++ names) = some (.file content)
  storable : (recordAt w.tree (spot w.current directory) names).Storable

section

variable {a : Archiver} {w : World} {directory : Text} (hc : Path.isAbsolute w.current)
  (ha : a.baseIn w = Path.absolute w.current directory) (hd : w.denied = [])

include hc ha hd

theorem isRecordOf_joinAll {names : Location} (h : Archivable w directory names) :
    a.IsRecordOf w (Path.joinAll directory names)
      (recordAt w.tree (spot w.current directory) names) := by
  obtain ⟨content, hf⟩ := h.isFile
  refine ⟨?_, (relativePath_joinAll hc ha h.isName h.noBackslash h.ne_nil).symm⟩
  rw [recordAt, Tree.contentAt_of_file hf]
  exact readFile_ok h.leads hd (by rwa [spot_joinAll h.isName])

theorem write_ok (hl : a.codec = .deflate → Deflate.isLevel a.level) {files : List Location}
    (h : ∀ names ∈ files, Archivable w directory names) :
    a.write (files.map (Path.joinAll directory)) w =
      .ok (pack a.codec (files.map (recordAt w.tree (spot w.current directory))), none) w := by
  obtain ⟨records, torn, fault, hwrite, hcollected⟩ :=
    write_spec hl (files.map (Path.joinAll directory)) w
  obtain ⟨rfl, rfl, rfl⟩ := CollectedIn.eq_map hcollected fun names hn =>
    ⟨(h names hn).storable, fun _ hw => hw ▸ isRecordOf_joinAll hc ha hd (h names hn)⟩
  rw [hwrite, List.append_nil, pack]

end

theorem Archivable.insert {w : World} {directory : Text} {names : Location}
    (h : Archivable w directory names) {l : Location} (hl : w.tree.get? l ≠ some .directory)
    (hne : l ≠ spot w.current directory ++ names) (content : Bytes) :
    Archivable { w with tree := w.tree.insert l (.file content) } directory names := by
  have hsame : ∀ m, m ≠ l → (w.tree.insert l (.file content)).get? m = w.tree.get? m :=
    fun m hm => Tree.get?_insert_of_ne _ hm _
  obtain ⟨file, hf⟩ := h.isFile
  refine ⟨h.ne_nil, h.isName, h.noBackslash, h.leads.mono fun m hm => ?_, ⟨file, ?_⟩, ?_⟩
  · rw [hsame m (by rintro rfl; exact hl hm), hm]
  · rw [hsame _ hne.symm, hf]
  · have hstorable := h.storable
    rwa [recordAt, Tree.contentAt, ← hsame _ hne.symm] at hstorable

theorem recordAt_congr {t t' : Tree} {place : Location} {files : List Location}
    (h : ∀ names ∈ files, t'.get? (place ++ names) = t.get? (place ++ names)) :
    files.map (recordAt t' place) = files.map (recordAt t place) := by
  apply List.map_congr_left
  intro names hn
  rw [recordAt, recordAt, Tree.contentAt, Tree.contentAt, h names hn]

/-- The archive is written, and nothing else has changed. -/
theorem create_ok {a : Archiver} {w : World} {directory archive : Text} {files : List Location}
    (hc : Path.isAbsolute w.current) (ha : a.baseIn w = Path.absolute w.current directory)
    (hd : w.denied = []) (hl : a.codec = .deflate → Deflate.isLevel a.level)
    (hleads : w.tree.Leads w.current archive)
    (hfree : w.tree.get? (spot w.current archive) ≠ some .directory)
    (h : ∀ names ∈ files, Archivable w directory names)
    (hnew : ∀ names ∈ files, spot w.current archive ≠ spot w.current directory ++ names) :
    a.create archive (files.map (Path.joinAll directory)) w =
      .ok () { w with
        tree := w.tree.insert (spot w.current archive)
          (.file (pack a.codec (files.map (recordAt w.tree (spot w.current directory))))) } := by
  obtain ⟨hw, -⟩ := World.Writable.of_writeFile_eq_ok (writeFile_ok hleads hd hfree [])
  -- whatever the archive shows, the files are there as they were
  have hrecord (names : Location) (hn : names ∈ files) (shown : Bytes) :
      a.IsRecordOf (w.showing archive shown) (Path.joinAll directory names)
        (recordAt w.tree (spot w.current directory) names) := by
    have hr := isRecordOf_joinAll (w := w.showing archive shown) hc ha hd
      ((h names hn).insert hfree (hnew names hn) shown)
    have hsame : recordAt (w.showing archive shown).tree (spot w.current directory) names =
        recordAt w.tree (spot w.current directory) names := by
      rw [recordAt, recordAt, Tree.contentAt, Tree.contentAt, World.showing,
        Tree.get?_insert_of_ne _ (hnew names hn).symm]
    exact hsame ▸ hr
  obtain ⟨records, torn, fault, hcreate, hcollected⟩ :=
    create_spec hw hl (files.map (Path.joinAll directory))
  obtain ⟨rfl, rfl, rfl⟩ := hcollected.eq_map fun names hn =>
    ⟨(h names hn).storable, fun w' ⟨shown, hw'⟩ => hw' ▸ hrecord names hn shown⟩
  rw [hcreate, List.append_nil]
  rfl

/-- A directory into which files can be extracted: its names can be held, and its own path does not
lead through a directory in it. -/
structure Receiver (current directory : Text) : Prop where
  holdable : ∀ n ∈ Path.names directory, isHoldable n
  direct : ∀ s ∈ stops (origin current directory) (Path.names directory),
    spot current directory <+: s → s = spot current directory

structure Holding (source : Location → Option Node) (current directory : Text)
    (files : List Location) (w : World) : Prop where
  current_eq : w.current = current
  denied_eq : w.denied = []
  grounded : w.tree.Grounded
  opened : w.tree.Open current directory
  made : files ≠ [] → ∀ s ∈ stops (origin current directory) (Path.names directory),
    w.tree.get? s = some .directory
  below : ∀ k, k ≠ [] → w.tree.get? (spot current directory ++ k) =
    if ∃ names ∈ files, k <+: names then source k else none

structure Prepared (current directory : Text) (names : Location) (t t' : Tree) : Prop where
  grounded : t'.Grounded
  made : ∀ s ∈ stops (origin current directory) (Path.names directory ++ names.dropLast),
    t'.get? s = some .directory
  kept : ∀ l, l ∉ stops (origin current directory) (Path.names directory ++ names.dropLast) →
    t'.get? l = t.get? l

/-- A file of the source, with directories above it. -/
structure Sourced (source : Location → Option Node) (names : Location) (content : Bytes) : Prop where
  ne_nil : names ≠ []
  isName : ∀ n ∈ names, IsName n
  noBackslash : ∀ n ∈ names, '\\' ∉ n
  isFile : source names = some (.file content)
  above : ∀ k, k ≠ [] → k <+: names → k ≠ names → source k = some .directory

theorem directory_above {t : Tree} (ht : t.Grounded) {place names k : Location}
    (hf : (t.get? (place ++ names)).isSome) (hk : k <+: names) (hne : k ≠ names) :
    t.get? (place ++ k) = some .directory := by
  obtain ⟨more, rfl⟩ := hk
  refine ht.get?_above (k := more) (by rwa [List.append_assoc]) ?_
  rintro rfl
  exact hne (by simp)

theorem sourced_of_isFile {t : Tree} (ht : t.Sound) {place names : Location} (hne : names ≠ [])
    (hb : ∀ n ∈ names, '\\' ∉ n) (hf : ∃ content, t.get? (place ++ names) = some (.file content)) :
    Sourced (fun k => t.get? (place ++ k)) names (t.contentAt (place ++ names)) := by
  obtain ⟨content, hf⟩ := hf
  have hsome : (t.get? (place ++ names)).isSome := by rw [hf]; rfl
  exact
    { ne_nil := hne
      isName := fun n hn => ht.isName _ hsome n (List.mem_append_right _ hn)
      noBackslash := hb
      isFile := by rw [Tree.contentAt_of_file hf, hf]
      above := fun k _ hk => directory_above ht.grounded hsome hk }

section

variable {source : Location → Option Node} {current directory : Text} {files : List Location}
  {w : World} {names : Location} {content : Bytes}

theorem ne_of_isPrefix_dropLast {k : Location} (hne : names ≠ []) (h : k <+: names.dropLast) :
    k ≠ names := by
  rintro rfl
  have hlen := h.length_le
  have hpos := List.length_pos_iff.mpr hne
  rw [List.length_dropLast] at hlen
  omega

theorem Receiver.mem_stops (hr : Receiver current directory) (h : ∀ n ∈ names, IsName n)
    {s : Location} :
    s ∈ stops (origin current directory) (Path.names directory ++ names) ↔
      s ∈ stops (origin current directory) (Path.names directory) ∨
        ∃ k, k ≠ [] ∧ k <+: names ∧ s = spot current directory ++ k := by
  rw [stops_append hr.holdable, List.mem_append, ← spot_eq, mem_stops_iff h]

theorem Sourced.not_mem_stops (hr : Receiver current directory) (hs : Sourced source names content) :
    spot current directory ++ names ∉
      stops (origin current directory) (Path.names directory ++ names.dropLast) := by
  rw [hr.mem_stops fun n hn => hs.isName n (List.dropLast_subset _ hn)]
  rintro (h | ⟨k, -, hk, he⟩)
  · have hnil := hr.direct _ h (List.prefix_append _ _)
    exact hs.ne_nil (by simpa using hnil)
  · exact ne_of_isPrefix_dropLast hs.ne_nil hk (List.append_cancel_left he).symm

theorem Holding.open_parent (h : Holding source current directory files w)
    (hr : Receiver current directory) (hs : Sourced source names content) {parent : Text}
    (hp : Path.isAbsolute parent = Path.isAbsolute directory)
    (hn : Path.names parent = Path.names directory ++ names.dropLast) :
    w.tree.Open current parent := by
  have ho : origin current parent = origin current directory := by rw [origin, origin, hp]
  refine ⟨?_, ho ▸ h.opened.isDirectory, fun s hm => ?_⟩
  · rw [hp, ho]
    exact h.opened.start
  · rw [ho, hn, hr.mem_stops fun n hn => hs.isName n (List.dropLast_subset _ hn)] at hm
    obtain hm | ⟨k, hk, hpre, rfl⟩ := hm
    · exact h.opened.free s hm
    · rw [h.below k hk]
      split
      · exact .inr (hs.above k hk (hpre.trans (List.dropLast_prefix _))
          (ne_of_isPrefix_dropLast hs.ne_nil hpre))
      · exact .inl rfl

theorem Holding.makes_parent (h : Holding source current directory files w)
    (hr : Receiver current directory) (hs : Sourced source names content) :
    ∃ t, (if !(Path.directory (Path.joinAll directory names)).isEmpty then
        makeDirectories (Path.directory (Path.joinAll directory names))
      else pure () : Action World Unit) w = .ok () { w with tree := t } ∧
      Prepared current directory names w.tree t := by
  have hn := Path.names_directory_joinAll hs.isName hs.ne_nil directory
  have ha := Path.isAbsolute_joinAll (fun q hq => (hs.isName q hq).noSlash) directory
  have htrim := Path.directory_isTrim (Path.joinAll directory names)
  have habs := @Path.isAbsolute_directory (Path.joinAll directory names)
  rw [ha] at habs
  generalize Path.directory (Path.joinAll directory names) = parent at hn htrim habs ⊢
  by_cases hp : parent = []
  · rw [hp, Path.names_nil] at hn
    rw [hp]
    exact ⟨w.tree, rfl, h.grounded, by simp [← hn, stops], fun _ _ => rfl⟩
  · have hheld : ∀ n ∈ Path.names parent, isHoldable n := by
      rw [hn]
      refine fun n hm => (List.mem_append.mp hm).elim (hr.holdable n) fun hm => ?_
      exact (hs.isName n (List.dropLast_subset _ hm)).holdable
    have hopen := h.open_parent hr hs (habs hp) hn
    rw [← h.current_eq] at hopen
    obtain ⟨t, hmake, hground, hmade, hkept⟩ :=
      makeDirectories_ok hp htrim h.grounded hopen h.denied_eq hheld
    have ho : origin w.current parent = origin current directory := by
      rw [h.current_eq, origin, origin, habs hp]
    rw [hn, ho] at hmade hkept
    rw [if_pos (by simpa using hp)]
    exact ⟨t, hmake, hground, hmade, hkept⟩

namespace Prepared

variable {t t' : Tree} (p : Prepared current directory names t t')

include p

theorem stops : ∀ s ∈ stops (origin current directory) (Path.names directory),
    t'.get? s = some .directory := fun s hs => p.made s (stops_subset_append _ _ _ hs)

theorem keeps (l : Location) (hl : t.get? l = some .directory) : t'.get? l = some .directory := by
  by_cases hm : l ∈ Location.stops (origin current directory) (Path.names directory ++ names.dropLast)
  · exact p.made l hm
  · rw [p.kept l hm, hl]

theorem leads (h : t.Open current directory) (hr : Receiver current directory)
    (hs : Sourced source names content) :
    t'.Leads current (Path.joinAll directory names) ∧
      t'.get? (spot current directory ++ names.dropLast) = some .directory := by
  have hopen := h.change p.keeps fun s hs => .inr (p.stops s hs)
  obtain ⟨hwalk, hdirectory⟩ := hopen.walk_spot p.grounded hr.holdable p.stops
  have hparent : t'.get? (spot current directory ++ names.dropLast) = some .directory := by
    by_cases hd : names.dropLast = []
    · rwa [hd, List.append_nil]
    · apply p.made
      rw [hr.mem_stops fun n hn => hs.isName n (List.dropLast_subset _ hn)]
      exact .inr ⟨_, hd, List.prefix_refl _, rfl⟩
  exact ⟨p.grounded.leads_joinAll hs.isName hs.ne_nil hr.holdable hwalk hparent, hparent⟩

/-- Only what leads to the file is new below the directory. -/
theorem below_insert (h : Holding source current directory files w) (hw : w.tree = t)
    (hr : Receiver current directory) (hs : Sourced source names content) {k : Location}
    (hk : k ≠ []) :
    (t'.insert (spot current directory ++ names) (.file content)).get? (spot current directory ++ k) =
      if ∃ n ∈ files ++ [names], k <+: n then source k else none := by
  have hmem := @Receiver.mem_stops current directory names.dropLast hr
    (fun n hn => hs.isName n (List.dropLast_subset _ hn)) (spot current directory ++ k)
  by_cases he : k = names
  · subst he
    rw [Tree.get?_insert_self _ (by simp [hk]), if_pos ⟨k, by simp⟩, hs.isFile]
  rw [Tree.get?_insert_of_ne _ (by simpa using he)]
  by_cases hp : k <+: names
  · have hd : k <+: names.dropLast := by
      obtain h | h := List.prefix_concat_iff.mp (List.dropLast_concat_getLast hs.ne_nil ▸ hp)
      · exact absurd (h.trans (List.dropLast_concat_getLast hs.ne_nil)) he
      · exact h
    rw [p.made _ (hmem.mpr (.inr ⟨k, hk, hd, rfl⟩)), if_pos ⟨names, by simp, hp⟩,
      hs.above k hk hp he]
  · have hnot : spot current directory ++ k ∉
        Location.stops (origin current directory) (Path.names directory ++ names.dropLast) := by
      rw [hmem]
      rintro (hm | ⟨k', -, hk', hm⟩)
      · have hnil := hr.direct _ hm (List.prefix_append _ _)
        exact hk (by simpa using hnil)
      · obtain rfl := List.append_cancel_left hm
        exact hp (hk'.trans (List.dropLast_prefix _))
    rw [p.kept _ hnot, ← hw, h.below k hk]
    simp [or_and_right, exists_or, hp]

end Prepared

/-- One more file is extracted. -/
theorem extractRecord_ok (h : Holding source current directory files w)
    (hr : Receiver current directory) (hs : Sourced source names content) :
    ∃ w', extractRecord directory ⟨Text.join ['/'] names, content⟩ w = .ok () w' ∧
      Holding source current directory (files ++ [names]) w' := by
  obtain ⟨t, hmake, p⟩ := h.makes_parent hr hs
  obtain ⟨hleads, hparent⟩ := p.leads h.opened hr hs
  have hfree : t.get? (spot current directory ++ names) ≠ some .directory := by
    rw [p.kept _ (hs.not_mem_stops hr), h.below _ hs.ne_nil, hs.isFile]
    split <;> simp
  have hplace : spot w.current (Path.joinAll directory names) = spot current directory ++ names := by
    rw [spot_joinAll hs.isName, h.current_eq]
  rw [← h.current_eq] at hleads
  have hwrite := writeFile_ok (w := { w with tree := t }) hleads h.denied_eq (by rwa [hplace]) content
  rw [hplace] at hwrite
  obtain ⟨journal, hrun⟩ : ∃ journal,
      extractRecord directory ⟨Text.join ['/'] names, content⟩ w = .ok () { w with
        tree := t.insert (spot current directory ++ names) (.file content), journal } := by
    rw [extractRecord_eq, Path.parts_join hs.isName hs.noBackslash hs.ne_nil, bind_of_ok hmake,
      bind_of_ok hwrite]
    exact ⟨_, rfl⟩
  have hkeeps : ∀ l, t.get? l = some .directory →
      (t.insert (spot current directory ++ names) (.file content)).get? l = some .directory := by
    intro l hl
    rw [Tree.get?_insert_of_ne _ (by rintro rfl; exact hfree hl), hl]
  have hground : (t.insert (spot current directory ++ names) (.file content)).Grounded := by
    rw [← List.dropLast_concat_getLast hs.ne_nil, ← List.append_assoc] at hfree ⊢
    exact p.grounded.insert hparent hfree _
  have hmade := fun s hm => hkeeps s (p.stops s hm)
  exact ⟨_, hrun, h.current_eq, h.denied_eq, hground,
    h.opened.change (fun l hl => hkeeps l (p.keeps l hl)) fun s hm => .inr (hmade s hm),
    fun _ => hmade, fun k hk => p.below_insert h rfl hr hs hk⟩

theorem extractRecords_ok (h : Holding source current directory files w)
    (hr : Receiver current directory) {more : List Location} {content : Location → Bytes}
    (hs : ∀ names ∈ more, Sourced source names (content names)) :
    ∃ w', extractRecords directory (more.map fun names => ⟨Text.join ['/'] names, content names⟩) w =
        .ok () w' ∧ Holding source current directory (files ++ more) w' := by
  induction more generalizing files w with
  | nil => exact ⟨w, rfl, by rwa [List.append_nil]⟩
  | cons names more ih =>
    obtain ⟨w₁, hrun, h₁⟩ := extractRecord_ok h hr (hs names (by simp))
    obtain ⟨w₂, hrest, h₂⟩ := ih h₁ fun names hn => hs names (by simp [hn])
    refine ⟨w₂, ?_, by simpa using h₂⟩
    rw [List.map_cons, extractRecords, bind_of_ok hrun, hrest]

theorem extract_ok {a : Archiver} (h : Holding source current directory [] w)
    (hr : Receiver current directory) {content : Location → Bytes} {stream : Stream}
    (hs : ∀ names ∈ files, Sourced source names (content names))
    (hst : ∀ names ∈ files, (Record.mk (Text.join ['/'] names) (content names)).Storable)
    (hstream : stream.flatten =
      pack a.codec (files.map fun names => ⟨Text.join ['/'] names, content names⟩)) :
    ∃ w', a.extract stream directory w = .ok () w' ∧
      Holding source current directory files w' := by
  obtain ⟨w', hrun, hw'⟩ := extractRecords_ok h hr hs
  have hscan := Scan.ofStream_pack (by simpa using hst) hstream
  refine ⟨w', ?_, by simpa using hw'⟩
  rw [extract, hscan]
  exact bind_of_ok hrun

end

/-- Files below a base directory that can go into an archive and come out of it in a target
directory. -/
structure Transfer (a : Archiver) (w : World) (base archive target : Text) (files : List Location) :
    Prop where
  current : Path.isAbsolute w.current
  sound : w.tree.Sound
  denied : w.denied = []
  level : a.codec = .deflate → Deflate.isLevel a.level
  ne_nil : ∀ names ∈ files, names ≠ []
  noBackslash : ∀ names ∈ files, ∀ n ∈ names, '\\' ∉ n
  isFile : ∀ names ∈ files, ∃ content,
    w.tree.get? (spot w.current base ++ names) = some (.file content)
  storable : ∀ names ∈ files, (recordAt w.tree (spot w.current base) names).Storable
  archive_leads : w.tree.Leads w.current archive
  archive_free : w.tree.get? (spot w.current archive) ≠ some .directory
  archive_new : ∀ names ∈ files, spot w.current archive ≠ spot w.current base ++ names
  archive_outside : ¬ spot w.current target <+: spot w.current archive
  archive_aside : spot w.current archive ∉ stops (origin w.current target) (Path.names target)
  target_open : w.tree.Open w.current target
  target_receiver : Receiver w.current target
  target_empty : ∀ k, k ≠ [] → w.tree.get? (spot w.current target ++ k) = none

namespace Transfer

variable {a : Archiver} {w : World} {base archive target : Text} {files : List Location}
  (h : Transfer a w base archive target files)

include h

theorem isName {names : Location} (hn : names ∈ files) :
    ∀ n ∈ spot w.current base ++ names, IsName n := by
  obtain ⟨content, hf⟩ := h.isFile names hn
  exact h.sound.isName _ (by rw [hf]; rfl)

theorem sourced {names : Location} (hn : names ∈ files) :
    Sourced (fun k => w.tree.get? (spot w.current base ++ k)) names
      (w.tree.contentAt (spot w.current base ++ names)) :=
  sourced_of_isFile h.sound (h.ne_nil names hn) (h.noBackslash names hn) (h.isFile names hn)

theorem insert_spec (content : Bytes) :
    (w.tree.insert (spot w.current archive) (.file content)).Grounded ∧
    (∀ l, w.tree.get? l = some .directory →
      (w.tree.insert (spot w.current archive) (.file content)).get? l = some .directory) ∧
    ∀ l, l ≠ spot w.current archive →
      (w.tree.insert (spot w.current archive) (.file content)).get? l = w.tree.get? l := by
  have hsame : ∀ l, l ≠ spot w.current archive →
      (w.tree.insert (spot w.current archive) (.file content)).get? l = w.tree.get? l :=
    fun l hl => Tree.get?_insert_of_ne _ hl _
  refine ⟨?_, fun l hl => ?_, hsame⟩
  · obtain ⟨above, name, hs, hd⟩ :=
      (h.sound.grounded.reaches h.archive_leads.noNull h.archive_leads.walk h.archive_free).2.below
    have hfree := h.archive_free
    rw [hs] at hfree ⊢
    exact h.sound.grounded.insert hd hfree _
  · rw [hsame l (by rintro rfl; exact h.archive_free hl), hl]

theorem archivable {names : Location} (hn : names ∈ files) :
    Archivable w (Path.absolute w.current base) names := by
  have hs := h.sourced hn
  have hspot := Path.spot_absolute h.current base
  have hbase : ∀ n ∈ spot w.current base, IsName n :=
    fun n hm => h.isName hn n (List.mem_append_left _ hm)
  obtain ⟨file, hf⟩ := h.isFile names hn
  have hwalk : w.tree.walk []
      ((Tree.namesOf w.current (Path.absolute w.current base)).filter fun n => !n.isEmpty) =
        .ok (spot w.current (Path.absolute w.current base)) := by
    have hd := h.sound.grounded.get?_above (by rw [hf]; rfl) hs.ne_nil
    rw [filter_namesOf, if_pos (Path.isAbsolute_absolute h.current base),
      Path.names_absolute h.current, hspot]
    exact h.sound.grounded.walk_of_get? hbase (by simp [hd])
  refine ⟨hs.ne_nil, hs.isName, hs.noBackslash,
    h.sound.grounded.leads_joinAll hs.isName hs.ne_nil ?_ hwalk ?_, ⟨file, by rw [hspot, hf]⟩,
    by rw [hspot]; exact h.storable names hn⟩
  · rw [Path.names_absolute h.current]
    exact fun n hm => (hbase n hm).holdable
  · rw [hspot]
    exact directory_above h.sound.grounded (by rw [hf]; rfl) (List.dropLast_prefix _)
      (ne_of_isPrefix_dropLast hs.ne_nil (List.prefix_refl _))

theorem create_ok :
    (a.setBase w base).create archive (files.map (Path.joinAll (Path.absolute w.current base))) w =
      .ok () { w with
        tree := w.tree.insert (spot w.current archive)
          (.file (pack a.codec (files.map (recordAt w.tree (spot w.current base))))) } := by
  have hspot := Path.spot_absolute h.current base
  have hcreate := Archiver.create_ok (a := a.setBase w base) h.current
    (Path.absolute_absolute h.current base).symm h.denied h.level h.archive_leads h.archive_free
    (fun names hn => h.archivable hn) (by rw [hspot]; exact h.archive_new)
  rw [hspot] at hcreate
  exact hcreate

theorem holding (content : Bytes) :
    Holding (fun k => w.tree.get? (spot w.current base ++ k)) w.current target []
      { w with tree := w.tree.insert (spot w.current archive) (.file content) } := by
  obtain ⟨hground, hkeeps, hsame⟩ := h.insert_spec content
  refine ⟨rfl, h.denied, hground, h.target_open.change hkeeps fun s hs => ?_,
    fun hnil => absurd rfl hnil, fun k hk => ?_⟩
  · have hne : s ≠ spot w.current archive := by
      rintro rfl
      exact h.archive_aside hs
    rw [hsame s hne]
    exact h.target_open.free s hs
  · have hne : spot w.current target ++ k ≠ spot w.current archive := fun he =>
      h.archive_outside ⟨k, he⟩
    rw [hsame _ hne, h.target_empty k hk, if_neg (by simp)]

/-- What was put into the archive comes out of it. -/
theorem extractFile_ok :
    ∃ w', (a.setBase w base).extractFile archive target { w with
        tree := w.tree.insert (spot w.current archive)
          (.file (pack a.codec (files.map (recordAt w.tree (spot w.current base))))) } = .ok () w' ∧
      Holding (fun k => w.tree.get? (spot w.current base ++ k)) w.current target files w' := by
  generalize hb : pack a.codec (files.map (recordAt w.tree (spot w.current base))) = bytes
  have hread := readFile_ok
    (w := { w with tree := w.tree.insert (spot w.current archive) (.file bytes) })
    (h.archive_leads.mono (h.insert_spec bytes).2.1) h.denied (Tree.get?_insert_self _ (by
      intro hnil
      exact h.archive_free (by rw [hnil]; rfl)) _)
  have hstream : (Stream.ofBytes portion bytes).flatten =
      pack (a.setBase w base).codec (files.map (recordAt w.tree (spot w.current base))) :=
    (Stream.flatten_ofBytes (by decide) bytes).trans hb.symm
  obtain ⟨w', hrun, hw'⟩ := extract_ok (h.holding bytes) h.target_receiver
    (fun names hn => h.sourced hn) h.storable hstream
  exact ⟨w', (bind_of_ok hread).trans hrun, hw'⟩

end Transfer

/-- What has been extracted can be put into an archive again. -/
theorem Holding.archivable {source : Location → Option Node} {current target : Text}
    {files : List Location} {w : World} (h : Holding source current target files w)
    (hr : Receiver current target) {names : Location} (hn : names ∈ files) {content : Bytes}
    (hs : Sourced source names content)
    (hst : (Record.mk (Text.join ['/'] names) content).Storable) : Archivable w target names := by
  have hfile : w.tree.get? (spot current target ++ names) = some (.file content) := by
    rw [h.below names hs.ne_nil, if_pos ⟨names, hn, List.prefix_refl _⟩, hs.isFile]
  obtain ⟨hwalk, -⟩ := h.opened.walk_spot h.grounded hr.holdable (h.made (List.ne_nil_of_mem hn))
  have hparent : w.tree.get? (spot current target ++ names.dropLast) = some .directory := by
    have hlast := List.dropLast_concat_getLast hs.ne_nil
    refine h.grounded.get?_above (k := [names.getLast hs.ne_nil]) ?_ (by simp)
    rw [List.append_assoc, hlast, hfile]
    rfl
  refine ⟨hs.ne_nil, hs.isName, hs.noBackslash, ?_, ⟨content, by rw [h.current_eq, hfile]⟩, ?_⟩
  · rw [h.current_eq]
    exact h.grounded.leads_joinAll hs.isName hs.ne_nil hr.holdable hwalk hparent
  · rwa [recordAt, h.current_eq, Tree.contentAt_of_file hfile]

/-- Files go into an archive and come out of it as they were, with the directories above them and
nothing else, and what has come out gives the same archive again. -/
theorem archive_round_trip {a : Archiver} {w : World} {base archive target : Text}
    {files : List Location} (h : Transfer a w base archive target files) :
    ∃ w₁ w₂ bytes,
      (a.setBase w base).create archive
        (files.map (Path.joinAll (Path.absolute w.current base))) w = .ok () w₁ ∧
      w₁.tree.get? (spot w.current archive) = some (.file bytes) ∧
      (a.setBase w base).extractFile archive target w₁ = .ok () w₂ ∧
      (∀ k, k ≠ [] → w₂.tree.get? (spot w.current target ++ k) =
        if ∃ names ∈ files, k <+: names then w.tree.get? (spot w.current base ++ k) else none) ∧
      (a.setBase w₂ target).write (files.map (Path.joinAll target)) w₂ = .ok (bytes, none) w₂ := by
  obtain ⟨w₂, hextract, hold⟩ := h.extractFile_ok
  refine ⟨_, w₂, _, h.create_ok, Tree.get?_insert_self _ ?_ _, hextract, hold.below, ?_⟩
  · intro hnil
    exact h.archive_free (by rw [hnil]; rfl)
  have hc : Path.isAbsolute w₂.current := by
    rw [hold.current_eq]
    exact h.current
  have hwrite := write_ok (a := a.setBase w₂ target) hc rfl hold.denied_eq h.level
    fun names hn => hold.archivable h.target_receiver hn (h.sourced hn) (h.storable names hn)
  rw [hwrite]
  have hrecords : files.map (recordAt w₂.tree (spot w₂.current target)) =
      files.map (recordAt w.tree (spot w.current base)) := by
    apply List.map_congr_left
    intro names hn
    rw [recordAt, recordAt, Tree.contentAt, hold.current_eq,
      hold.below names (h.ne_nil names hn), if_pos ⟨names, hn, List.prefix_refl _⟩]
    rfl
  rw [hrecords]
  rfl

namespace Transfer

def nested : World where
  tree := Tree.empty.insert ["work".toList] .directory
    |>.insert ["work".toList, "src".toList] .directory
    |>.insert ["work".toList, "src".toList, "a".toList] .directory
    |>.insert ["work".toList, "src".toList, "a".toList, "x".toList] (.file [1, 2])
  current := "/work".toList

theorem sound_nested : nested.tree.Sound :=
  Tree.sound_empty
    |>.insert [] _ rfl (by decide) (by decide) _
    |>.insert ["work".toList] _ rfl (by decide) (by decide) _
    |>.insert ["work".toList, "src".toList] _ rfl (by decide) (by decide) _
    |>.insert ["work".toList, "src".toList, "a".toList] _ rfl (by decide) (by decide) _

theorem transfer_nested : Transfer { codec := .deflate } nested "src".toList "new.arc".toList
    "../out/new".toList [["a".toList, "x".toList]] where
  current := rfl
  sound := sound_nested
  denied := rfl
  level := by decide
  ne_nil := by decide
  noBackslash := by decide
  isFile := by
    rintro names hn
    obtain rfl : names = ["a".toList, "x".toList] := by simpa using hn
    exact ⟨[1, 2], rfl⟩
  storable := by
    rintro names hn
    obtain rfl : names = ["a".toList, "x".toList] := by simpa using hn
    exact ⟨by decide, by decide⟩
  archive_leads := ⟨by decide, by decide, by decide, rfl⟩
  archive_free := by decide
  archive_new := by decide
  archive_outside := by decide
  archive_aside := by decide
  target_open := ⟨rfl, by decide, by decide⟩
  target_receiver := ⟨by decide, by decide⟩
  target_empty := by
    intro k hk
    by_contra hsome
    have hd := sound_nested.grounded.get?_above (Option.isSome_iff_ne_none.mpr hsome) hk
    exact absurd hd (by decide)

end Transfer

/-- A nested file, from one relative directory to another. -/
theorem archive_round_trip_nested :
    ∃ w₁ w₂ bytes,
      (setBase { codec := .deflate } Transfer.nested "src".toList).create "new.arc".toList
        ["/work/src/a/x".toList] Transfer.nested = .ok () w₁ ∧
      w₁.tree.get? ["work".toList, "new.arc".toList] = some (.file bytes) ∧
      (setBase { codec := .deflate } Transfer.nested "src".toList).extractFile "new.arc".toList
        "../out/new".toList w₁ = .ok () w₂ ∧
      w₂.tree.get? ["out".toList, "new".toList, "a".toList, "x".toList] = some (.file [1, 2]) := by
  obtain ⟨w₁, w₂, bytes, hcreate, hbytes, hextract, hbelow, -⟩ :=
    archive_round_trip Transfer.transfer_nested
  exact ⟨w₁, w₂, bytes, hcreate, hbytes, hextract, hbelow ["a".toList, "x".toList] (by decide)⟩

def returns {σ α : Type} (a : Action σ α) (s : σ) : Bool :=
  match a s with
  | .ok _ _ => true
  | .error _ _ => false

/-- Two missing directories, with nothing but directories above them, that do not receive a file: the
path of one leads through a directory in it that is named like the file, and the name of the other
cannot be held. -/
theorem extractFile_refused :
    Transfer.nested.isDirectory "/work".toList = true ∧
    Transfer.nested.pathExists "/work/out".toList = false ∧
    (["/work/out/x/..".toList, "/work/".toList ++ List.replicate 256 'x'].all fun target =>
      !Transfer.nested.pathExists target &&
      returns ((setBase {} Transfer.nested "src/a".toList).create "new.arc".toList
        ["/work/src/a/x".toList]) Transfer.nested &&
      !returns (do
        (setBase {} Transfer.nested "src/a".toList).create "new.arc".toList ["/work/src/a/x".toList]
        (setBase {} Transfer.nested "src/a".toList).extractFile "new.arc".toList target)
        Transfer.nested) = true := by
  decide +kernel

end Archiver

end Rollout
