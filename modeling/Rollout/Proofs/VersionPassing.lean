import Mathlib.Logic.Function.Basic
import Rollout.Proofs.Outline
import Rollout.Proofs.Upgrade

namespace Rollout

namespace Tree

theorem get?_insert_eq_update (t : Tree) {l : Location} (hl : l ≠ []) (n : Node) :
    (t.insert l n).get? = Function.update t.get? l (some n) := by
  funext k
  by_cases hk : k = l
  · rw [hk, get?_insert_self t hl, Function.update_self]
  · rw [get?_insert_of_ne t hk, Function.update_of_ne hk]

theorem ne_nil_of_file {t : Tree} {l : Location} {content : Bytes}
    (h : t.get? l = some (.file content)) : l ≠ [] := by
  rintro rfl
  cases h

theorem find_insert_file {t : Tree} {current path : Text} {l : Location} {old new content : Bytes}
    (hl : t.get? l = some (.file old)) (h : t.find current path = .ok (.file content)) :
    (t.insert l (.file new)).find current path =
      .ok (.file (if spot current path = l then new else content)) := by
  obtain ⟨hne, hwalk, hget⟩ := find_eq_ok.mp h
  have hdirectory (k : Location) (hk : t.get? k = some .directory) :
      (t.insert l (.file new)).get? k = some .directory := by
    rw [get?_insert_of_ne t, hk]
    rintro rfl
    rw [hk] at hl
    cases hl
  refine find_eq_ok.mpr ⟨hne, walk_mono hwalk hdirectory, ?_⟩
  split_ifs with hspot
  · rw [hspot, get?_insert_self t (ne_nil_of_file hl)]
  · rw [get?_insert_of_ne t hspot, hget]

end Tree

namespace Metadata

open Text Version

def fileOf (project : Text) : Text := Path.join project projectFile

/-- The metadata of a project can be read, and are a text. -/
structure Describes (w : World) (project : Text) (content : Bytes) (t : Text) : Prop where
  find : w.tree.find w.current (fileOf project) = .ok (.file content)
  allowed : w.isDenied (fileOf project) = false
  noNull : '\x00' ∉ fileOf project
  reads : Utf8.Says content t

inductive Unreadable (w : World) (project : Text) : Fault → Prop
  | missing (noFile : w.isFile (fileOf project) = false) :
      Unreadable w project (.missingMetadata (fileOf project))
  | denied (isDenied : w.isDenied (fileOf project) = true) :
      Unreadable w project (.refused .denied (fileOf project))
  | null (isNull : '\x00' ∈ fileOf project) : Unreadable w project .nullByte
  | undecodable {content : Bytes} {e : Utf8.DecodeError}
      (find : w.tree.find w.current (fileOf project) = .ok (.file content))
      (decode : Utf8.decodeMarked content = .error e) : Unreadable w project (.undecodable e)

variable {w : World} {source target project given old t : Text} {content : Bytes}

theorem isFile_iff {path : Text} :
    w.isFile path = true ↔ ∃ content, w.tree.find w.current path = .ok (.file content) := by
  unfold World.isFile World.node?
  cases w.tree.find w.current path with
  | error r => simp [Except.toOption]
  | ok n => cases n <;> simp [Except.toOption]

theorem Describes.isFile (h : Describes w project content t) : w.isFile (fileOf project) = true :=
  isFile_iff.mpr ⟨content, h.find⟩

theorem Describes.readFile (h : Describes w project content t) :
    readFile (fileOf project) w = .ok content w :=
  readFile_eq_ok.mpr ⟨h.allowed, h.noNull, Tree.read_eq_ok.mpr h.find, rfl⟩

theorem Describes.readMarked (h : Describes w project content t) :
    readMarked (fileOf project) w = .ok t w :=
  readMarked_eq_ok.mpr ⟨rfl, content, h.readFile, Utf8.decodeMarked_eq_ok.mpr h.reads⟩

theorem Describes.text_unique {content' : Bytes} {t' : Text} (h : Describes w project content t)
    (h' : Describes w source content' t')
    (hspot : spot w.current (fileOf project) = spot w.current (fileOf source)) : t = t' := by
  have hcontent : some (Node.file content) = some (Node.file content') := by
    rw [← (Tree.find_eq_ok.mp h.find).2.2, ← (Tree.find_eq_ok.mp h'.find).2.2, hspot]
  cases hcontent
  exact Except.ok.inj ((Utf8.decodeMarked_eq_ok.mpr h.reads).symm.trans
    (Utf8.decodeMarked_eq_ok.mpr h'.reads))

/-- The metadata of a project can be read, or there is a reason why not. -/
theorem readMarked_cases (h : w.isFile (fileOf project) = true) :
    (∃ content t, Describes w project content t) ∨
      ∃ e, Unreadable w project e ∧ readMarked (fileOf project) w = .error e w := by
  obtain ⟨content, hfind⟩ := isFile_iff.mp h
  have hread := readFile_eq (fileOf project) w
  rw [Tree.read_eq_ok.mpr hfind] at hread
  split_ifs at hread with hdenied hnull
  · exact .inr ⟨_, .denied hdenied, bind_of_error hread⟩
  · exact .inr ⟨_, .null (by simpa using hnull), bind_of_error hread⟩
  · cases hdecode : Utf8.decodeMarked content with
    | ok t =>
      exact .inl ⟨content, t, hfind, by simpa using hdenied, by simpa using hnull,
        Utf8.decodeMarked_eq_ok.mp hdecode⟩
    | error e =>
      refine .inr ⟨_, .undecodable hfind hdecode, (bind_of_ok hread).trans ?_⟩
      rw [hdecode]
      rfl

def rewritten (w : World) (project t : Text) : World :=
  { w with tree := w.tree.insert (spot w.current (fileOf project)) (.file (Utf8.encode t)) }

theorem pass_of_describes {content' : Bytes} (hs : Describes w source content given)
    (ht : Describes w target content' old) :
    pass source target w =
      .ok (firstVersion Kind.assembly.pattern given, firstVersion Kind.file.pattern given)
        (rewritten w target (passText given old)) := by
  have hslash : endsWith (fileOf target) ['/'] = false :=
    endsWith_join_of_relative (by decide) (by decide) (by decide) target
  have hwrite := writeFile_of_readFile ht.readFile hslash (Utf8.encode (passText given old))
  rw [pass_eq hs.isFile ht.isFile]
  refine (bind_of_ok hs.readMarked).trans ((bind_of_ok ht.readMarked).trans ?_)
  exact (bind_of_ok hwrite).trans rfl

/-- Nothing has changed, or the target has the source's versions. -/
theorem pass_cases (w : World) (source target : Text) :
    (∃ e, (Unreadable w source e ∨ Unreadable w target e) ∧ pass source target w = .error e w) ∨
      ∃ content content' given old, Describes w source content given ∧
        Describes w target content' old := by
  cases hs : w.isFile (fileOf source) with
  | false =>
    refine .inl ⟨_, .inl (.missing hs), ?_⟩
    unfold fileOf at hs
    rw [pass, get_bind, hs]
    rfl
  | true =>
    cases ht : w.isFile (fileOf target) with
    | false =>
      refine .inl ⟨_, .inr (.missing ht), ?_⟩
      unfold fileOf at hs ht
      rw [pass, get_bind, hs, ht]
      rfl
    | true =>
      obtain ⟨content, given, hsource⟩ | ⟨e, he, hread⟩ := readMarked_cases hs
      · obtain ⟨content', old, htarget⟩ | ⟨e, he, hread⟩ := readMarked_cases ht
        · exact .inr ⟨content, content', given, old, hsource, htarget⟩
        · refine .inl ⟨e, .inr he, ?_⟩
          rw [pass_eq hs ht]
          exact (bind_of_ok hsource.readMarked).trans (bind_of_error hread)
      · refine .inl ⟨e, .inl he, ?_⟩
        rw [pass_eq hs ht]
        exact bind_of_error hread

theorem Describes.find_after {content' : Bytes} (h : Describes w project content t)
    (ht : Describes w target content' old) (new : Text) :
    (rewritten w target new).tree.find w.current (fileOf project) =
      .ok (.file (if spot w.current (fileOf project) = spot w.current (fileOf target) then
        Utf8.encode new else content)) :=
  Tree.find_insert_file (Tree.find_eq_ok.mp ht.find).2.2 h.find

theorem Describes.after {content' : Bytes} {new : Text} (h : Describes w project content t)
    (ht : Describes w target content' old) (hnew : new.head? ≠ some '\uFEFF') :
    ∃ after, Describes (rewritten w target new) project after
      (if spot w.current (fileOf project) = spot w.current (fileOf target) then new else t) := by
  refine ⟨_, h.find_after ht new, h.allowed, h.noNull, ?_⟩
  split_ifs
  · exact .bare new hnew
  · exact h.reads

theorem rewritten_rewritten (w : World) (project t : Text) :
    rewritten (rewritten w project t) project t = rewritten w project t := by
  simp only [rewritten, Tree.insert_insert]

/-- Passed once more, the versions change nothing. -/
theorem pass_again {content' : Bytes} (hs : Describes w source content given)
    (ht : Describes w target content' old) (hold : old.head? ≠ some '\uFEFF') :
    pass source target (rewritten w target (passText given old)) =
      .ok (firstVersion Kind.assembly.pattern given, firstVersion Kind.file.pattern given)
        (rewritten w target (passText given old)) := by
  have hnew : (passText given old).head? ≠ some '\uFEFF' := by rwa [head?_passText]
  obtain ⟨after, hsource⟩ := hs.after ht hnew
  obtain ⟨after', htarget⟩ := ht.after ht hnew
  rw [if_pos rfl] at htarget
  rw [pass_of_describes hsource htarget]
  split_ifs with hspot
  · obtain rfl := hs.text_unique ht hspot
    rw [passText_passText_self, firstVersion_passText_self, firstVersion_passText_self,
      rewritten_rewritten]
  · rw [passText_passText, rewritten_rewritten]

/-- Where the metadata of both projects can be read, the versions of the target's attributes become
the first ones of the source, and nothing else changes. -/
theorem pass_changes_versions_alone (w : World) (source target : Text) :
    (∃ e, (Unreadable w source e ∨ Unreadable w target e) ∧ pass source target w = .error e w) ∨
    ∃ (content content' : Bytes) (given : Text) (versions : Kind → Text) (o : Outline) (w' : World),
      Describes w source content given ∧ Describes w target content' o.text ∧
      (∀ k, FirstVersion k given (versions k)) ∧
      o.Complete ∧ (∀ p ∈ o.parts, p.1.version ≠ []) ∧
      (o.revise fun a => versions a.kind).Complete ∧
      pass source target w = .ok (versions .assembly, versions .file) w' ∧ SameButTree w w' ∧
      w'.tree.get? = Function.update w.tree.get? (spot w.current (fileOf target))
        (some (.file (Utf8.encode (o.revise fun a => versions a.kind).text))) ∧
      (o.text.head? ≠ some '\uFEFF' →
        pass source target w' = .ok (versions .assembly, versions .file) w') := by
  obtain h | ⟨content, content', given, old, hs, ht⟩ := pass_cases w source target
  · exact .inl h
  right
  obtain ⟨o, ho, rfl, hne⟩ := Outline.exists_proper old
  have hl := Tree.ne_nil_of_file (Tree.find_eq_ok.mp ht.find).2.2
  refine ⟨content, content', given, fun k => firstVersion k.pattern given, o, _, hs, ht,
    fun k => firstVersion_spec k given, ho.complete, hne, (ho.reviseFirst given).complete,
    pass_of_describes hs ht, rfl, ?_, pass_again hs ht⟩
  rw [← ho.passText_of_ne hne]
  exact Tree.get?_insert_eq_update _ hl _

theorem firstVersion_of_probed (k : Kind) (t : Text) :
    firstVersion k.pattern (unifyNewlines t) = firstVersion k.pattern t := by
  rw [firstVersion, k.firstOccurrence?_unifyNewlines, firstVersion]

theorem declaredVersion?_encode (h : firstVersion Kind.assembly.pattern t ≠ []) :
    declaredVersion? (Utf8.encode t) =
      (Version.parse (firstVersion Kind.assembly.pattern t)).toOption := by
  rw [← firstVersion_of_probed] at h ⊢
  rw [declaredVersion?, Utf8.decodeLossy_encode, declared?_of_firstVersion h]
  rfl

theorem declaredVersion?_of_reads (h : Utf8.Says content t)
    (hne : firstVersion Kind.assembly.pattern t ≠ []) :
    declaredVersion? content =
      (Version.parse (firstVersion Kind.assembly.pattern t)).toOption := by
  cases h with
  | bare => exact declaredVersion?_encode hne
  | torn => exact absurd rfl hne
  | marked =>
    have hmark : firstVersion Kind.assembly.pattern ('\uFEFF' :: t) =
        firstVersion Kind.assembly.pattern t := by
      rw [firstVersion, Kind.firstOccurrence?_cons_of_ne (by decide), firstVersion]
    rw [Utf8.mark_append, ← hmark]
    exact declaredVersion?_encode (hmark ▸ hne)

theorem Describes.probe_after {content' : Bytes} (h : Describes w project content t)
    (ht : Describes w target content' old) (new : Text) :
    ∃ w₁, probe (fileOf project) (rewritten w target new) =
      .ok (declaredVersion?
        (if spot w.current (fileOf project) = spot w.current (fileOf target) then Utf8.encode new
          else content)) w₁ := by
  have hread : Rollout.readFile (fileOf project) (rewritten w target new) = .ok _ _ :=
    readFile_eq_ok.mpr
      ⟨h.allowed, h.noNull, Tree.read_eq_ok.mpr (h.find_after ht new), rfl⟩
  obtain ⟨w₁, hprobe, -⟩ := probe_of_readFile hread
  exact ⟨w₁, hprobe⟩

def DeclaresAssembly (w : World) (project : Text) : Prop :=
  ∃ content t i a, Describes w project content t ∧ HasAttribute t i a ∧ a.kind = .assembly

/-- Once the versions have been passed, a probe finds in the target what it found in the source, and
still finds there. -/
theorem passed_version_is_probed {passed : Text × Text} {w' : World}
    (hs : DeclaresAssembly w source) (ht : DeclaresAssembly w target)
    (h : pass source target w = .ok passed w') :
    ∃ w₁ w₂ w₃, probe (fileOf source) w = .ok (Version.parse passed.1).toOption w₁ ∧
      probe (fileOf target) w' = .ok (Version.parse passed.1).toOption w₂ ∧
      probe (fileOf source) w' = .ok (Version.parse passed.1).toOption w₃ := by
  obtain ⟨content, given, i, a, hs, ha, hk⟩ := hs
  obtain ⟨content', old, j, b, ht, hb, hk'⟩ := ht
  cases (pass_of_describes hs ht).symm.trans h
  have hgiven := (firstVersion_spec .assembly given).ne_nil ha hk
  have hold := (firstVersion_spec .assembly old).ne_nil hb hk'
  have hfirst : firstVersion Kind.assembly.pattern (passText given old) =
      firstVersion Kind.assembly.pattern given := by
    rw [firstVersion_passText, if_neg hold]
  have hnew : declaredVersion? (Utf8.encode (passText given old)) =
      (Version.parse (firstVersion Kind.assembly.pattern given)).toOption := by
    rw [← hfirst]
    exact declaredVersion?_encode (hfirst ▸ hgiven)
  have hsame := declaredVersion?_of_reads hs.reads hgiven
  obtain ⟨w₁, hbefore, -⟩ := probe_of_readFile hs.readFile
  obtain ⟨w₂, htarget⟩ := ht.probe_after ht (passText given old)
  obtain ⟨w₃, hsource⟩ := hs.probe_after ht (passText given old)
  rw [hsame] at hbefore
  rw [if_pos rfl, hnew] at htarget
  rw [apply_ite declaredVersion?, hnew, hsame, ite_self] at hsource
  exact ⟨w₁, w₂, w₃, hbefore, htarget, hsource⟩

namespace Passing

def sourceText : Text :=
  "// release\r\n[assembly:  AssemblyVersion(\"1.2.0\")]\r[assembly: AssemblyVersion(\"7\")]".toList

def targetText : Text :=
  "__version__ = '9'\n[assembly:AssemblyVersion(\"3\")][assembly: AssemblyFileVersion(\"4\")]"
    |>.toList

def projects : World where
  tree := ⟨[(["a".toList], .directory), (["a".toList, "Properties".toList], .directory),
    (["a".toList, "Properties".toList, "AssemblyInfo.cs".toList],
      .file (Utf8.mark ++ Utf8.encode sourceText)),
    (["b".toList], .directory), (["b".toList, "Properties".toList], .directory),
    (["b".toList, "Properties".toList, "AssemblyInfo.cs".toList], .file (Utf8.encode targetText))]⟩

theorem describes_source : Describes projects "a".toList (Utf8.mark ++ Utf8.encode sourceText)
    sourceText :=
  ⟨by decide +kernel, by decide +kernel, by decide +kernel, .marked _⟩

theorem describes_target : Describes projects "b".toList (Utf8.encode targetText) targetText :=
  ⟨by decide +kernel, by decide +kernel, by decide +kernel, .bare _ (by decide +kernel)⟩

end Passing

open Passing in
theorem passed_version_is_probed_projects :
    DeclaresAssembly projects "a".toList ∧ DeclaresAssembly projects "b".toList ∧
    ∃ passed w', pass "a".toList "b".toList projects = .ok passed w' ∧
      passed = ("1.2.0".toList, []) ∧
      ∃ w₁, probe (fileOf "b".toList) w' = .ok (some [1, 2]) w₁ := by
  have hs : DeclaresAssembly projects "a".toList :=
    ⟨_, _, 12, ⟨.assembly, 2, "1.2.0".toList⟩, describes_source, by decide +kernel, rfl⟩
  have ht : DeclaresAssembly projects "b".toList :=
    ⟨_, _, 18, ⟨.assembly, 0, "3".toList⟩, describes_target, by decide +kernel, rfl⟩
  have hpass := pass_of_describes describes_source describes_target
  have hfirst : (firstVersion Kind.assembly.pattern sourceText,
      firstVersion Kind.file.pattern sourceText) = ("1.2.0".toList, []) := by decide +kernel
  rw [hfirst] at hpass
  have hparse : (Version.parse "1.2.0".toList).toOption = some [1, 2] := by decide +kernel
  obtain ⟨-, w₂, -, -, hprobe, -⟩ := passed_version_is_probed hs ht hpass
  rw [hparse] at hprobe
  exact ⟨hs, ht, _, _, hpass, rfl, w₂, hprobe⟩

end Metadata

end Rollout
