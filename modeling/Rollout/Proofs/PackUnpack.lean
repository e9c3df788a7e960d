import Rollout.Proofs.Exchange

namespace Rollout

open Text Script Interpreter

namespace Builtin

variable {settings : Settings} {s : Session} {w : World}

theorem pack_ok {list listing : Text} (hl : list ≠ []) (hs : s.store.source ≠ [])
    (ht : s.store.target ≠ [])
    (hread : settings.resources.readText (unquote list) s.world = .ok listing s.world)
    (hpack : packing (settings.pathOf s.store.source) (settings.pathOf s.store.target) listing
      s.world = .ok () w) :
    ∃ journal, pack settings [list] s = .ok .next { s with world := { w with journal } } := by
  have hargument : [list].head?.getD [] = list := rfl
  rw [pack, hargument, bind_of_ok (require_of_ne_nil hl _ _ _), get_bind,
    bind_of_ok (require_of_ne_nil hs _ _ _), bind_of_ok (require_of_ne_nil ht _ _ _)]
  exact ⟨_, (bind_of_ok (attempt_onWorld_of_ok hread)).trans
    (bind_of_ok (attempt_onWorld_of_ok hpack))⟩

theorem unpack_ok {data : Bytes} (hs : s.store.source ≠ []) (ht : s.store.target ≠ [])
    (hread : settings.resources.read (unquote s.store.source) s.world = .ok data s.world)
    (hextract : Archiver.extract { codec := .deflate } (Stream.ofBytes portion data)
      (settings.pathOf s.store.target) s.world = .ok () w) :
    unpack settings s = .ok .next { s with world := w } := by
  rw [unpack, get_bind, bind_of_ok (require_of_ne_nil hs _ _ _),
    bind_of_ok (require_of_ne_nil ht _ _ _)]
  exact (bind_of_ok (attempt_onWorld_of_ok hread)).trans
    (bind_of_ok (attempt_onWorld_of_ok hextract))

end Builtin

structure Settings.Offers (settings : Settings) (w : World) (script : Text) (lines : List Text) :
    Prop where
  notExit : script ≠ exitToken
  text : ∃ text, settings.resources.readText (unquote script) w = .ok text w ∧
    activeLines text = lines

def Session.aimed (s : Session) (script : Text) (line : Option Text) (source target : Text)
    (journal : Journal) : Session :=
  { s with
    script := some script
    line
    store := { s.store with source, target }
    world := { s.world with journal } }

section

variable (settings : Settings) (nested : Nested) (script : Text)
  {source target : Text} (hs : Operand source) (ht : Operand target) (s : Session)

include hs ht

/-- The two assignments with which both scripts begin. -/
theorem untilExit_assignments (rest : List Text) :
    ∃ line journal, untilExit (runLine settings nested script)
        ((spell Variable.source.name ++ '=' :: source) ::
          (spell Variable.target.name ++ '=' :: target) :: rest) s =
      untilExit (runLine settings nested script) rest
        (s.aimed script line source target journal) := by
  obtain ⟨line₁, journal₁, hfirst⟩ := runLine_assignment settings nested script (v := .source)
    hs.toIsValue (s := s) rfl
  obtain ⟨line₂, journal₂, hsecond⟩ := runLine_assignment settings nested script (v := .target)
    ht.toIsValue (s := { s with
      script := some script
      line := line₁
      store := { s.store with source }
      world := { s.world with journal := journal₁ } }) rfl
  exact ⟨line₂, journal₂, (untilExit_cons_of_next hfirst _).trans (untilExit_cons_of_next hsecond _)⟩

end

namespace Exchange

variable {settings : Settings} {s : Session} {source archive target listing : Text}

theorem run_pack
    (h : Exchange settings s.world.tree s.world.current source archive target listing)
    (hd : s.world.denied = [])
    (hst : ∀ names ∈ listed listing,
      (Archiver.recordAt s.world.tree (settings.named s.world.current source) names).Storable)
    {list : Text} (hl : IsToken list)
    (hlisting : settings.resources.readText (unquote list) s.world = .ok listing s.world)
    {script : Text} (hscript : settings.Offers s.world script
      [spell Variable.source.name ++ '=' :: source, spell Variable.target.name ++ '=' :: archive,
        Command.pack.name ++ ' ' :: list]) (limit : Nat) :
    ∃ s' t' journal, run settings (limit + 1) [script] s = .ok true s' ∧
      s'.world = { s.world with tree := t', journal } ∧
      s.world.tree.Filed t' (settings.named s.world.current archive)
        (Archiver.pack .deflate ((listed listing).map
          (Archiver.recordAt s.world.tree (settings.named s.world.current source)))) := by
  obtain ⟨text, hread, hlines⟩ := hscript.text
  obtain ⟨line, journal, hassign⟩ := untilExit_assignments settings (levels settings limit)
    (unquote script) h.source_operand h.archive_operand s.renewed.deepened
    [Command.pack.name ++ ' ' :: list]
  let s₁ := s.renewed.deepened.aimed (unquote script) line source archive journal
  let s₂ := (s₁.begin ⟨unquote script, Command.pack.name ++ ' ' :: list⟩).announced .pack [list]
  have hcommand : runLine settings (levels settings limit) (unquote script)
      (Command.pack.name ++ ' ' :: list) s₁ = Builtin.pack settings [list] s₂ :=
    runLine_command_token settings _ _ .pack s₁ rfl hl
  have hlist : settings.resources.readText (unquote list) s₂.world = .ok listing s₂.world := by
    rw [h.resources] at hlisting ⊢
    obtain ⟨content, hholds, hdecode⟩ := Resources.holds_of_readText hlisting
    have hholds₂ : Resources.Holds settings.directory (unquote list) s₂.world content :=
      hholds.mono rfl (fun _ hd => hd) rfl
    exact hholds₂.readText hd hdecode
  obtain ⟨t', hpacking, hfiled⟩ := h.packing_ok (w := s₂.world) rfl rfl hd hst
  obtain ⟨journal', hpack⟩ := Builtin.pack_ok (s := s₂) hl.ne_nil h.source_operand.ne_nil
    h.archive_operand.ne_nil hlist hpacking
  have hall := hassign.trans (untilExit_cons_of_next (hcommand.trans hpack) [])
  rw [← hlines] at hall
  obtain ⟨s', journal'', hrun, hworld⟩ := run_of_lines hscript.notExit hread hall rfl rfl
  exact ⟨s', t', journal'', hrun, hworld, hfiled⟩

/-- A script is still there once the archive has been written, unless this takes its place. -/
theorem offers_of_filed
    (h : Exchange settings s.world.tree s.world.current source archive target listing)
    (hd : s.world.denied = []) {t' : Tree} {bytes : Bytes}
    (hp : s.world.tree.Filed t' (settings.named s.world.current archive) bytes)
    {script : Text} {lines : List Text} (hscript : settings.Offers s.world script lines)
    (hne : settings.named s.world.current script ≠ settings.named s.world.current archive)
    (journal : Journal) : settings.Offers { s.world with tree := t', journal } script lines := by
  obtain ⟨text, hread, hlines⟩ := hscript.text
  refine ⟨hscript.notExit, text, ?_, hlines⟩
  rw [h.resources] at hread ⊢
  obtain ⟨content, hholds, hdecode⟩ := Resources.holds_of_readText hread
  have hfile := (Tree.find_eq_ok.mp hholds.find).2.2
  have hkept : Resources.Holds settings.directory (unquote script)
      { s.world with tree := t', journal } content := by
    refine hholds.mono rfl (fun l => h.keeps_directory hp) ?_
    exact (h.keeps_file hp hfile hne).trans hfile.symm
  exact hkept.readText hd hdecode

theorem run_unpack {w : World}
    (h : Exchange settings w.tree w.current source archive target listing) (hd : w.denied = [])
    (hst : ∀ names ∈ listed listing,
      (Archiver.recordAt w.tree (settings.named w.current source) names).Storable)
    {t' : Tree} {journal : Journal} (hw : s.world = { w with tree := t', journal })
    (hp : w.tree.Filed t' (settings.named w.current archive)
      (Archiver.pack .deflate
        ((listed listing).map (Archiver.recordAt w.tree (settings.named w.current source)))))
    {script : Text} (hscript : settings.Offers s.world script
      [spell Variable.source.name ++ '=' :: archive, spell Variable.target.name ++ '=' :: target,
        Command.unpack.name]) (limit : Nat) :
    ∃ s', run settings (limit + 1) [script] s = .ok true s' ∧
      ∀ k, k ≠ [] → s'.world.tree.get? (settings.named w.current target ++ k) =
        if ∃ names ∈ listed listing, k <+: names then
          w.tree.get? (settings.named w.current source ++ k) else none := by
  obtain ⟨text, hread, hlines⟩ := hscript.text
  obtain ⟨line, journal, hassign⟩ := untilExit_assignments settings (levels settings limit)
    (unquote script) h.archive_operand h.target_operand s.renewed.deepened [Command.unpack.name]
  let s₁ := s.renewed.deepened.aimed (unquote script) line archive target journal
  let s₂ := (s₁.begin ⟨unquote script, Command.unpack.name⟩).announced .unpack []
  have hcommand : runLine settings (levels settings limit) (unquote script)
      Command.unpack.name s₁ = Builtin.unpack settings s₂ :=
    runLine_command_alone settings _ _ .unpack s₁ rfl
  obtain ⟨htree, hcurrent, hdenied⟩ : s₂.world.tree = t' ∧ s₂.world.current = w.current ∧
      s₂.world.denied = [] := by
    change s.world.tree = t' ∧ s.world.current = w.current ∧ s.world.denied = []
    rw [hw]
    exact ⟨rfl, rfl, hd⟩
  have hdata := (h.holds_archive hp htree).read hdenied
  rw [← h.resources, ← unquote_of_not_mem h.archive_operand.noQuote] at hdata
  obtain ⟨w', hextract, hbelow⟩ := h.extract_ok hp htree hcurrent hdenied rfl hst
  have hunpack := Builtin.unpack_ok (s := s₂) h.archive_operand.ne_nil h.target_operand.ne_nil
    hdata hextract
  have hall := hassign.trans (untilExit_cons_of_next (hcommand.trans hunpack) [])
  rw [← hlines] at hall
  obtain ⟨s', journal', hrun, hworld⟩ := run_of_lines hscript.notExit hread hall rfl rfl
  refine ⟨s', hrun, ?_⟩
  rw [hworld]
  exact hbelow

end Exchange

/-- Listed files are packed by one script and unpacked by another. Both runs succeed, also when the
second one is that of a new interpreter. Below the destination there are then the listed files, with
the contents they had, and the directories that lead to them, and nothing else. -/
theorem pack_then_unpack {settings : Settings} {s : Session}
    {source archive target listing : Text}
    (h : Exchange settings s.world.tree s.world.current source archive target listing)
    (hd : s.world.denied = []) {list : Text} (hl : IsToken list)
    (hlisting : settings.resources.readText (unquote list) s.world = .ok listing s.world)
    {first second : Text}
    (hfirst : settings.Offers s.world first
      ["$(Source)=".toList ++ source, "$(Target)=".toList ++ archive, "Pack ".toList ++ list])
    (hsecond : settings.Offers s.world second
      ["$(Source)=".toList ++ archive, "$(Target)=".toList ++ target, "Unpack".toList])
    (hne : settings.named s.world.current second ≠ settings.named s.world.current archive)
    (limit limit' : Nat) :
    ∃ s₁, run settings (limit + 1) [first] s = .ok true s₁ ∧
      ∀ s₂, s₂.world = s₁.world → ∃ s₃, run settings (limit' + 1) [second] s₂ = .ok true s₃ ∧
        ∀ k, k ≠ [] → s₃.world.tree.get? (settings.named s.world.current target ++ k) =
          if ∃ names ∈ listed listing, k <+: names then
            s.world.tree.get? (settings.named s.world.current source ++ k) else none := by
  have hlist := hlisting
  rw [h.resources] at hlist
  obtain ⟨content, hholds, hdecode⟩ := Resources.holds_of_readText hlist
  have hst := h.storable rfl hholds hdecode
  obtain ⟨s₁, t', journal, hrun, hworld, hfiled⟩ := h.run_pack hd hst hl hlisting hfirst limit
  refine ⟨s₁, hrun, fun s₂ hs₂ => ?_⟩
  have hw := hs₂.trans hworld
  have hscript := h.offers_of_filed hd hfiled hsecond hne journal
  rw [← hw] at hscript
  exact h.run_unpack hd hst hw hfiled hscript limit'

namespace Exchange

def depot : Settings where
  resources := .directory "/work".toList
  version := [1]
  directory := "/work".toList

def stock : Session where
  world :=
    { Archiver.Transfer.nested with
      tree := Archiver.Transfer.nested.tree
        |>.insert ["work".toList, "list".toList] (.file (Utf8.encode "\n a\\//x\n".toList))
        |>.insert ["work".toList, "first".toList] (.file (Utf8.encode
          "$(Source)=src\n$(Target)=new.arc\nPack list".toList))
        |>.insert ["work".toList, "second".toList] (.file (Utf8.encode
          "$(Source)=new.arc\n$(Target)=out/new\nUnpack".toList)) }

theorem sound_stock : stock.world.tree.Sound :=
  Archiver.Transfer.sound_nested
    |>.insert ["work".toList] _ rfl (by decide) (by decide) _
    |>.insert ["work".toList] _ rfl (by decide) (by decide) _
    |>.insert ["work".toList] _ rfl (by decide) (by decide) _

theorem exchange_stock : Exchange depot stock.world.tree stock.world.current "src".toList
    "new.arc".toList "out/new".toList "\n a\\//x\n".toList where
  resources := rfl
  settled := ⟨by decide, by decide⟩
  sound := sound_stock
  small := by
    intro l content hl
    have hall : ∀ e ∈ stock.world.tree.entries,
        (stock.world.tree.contentAt e.1).length < 0x80000000 := by decide +kernel
    have hmem : (l, .file content) ∈ stock.world.tree.entries := by
      rw [Tree.get?] at hl
      split at hl
      · cases hl
      · obtain ⟨before, after, he, -⟩ := List.lookup_eq_some_iff.mp hl
        simp [he]
    rw [← Tree.contentAt_of_file hl]
    exact hall _ hmem
  source_operand := ⟨⟨by decide, by decide, by decide, by decide⟩, by decide, by decide, by decide⟩
  source_isDirectory := by decide
  isFile := by
    intro names hn
    have hlisted : listed "\n a\\//x\n".toList = [["a".toList, "x".toList]] := by decide +kernel
    rw [hlisted] at hn
    obtain rfl : names = ["a".toList, "x".toList] := by simpa using hn
    exact ⟨[1, 2], rfl⟩
  archive_operand := ⟨⟨by decide, by decide, by decide, by decide⟩, by decide, by decide, by decide⟩
  archive_noSlash := by decide
  archive_holdable := by decide
  archive_above := by
    intro k hk
    have hall : ∀ k ∈ (depot.named stock.world.current "new.arc".toList).inits,
        k ≠ depot.named stock.world.current "new.arc".toList →
          stock.world.tree.get? k = none ∨ stock.world.tree.get? k = some .directory := by decide
    exact hall k ((List.mem_inits _ _).mpr hk)
  archive_free := by decide
  archive_new := by decide
  target_operand := ⟨⟨by decide, by decide, by decide, by decide⟩, by decide, by decide, by decide⟩
  target_holdable := by decide
  target_above := by
    intro k hk
    have hall : ∀ k ∈ (depot.named stock.world.current "out/new".toList).inits,
        stock.world.tree.get? k = none ∨ stock.world.tree.get? k = some .directory := by decide
    exact hall k ((List.mem_inits _ _).mpr hk)
  target_empty := by
    intro k hk
    by_contra hsome
    have hd := sound_stock.grounded.get?_above (Option.isSome_iff_ne_none.mpr hsome) hk
    exact absurd hd (by decide)
  target_outside := by decide
  target_aside := by decide

end Exchange

open Exchange in
/-- A file is listed with other separators, and unpacked below a missing directory. -/
theorem pack_then_unpack_stock :
    ∃ s₁ s₃, run depot 1 ["first".toList] stock = .ok true s₁ ∧
      run depot 1 ["second".toList] s₁ = .ok true s₃ ∧
      s₃.world.tree.get? ["work".toList, "out".toList, "new".toList, "a".toList, "x".toList] =
        some (.file [1, 2]) := by
  have hlist : IsToken "list".toList := ⟨by decide, by decide, by decide, by decide, by decide⟩
  have hfirst : depot.Offers stock.world "first".toList ["$(Source)=".toList ++ "src".toList,
      "$(Target)=".toList ++ "new.arc".toList, "Pack ".toList ++ "list".toList] :=
    ⟨by decide, _, rfl, by decide⟩
  have hsecond : depot.Offers stock.world "second".toList ["$(Source)=".toList ++ "new.arc".toList,
      "$(Target)=".toList ++ "out/new".toList, "Unpack".toList] := ⟨by decide, _, rfl, by decide⟩
  obtain ⟨s₁, hpack, hnext⟩ :=
    pack_then_unpack exchange_stock rfl hlist rfl hfirst hsecond (by decide) 0 0
  obtain ⟨s₃, hunpack, hbelow⟩ := hnext s₁ rfl
  exact ⟨s₁, s₃, hpack, hunpack, hbelow ["a".toList, "x".toList] (by decide)⟩

/-- A file `x` is to be packed and unpacked, under the given names. -/
structure Errand where
  source : Text := "src".toList
  archive : Text := "new.arc".toList
  target : Text := "out".toList
  list : Text := "list".toList
  script : Text := "first".toList

namespace Errand

open Exchange

def packLines (e : Errand) : List Text :=
  ["$(Source)=".toList ++ e.source, "$(Target)=".toList ++ e.archive, "Pack ".toList ++ e.list]

def unpackLines (e : Errand) : List Text :=
  ["$(Source)=".toList ++ e.archive, "$(Target)=".toList ++ e.target, "Unpack".toList]

def session (e : Errand) : Session where
  world :=
    { tree := Tree.empty
        |>.put ["work".toList, e.source, "x".toList] [1, 2]
        |>.put ["work".toList, e.list] (Utf8.encode "x".toList)
        |>.put ["work".toList, e.script] (Utf8.encode (Text.join ['\n'] e.packLines))
        |>.put ["work".toList, "second".toList] (Utf8.encode (Text.join ['\n'] e.unpackLines))
      current := "/work".toList }

def isPlain (e : Errand) : Bool :=
  [e.source, e.archive, e.target].all fun p =>
    !p.isEmpty && !Path.isAbsolute p &&
      (Path.names p).all (fun n => n ≠ Path.dot && n ≠ Path.dotDot) &&
      p.all fun c => !" \"#=$".toList.contains c

def isReady (e : Errand) : Bool :=
  let tree := e.session.world.tree
  let place (p : Text) := depot.named "/work".toList p
  tree.get? (place e.source ++ ["x".toList]) = some (.file [1, 2]) &&
    tree.get? (place e.list) = some (.file (Utf8.encode "x".toList)) &&
    tree.get? (place e.archive) = none && tree.get? (place e.target) = none &&
    tree.get? (place e.script) = some (.file (Utf8.encode (Text.join ['\n'] e.packLines))) &&
    activeLines (Text.join ['\n'] e.packLines) = e.packLines &&
    tree.get? (place "second".toList) = some (.file (Utf8.encode (Text.join ['\n'] e.unpackLines))) &&
    activeLines (Text.join ['\n'] e.unpackLines) = e.unpackLines

def succeeds (e : Errand) : Bool :=
  match run depot 1 [e.script] e.session with
  | .ok true s =>
    match run depot 1 ["second".toList] s with
    | .ok result _ => result
    | .error _ _ => false
  | _ => false

end Errand

/-- A slash after the archive, a name that cannot be held, a blank before the source, a list that
looks like an assignment, and a script that is named like the exit token. -/
theorem errand_fails :
    ([{ archive := "new.arc/".toList }, { archive := List.replicate 256 'x' },
      { target := List.replicate 256 'x' }, { source := "\tsrc".toList },
      { list := "li=st".toList }, { script := exitToken }] : List Errand).all fun e =>
        e.isPlain && e.isReady && !e.succeeds := by
  decide +kernel

end Rollout
