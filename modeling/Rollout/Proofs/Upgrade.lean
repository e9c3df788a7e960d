import Rollout.Proofs.Attributes
import Rollout.Proofs.LineRequests

namespace Rollout

open Text Script Interpreter Version Metadata

def SameButLog (w w' : World) : Prop :=
  ∃ es, w' = { w with journal := w.journal ++ es } ∧
    ∀ e ∈ es, ∃ level channel t, e = .log level channel t

instance : IsPreorder World SameButLog where
  refl _ := ⟨[], by simp, nofun⟩
  trans := by
    rintro u _ _ ⟨es, rfl, hes⟩ ⟨es', rfl, hes'⟩
    refine ⟨es ++ es', by simp, fun e he => ?_⟩
    obtain he | he := List.mem_append.mp he
    · exact hes e he
    · exact hes' e he

theorem log_sameButLog (level : Level) (channel : Channel) (t : Text) :
    Obeys SameButLog (log level channel t) :=
  obeys_modify fun _ => ⟨[.log level channel t], rfl, by simp⟩

theorem Session.announced_sameButLog (s : Session) (command : Command) (arguments : List Text) :
    SameButLog s.world (s.announced command arguments).world :=
  ⟨_, rfl, by simp⟩

/-- The numbers are greater at the first place where they differ, with zeros added to the list that
is shorter. -/
def IsNewer (ns ms : List Nat) : Prop :=
  ms.rightpad (max ns.length ms.length) 0 < ns.rightpad (max ns.length ms.length) 0

instance (ns ms : List Nat) : Decidable (IsNewer ns ms) := inferInstanceAs (Decidable (_ < _))

theorem cmp_eq_gt {a b : List Nat} : cmp a b = .gt ↔ b < a := by
  unfold cmp cmpUsing
  constructor
  · intro h
    split_ifs at h with hlt hgt
    exact hgt
  · intro h
    rw [if_neg (List.lt_asymm h), if_pos h]

theorem compare_eq_gt {ns ms : List Nat} (hn : ns ≠ []) (hm : ms ≠ []) :
    Version.compare (trimZeros (ns.map Int.ofNat)) (trimZeros (ms.map Int.ofNat)) = .gt ↔
      IsNewer ns ms := by
  rw [compare_trimZeros hn hm (Nat.le_max_left _ _) (Nat.le_max_right _ _), cmp_eq_gt, IsNewer]

def declaredNumbers (content : Bytes) : List Nat :=
  match declared? (unifyNewlines (Utf8.decodeLossy content)) with
  | none => [0]
  | some t =>
    match Version.parse t with
    | .ok _ => numbers t
    | .error _ => [0]

theorem declaredNumbers_ne_nil (content : Bytes) : declaredNumbers content ≠ [] := by
  unfold declaredNumbers
  split
  · nofun
  · split
    · exact numbers_ne_nil _
    · nofun

namespace Metadata

def declaredVersion? (content : Bytes) : Option Version :=
  (declared? (unifyNewlines (Utf8.decodeLossy content))).bind fun t => (Version.parse t).toOption

theorem probe_of_readFile {path : Text} {content : Bytes} {w w' : World}
    (h : readFile path w = .ok content w') :
    ∃ w₁, probe path w = .ok (declaredVersion? content) w₁ ∧ SameButLog w' w₁ := by
  unfold probe declaredVersion?
  rw [bind_of_ok h]
  cases declared? (unifyNewlines (Utf8.decodeLossy content)) with
  | none => exact ⟨w', rfl, refl _⟩
  | some t =>
    dsimp only [Option.bind]
    cases Version.parse t with
    | ok v => exact ⟨w', rfl, refl _⟩
    | error e => exact ⟨_, rfl, log_sameButLog _ _ _ _⟩

theorem declaredVersion?_eq (content : Bytes) :
    (match declaredVersion? content with | some (n :: rest) => n :: rest | _ => [0]) =
      trimZeros ((declaredNumbers content).map Int.ofNat) := by
  unfold declaredVersion? declaredNumbers
  cases hd : declared? (unifyNewlines (Utf8.decodeLossy content)) with
  | none => rfl
  | some t =>
    dsimp only [Option.bind]
    cases hv : Version.parse t with
    | error e => rfl
    | ok v =>
      obtain rfl := (isDotted_of_declared? hd).parse_eq hv
      obtain ⟨n, ns, hns⟩ := List.exists_cons_of_ne_nil (numbers_ne_nil t)
      dsimp only [Except.toOption]
      rw [hns, trimZeros_cons]

end Metadata

section

variable {settings : Settings} {nested : Nested} {s : Session}

theorem installedVersion_of_readFile {path : Text} {content : Bytes} {w w' : World}
    (hp : settings.probe = .declared) (h : readFile path w = .ok content w') :
    ∃ w₁, Builtin.installedVersion settings path w =
        .ok (trimZeros ((declaredNumbers content).map Int.ofNat)) w₁ ∧ SameButLog w' w₁ := by
  obtain ⟨w₁, hprobe, hlog⟩ := Metadata.probe_of_readFile h
  refine ⟨w₁, ?_, hlog⟩
  unfold Builtin.installedVersion
  rw [hp, ← Metadata.declaredVersion?_eq]
  refine (bind_of_ok hprobe).trans ?_
  cases Metadata.declaredVersion? content with
  | none => rfl
  | some v => cases v <;> rfl

/-- The path is no file, or the file that it is declares an older version than the running one. -/
def Upgrades (running : Text) (path : Text) (w : World) : Prop :=
  w.isFile path = false ∨
    ∃ content, w.tree.read w.current path = .ok content ∧
      IsNewer (numbers running) (declaredNumbers content)

theorem fail_spec (flag : Flag) (message : Option Text) (exitCode : Option Int) (s : Session) :
    ∃ flow s', fail flag message exitCode s = .ok flow s' ∧ s'.status = s.status.add flag := by
  cases h : s.store.ignoreErrors with
  | true => exact ⟨_, _, fail_of_ignoring h flag message exitCode, rfl⟩
  | false => exact ⟨_, _, fail_of_strict h flag message exitCode, rfl⟩

def installedNote (content : Bytes) (path : Text) : Text :=
  "Version ".toList ++ describe (trimZeros ((declaredNumbers content).map Int.ofNat)) ++
    " is already installed at ".toList ++ path

/-- At a file that can be read, the versions decide. -/
theorem decideUpgrade_of_readFile {running path : Text} {content : Bytes} {w : World}
    (hdotted : IsDotted running) (hv : Version.parse running = .ok settings.version)
    (hp : settings.probe = .declared) (hfile : s.world.isFile path = true)
    (hread : readFile path s.world = .ok content w) :
    ∃ w₁, SameButLog s.world w₁ ∧
      Builtin.decideUpgrade settings path s =
        (if IsNewer (numbers running) (declaredNumbers content) then pure none
          else some <$> fail .alreadyInstalled (some (installedNote content path)) none)
            { s with world := w₁ } := by
  obtain ⟨w₁, hinstalled, hlog⟩ := installedVersion_of_readFile hp hread
  obtain ⟨-, -, -, rfl⟩ := readFile_eq_ok.mp hread
  refine ⟨w₁, hlog, ?_⟩
  rw [Builtin.decideUpgrade, get_bind, hfile]
  refine (bind_of_ok (onWorld_of_ok hinstalled)).trans ?_
  simp only [hdotted.parse_eq hv,
    compare_eq_gt (numbers_ne_nil running) (declaredNumbers_ne_nil content)]
  split
  · rfl
  · rfl

theorem upgrades_iff {running path : Text} {content : Bytes} {w w' : World}
    (hfile : w.isFile path = true) (hread : readFile path w = .ok content w') :
    Upgrades running path w ↔ IsNewer (numbers running) (declaredNumbers content) := by
  obtain ⟨-, -, hcontent, -⟩ := readFile_eq_ok.mp hread
  simp [Upgrades, hfile, hcontent]

theorem execute_upgrade {name path : Text} {rest : List Text} {s₁ : Session}
    (head : headOf name = .builtin .ifUpgradeTo) (path_ne : path ≠ [])
    (h : Builtin.decideUpgrade settings (settings.pathOf path)
      (s.announced .ifUpgradeTo (path :: rest)) = .ok none s₁) :
    execute settings nested (name :: path :: rest) s =
      (if rest.isEmpty then pure .next
        else descend nested fun _ below => execute settings below rest) s₁ := by
  rw [execute_of_condition head rfl path_ne]
  exact bind_of_ok h

theorem execute_installed {name path : Text} {rest : List Text} {s₁ : Session} {message : Text}
    (head : headOf name = .builtin .ifUpgradeTo) (path_ne : path ≠ [])
    (h : Builtin.decideUpgrade settings (settings.pathOf path)
      (s.announced .ifUpgradeTo (path :: rest)) =
        (some <$> fail .alreadyInstalled (some message) none) s₁) :
    execute settings nested (name :: path :: rest) s =
      fail .alreadyInstalled (some message) none s₁ := by
  obtain ⟨flow, s₂, hfail, -⟩ := fail_spec .alreadyInstalled (some message) none s₁
  rw [execute_of_condition head rfl path_ne, hfail]
  refine bind_of_ok (x := some flow) (h.trans ?_)
  exact bind_of_ok hfail

end

/-- Versions of digits and dots are in the order of their numbers, with zeros added to the shorter
one, and this order decides whether the rest of a line with the upgrade command is executed. -/
theorem upgrade_by_padded_numbers :
    (∀ a b va vb, IsDotted a → IsDotted b → Version.parse a = .ok va → Version.parse b = .ok vb →
      (∀ n, (numbers a).length ≤ n → (numbers b).length ≤ n →
        Version.compare va vb = cmp ((numbers a).rightpad n 0) ((numbers b).rightpad n 0)) ∧
      (va = vb ↔ SameButZeros a b)) ∧
    (∀ (settings : Settings) (nested : Nested) (s : Session)
      (running name path : Text) (rest : List Text),
      IsDotted running → Version.parse running = .ok settings.version →
      settings.probe = .declared → headOf name = .builtin .ifUpgradeTo → path ≠ [] →
      (s.world.isFile (settings.pathOf path) →
        ∃ content w, readFile (settings.pathOf path) s.world = .ok content w) →
      ∃ w, SameButLog s.world w ∧
        (Upgrades running (settings.pathOf path) s.world →
          execute settings nested (name :: path :: rest) s =
            (if rest.isEmpty then pure .next
              else descend nested fun _ below => execute settings below rest)
              { s with world := w }) ∧
        (¬ Upgrades running (settings.pathOf path) s.world →
          ∃ content flow s',
            s.world.tree.read s.world.current (settings.pathOf path) = .ok content ∧
            execute settings nested (name :: path :: rest) s =
              fail .alreadyInstalled (some (installedNote content (settings.pathOf path))) none
                { s with world := w } ∧
            execute settings nested (name :: path :: rest) s = .ok flow s' ∧
            s'.status = s.status.add .alreadyInstalled)) := by
  refine ⟨fun a b va vb ha hb hva hvb =>
    ⟨fun n => ha.compare_eq hb hva hvb, ha.eq_iff hb hva hvb⟩, ?_⟩
  intro settings nested s running name path rest hdotted hv hp head path_ne hread
  have hannounced := s.announced_sameButLog .ifUpgradeTo (path :: rest)
  cases hfile : s.world.isFile (settings.pathOf path) with
  | false =>
    refine ⟨_, hannounced, fun _ => ?_, fun h => absurd (.inl hfile) h⟩
    refine execute_upgrade head path_ne ?_
    have hnone : (s.announced .ifUpgradeTo (path :: rest)).world.isFile (settings.pathOf path) =
        false := hfile
    rw [Builtin.decideUpgrade, get_bind, hnone]
    rfl
  | true =>
    obtain ⟨content, w, hread⟩ := hread hfile
    obtain ⟨hdenied, hnull, hcontent, -⟩ := readFile_eq_ok.mp hread
    -- the announcement changes nothing that is read
    have hread' : readFile (settings.pathOf path) (s.announced .ifUpgradeTo (path :: rest)).world =
        .ok content (s.announced .ifUpgradeTo (path :: rest)).world :=
      readFile_eq_ok.mpr ⟨hdenied, hnull, hcontent, rfl⟩
    have hfile' : (s.announced .ifUpgradeTo (path :: rest)).world.isFile (settings.pathOf path) =
        true := hfile
    obtain ⟨w₁, hlog, hdecide⟩ := decideUpgrade_of_readFile hdotted hv hp hfile' hread'
    refine ⟨w₁, IsTrans.trans _ _ _ hannounced hlog, fun h => ?_, fun h => ?_⟩
    · rw [if_pos ((upgrades_iff hfile hread).mp h)] at hdecide
      exact execute_upgrade head path_ne hdecide
    · rw [if_neg fun hn => h ((upgrades_iff hfile hread).mpr hn)] at hdecide
      have hexecute : execute settings nested (name :: path :: rest) s = _ :=
        execute_installed head path_ne hdecide
      obtain ⟨flow, s', hfail, hstatus⟩ := fail_spec .alreadyInstalled
        (some (installedNote content (settings.pathOf path))) none
        { s.announced .ifUpgradeTo (path :: rest) with world := w₁ }
      exact ⟨content, flow, s', hcontent, hexecute, hexecute.trans hfail, hstatus⟩

namespace Upgrade

def installed : Bytes := Utf8.encode "[assembly: AssemblyVersion(\"1.9.0\")]".toList

def plant : Session where
  world := { tree := ⟨[(["app".toList], .file installed)]⟩ }

def settings (version : Version) : Settings where
  resources := .memory []
  version := version
  directory := "/".toList

end Upgrade

open Upgrade in
theorem upgrade_by_padded_numbers_plant :
    (IsDotted "1.9".toList ∧ Version.parse "1.9".toList = .ok [1, 9] ∧
      Version.parse "01.9.0".toList = .ok [1, 9] ∧ SameButZeros "1.9".toList "01.9.0".toList) ∧
    (∃ w, execute (settings [1, 10]) (levels (settings [1, 10]) 2)
      ["IfUpgradeTo".toList, "app".toList, "Message".toList, "new".toList] plant =
        execute (settings [1, 10]) (levels (settings [1, 10]) 1) ["Message".toList, "new".toList]
          { plant with world := w }) ∧
    (∃ flow s', execute (settings [1, 9]) (levels (settings [1, 9]) 2)
      ["IfUpgradeTo".toList, "app".toList, "Message".toList, "new".toList] plant = .ok flow s' ∧
        s'.status = Status.ok.add .alreadyInstalled) := by
  have hdotted : IsDotted "1.9".toList ∧ IsDotted "01.9.0".toList ∧ IsDotted "1.10".toList := by
    decide +kernel
  have hparse : Version.parse "1.9".toList = .ok [1, 9] ∧
      Version.parse "01.9.0".toList = .ok [1, 9] ∧ Version.parse "1.10".toList = .ok [1, 10] := by
    decide +kernel
  have hpath (v : Version) : (settings v).pathOf "app".toList = "/app".toList := by
    change Path.join "/".toList (unquote "app".toList) = "/app".toList
    decide +kernel
  have hcontent : plant.world.tree.read plant.world.current "/app".toList = .ok installed := by
    decide +kernel
  have hread : readFile "/app".toList plant.world = .ok installed plant.world :=
    readFile_eq_ok.mpr ⟨by decide +kernel, by decide +kernel, hcontent, rfl⟩
  have hfile : plant.world.isFile "/app".toList = true := by decide +kernel
  have hnumbers : IsNewer (numbers "1.10".toList) (declaredNumbers installed) ∧
      ¬ IsNewer (numbers "1.9".toList) (declaredNumbers installed) := by decide +kernel
  have hhead : headOf "IfUpgradeTo".toList = .builtin .ifUpgradeTo := by decide +kernel
  have heq := (upgrade_by_padded_numbers.1 _ _ _ _ hdotted.1 hdotted.2.1 hparse.1 hparse.2.1).2
  refine ⟨⟨hdotted.1, hparse.1, hparse.2.1, heq.mp rfl⟩, ?_, ?_⟩
  · obtain ⟨w, -, hnewer, -⟩ := upgrade_by_padded_numbers.2 (settings [1, 10])
      (levels (settings [1, 10]) 2) plant "1.10".toList "IfUpgradeTo".toList "app".toList
      ["Message".toList, "new".toList]
      hdotted.2.2 hparse.2.2 rfl hhead nofun fun _ => ⟨_, _, by rw [hpath]; exact hread⟩
    rw [hpath] at hnewer
    exact ⟨w, hnewer ((upgrades_iff hfile hread).mpr hnumbers.1)⟩
  · obtain ⟨w, -, -, hsame⟩ := upgrade_by_padded_numbers.2 (settings [1, 9])
      (levels (settings [1, 9]) 2) plant "1.9".toList "IfUpgradeTo".toList "app".toList
      ["Message".toList, "new".toList]
      hdotted.1 hparse.1 rfl hhead nofun fun _ => ⟨_, _, by rw [hpath]; exact hread⟩
    rw [hpath] at hsame
    obtain ⟨-, flow, s', -, -, hexecute, hstatus⟩ :=
      hsame fun h => hnumbers.2 ((upgrades_iff hfile hread).mp h)
    exact ⟨flow, s', hexecute, hstatus⟩

end Rollout
