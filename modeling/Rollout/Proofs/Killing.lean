import Mathlib.Data.List.Forall2
import Rollout.Proofs.BaseDirectory
import Rollout.Proofs.Coupling
import Rollout.Proofs.DeniedDeletion

namespace Rollout

open Text

namespace Path

def EndsInName (isSep : Char → Bool) (p name : Text) : Prop :=
  ∃ front, p = front ++ name ∧ (∀ c ∈ name, isSep c = false) ∧ ∀ c ∈ front.getLast?, isSep c

variable {isSep : Char → Bool} {p name name' stem stem' ext : Text}

theorem EndsInName.eq (h : EndsInName isSep p name) (h' : EndsInName isSep p name') :
    name = name' := by
  -- what one name has more than the other ends in a separator, or it is nothing
  have more {front front' name name' between : Text} (hname : ∀ c ∈ name, isSep c = false)
      (hfront' : ∀ c ∈ front'.getLast?, isSep c) (hf : front' = front ++ between)
      (hn : name = between ++ name') : name = name' := by
    cases between using List.reverseRecOn with
    | nil => exact hn
    | append_singleton between c =>
      have hc : isSep c = true := hfront' c (by simp [hf])
      rw [hname c (by simp [hn])] at hc
      cases hc
  obtain ⟨front, rfl, hname, hfront⟩ := h
  obtain ⟨front', hp, hname', hfront'⟩ := h'
  obtain ⟨between, hf, hn⟩ | ⟨between, hf, hn⟩ := List.append_eq_append_iff.mp hp
  · exact more hname hfront' hf hn
  · exact (more hname' hfront hf hn).symm

theorem endsInName_fileName (p : Text) : EndsInName (· = '/') p (fileName p) := by
  refine ⟨(splitLast p).1, (splitLast_append p).symm, fun c hc => ?_, fun c hc => ?_⟩
  · exact decide_eq_false (ne_of_mem_of_not_mem hc (not_mem_splitLast_snd p))
  · obtain hnil | hend := splitLast_fst p
    · simp [hnil] at hc
    · obtain ⟨front, hfront⟩ := endsWith_iff.mp hend
      rw [← hfront, List.getLast?_concat, Option.mem_some_iff] at hc
      exact decide_eq_true hc.symm

theorem fileName_eq_iff : fileName p = name ↔ EndsInName (· = '/') p name :=
  ⟨fun h => h ▸ endsInName_fileName p, fun h => (endsInName_fileName p).eq h⟩

theorem splitLast_eq_iff {front : Text} :
    splitLast p = (front, name) ↔ p = front ++ name ∧ fileName p = name := by
  constructor
  · intro h
    have happend := splitLast_append p
    rw [h] at happend
    exact ⟨happend.symm, by rw [fileName, h]⟩
  · rintro ⟨hp, hname⟩
    have happend := (splitLast_append p).trans hp
    rw [← fileName, hname] at happend
    exact Prod.ext (List.append_cancel_right happend) hname

/-- The extension is what follows the last dot of the last name, when not only dots come before that
one. -/
structure CutsExtension (p stem ext : Text) : Prop where
  eq : p = stem ++ '.' :: ext
  noDot : '.' ∉ ext
  noSlash : '/' ∉ ext
  named : ∃ name, EndsInName (· = '/') stem name ∧ ∃ c ∈ name, c ≠ '.'

def HasStem (p stem : Text) : Prop :=
  (∃ ext, CutsExtension p stem ext) ∨ stem = p ∧ ∀ stem ext, ¬CutsExtension p stem ext

theorem exists_last_dot (h : '.' ∈ p) : ∃ stem ext, p = stem ++ '.' :: ext ∧ '.' ∉ ext := by
  obtain ⟨front, rest, hp, hfront⟩ := List.eq_append_cons_of_mem (List.mem_reverse.mpr h)
  have hrest : p = rest.reverse ++ '.' :: front.reverse := by simpa using congrArg List.reverse hp
  exact ⟨rest.reverse, front.reverse, hrest, by simpa using hfront⟩

theorem take_before_dot (h : '.' ∉ ext) :
    (stem ++ '.' :: ext).take ((stem ++ '.' :: ext).length -
      ((stem ++ '.' :: ext).reverse.takeWhile (· ≠ '.')).length - 1) = stem := by
  have hext : ((stem ++ '.' :: ext).reverse.takeWhile (· ≠ '.')) = ext.reverse := by
    have hall : ∀ c ∈ ext.reverse, decide (c ≠ '.') = true := fun c hc =>
      decide_eq_true (ne_of_mem_of_not_mem (List.mem_reverse.mp hc) h)
    rw [List.reverse_append, List.reverse_cons, List.append_assoc,
      List.takeWhile_append_of_pos hall]
    simp
  rw [hext, List.length_append, List.length_cons, List.length_reverse,
    show stem.length + (ext.length + 1) - ext.length - 1 = stem.length by omega, List.take_left]

theorem endsInName_append {tail : Text} (h : EndsInName (· = '/') stem name)
    (ht : '/' ∉ tail) : EndsInName (· = '/') (stem ++ tail) (name ++ tail) := by
  obtain ⟨front, rfl, hname, hfront⟩ := h
  refine ⟨front, List.append_assoc .., fun c hc => ?_, hfront⟩
  obtain hc | hc := List.mem_append.mp hc
  · exact hname c hc
  · exact decide_eq_false (ne_of_mem_of_not_mem hc ht)

theorem CutsExtension.withoutExtension (h : CutsExtension p stem ext) :
    withoutExtension p = stem := by
  obtain ⟨rfl, hdot, hslash, name, hname, hnamed⟩ := h
  have hlast : fileName (stem ++ '.' :: ext) = name ++ '.' :: ext :=
    fileName_eq_iff.mpr (endsInName_append hname (by simpa using hslash))
  obtain ⟨front, rfl, -, -⟩ := hname
  have hsplit := splitLast_eq_iff.mpr
    ⟨List.append_assoc front name ('.' :: ext), hlast⟩
  rw [Path.withoutExtension, hsplit]
  simp only [take_before_dot hdot]
  rw [if_pos (by simpa using hnamed)]

theorem withoutExtension_of_not_cut (h : ∀ stem ext, ¬CutsExtension p stem ext) :
    withoutExtension p = p := by
  obtain ⟨front, hp, hname, hfront⟩ := endsInName_fileName p
  rw [withoutExtension, splitLast_eq_iff.mpr ⟨hp, rfl⟩]
  by_cases hdot : '.' ∈ fileName p
  · obtain ⟨stem, ext, hfile, hext⟩ := exists_last_dot hdot
    rw [hfile] at hp hname
    have hslash : '/' ∉ ext := fun hc => by simpa using hname '/' (by simp [hc])
    have hstem : EndsInName (· = '/') (front ++ stem) stem :=
      ⟨front, rfl, fun c hc => hname c (by simp [hc]), hfront⟩
    simp only [hfile, take_before_dot hext]
    refine if_neg fun hnamed => h (front ++ stem) ext ⟨by simp [hp], hext, hslash, stem, hstem, ?_⟩
    simpa using hnamed
  · exact if_neg (by simp [hdot])

theorem hasStem_iff : HasStem p stem ↔ withoutExtension p = stem := by
  constructor
  · rintro (⟨ext, hcut⟩ | ⟨rfl, hno⟩)
    · exact hcut.withoutExtension
    · exact withoutExtension_of_not_cut hno
  · rintro rfl
    by_cases h : ∃ stem ext, CutsExtension p stem ext
    · obtain ⟨stem, ext, hcut⟩ := h
      exact .inl ⟨ext, hcut.withoutExtension.symm ▸ hcut⟩
    · push Not at h
      exact .inr ⟨withoutExtension_of_not_cut h, h⟩

end Path

def RunningProcess.NamedAfter (p : RunningProcess) (path : Text) : Prop :=
  ∃ file stem own, Path.EndsInName Path.isSeparator path file ∧ Path.HasStem file stem ∧
    Path.HasStem (p.name.getD []) own ∧ lower own = lower stem

theorem processName_eq {path file : Text} (h : Path.EndsInName Path.isSeparator path file) :
    processName path = Path.withoutExtension file := by
  obtain ⟨front, rfl, hfile, hfront⟩ := h
  have hslashed : ∀ c ∈ file, (if c = '\\' then '/' else c) = c := fun c hc =>
    if_neg fun h => by simpa [h, Path.isSeparator] using hfile c hc
  rw [processName, Path.fileName_eq_iff.mpr]
  refine ⟨front.map fun c => if c = '\\' then '/' else c, ?_, ?_, ?_⟩
  · rw [List.map_append, List.map_congr_left hslashed, List.map_id']
  · exact fun c hc => decide_eq_false fun h => by simpa [h, Path.isSeparator] using hfile c hc
  · intro c hc
    rw [List.getLast?_map] at hc
    obtain ⟨d, hd, rfl⟩ := Option.map_eq_some_iff.mp hc
    have hsep := hfront d hd
    rw [Path.isSeparator] at hsep
    grind

theorem isNamed_iff {p : RunningProcess} {path : Text} :
    p.isNamed (lower (processName path)) = true ↔ p.NamedAfter path := by
  constructor
  · intro h
    obtain ⟨front, file, hpath, hfile, hfront⟩ := Path.exists_last_name path
    have hends : Path.EndsInName Path.isSeparator path file := ⟨front, hpath, hfile, hfront⟩
    rw [processName_eq hends, RunningProcess.isNamed, decide_eq_true_eq] at h
    exact ⟨file, _, _, hends, Path.hasStem_iff.mpr rfl, Path.hasStem_iff.mpr rfl, h⟩
  · rintro ⟨file, stem, own, hends, hstem, hown, h⟩
    rw [processName_eq hends, RunningProcess.isNamed, decide_eq_true_eq,
      Path.hasStem_iff.mp hstem, Path.hasStem_iff.mp hown, h]

def NoneLeft (table : List RunningProcess) (path : Text) : Prop :=
  ∀ p ∈ table, p.NamedAfter path → p.fate = .gone

/-- In the table the process is the first named after the path that is not gone. -/
structure FirstLeft (table : List RunningProcess) (path : Text) (before : List RunningProcess)
    (p : RunningProcess) (after : List RunningProcess) : Prop where
  eq : table = before ++ p :: after
  named : p.NamedAfter path
  left : p.fate ≠ .gone
  first : NoneLeft before path

/-- What comes of killing: the processes that are left, those that were killed and those that were
denied in turn, and whether to go on. -/
structure Toll where
  left : List RunningProcess
  killed : List RunningProcess := []
  denied : List RunningProcess := []
  flow : Flow := .next

/-- Each argument kills the first process of its name that is not gone, if there is one and it may
be killed. A denied one is left alone. That ends the killing, unless errors are ignored. -/
inductive Kills (ignoring : Bool) : List RunningProcess → List Text → Toll → Prop
  | done {table} : Kills ignoring table [] { left := table }
  | absent {table argument arguments o} :
    NoneLeft table (Script.unquote argument) → Kills ignoring table arguments o →
    Kills ignoring table (argument :: arguments) o
  | dies {table before p after argument arguments o} :
    FirstLeft table (Script.unquote argument) before p after → p.fate = .dies →
    Kills ignoring (before ++ after) arguments o →
    Kills ignoring table (argument :: arguments) { o with killed := p :: o.killed }
  | passedOver {table before p after argument arguments o} :
    FirstLeft table (Script.unquote argument) before p after → p.fate = .denied →
    ignoring = true → Kills ignoring table arguments o →
    Kills ignoring table (argument :: arguments) { o with denied := p :: o.denied }
  | denied {table before p after argument arguments} :
    FirstLeft table (Script.unquote argument) before p after → p.fate = .denied →
    ignoring = false →
    Kills ignoring table (argument :: arguments) { left := table, denied := [p], flow := .exit }

variable {table before after rest : List RunningProcess} {p q : RunningProcess}
  {path argument : Text} {arguments : List Text}

theorem noneLeft_cons :
    NoneLeft (q :: rest) path ↔ (q.NamedAfter path → q.fate = .gone) ∧ NoneLeft rest path :=
  List.forall_mem_cons

theorem findProcess_cons (name : Text) (q : RunningProcess) (rest : List RunningProcess) :
    findProcess name (q :: rest) =
      if q.isNamed name && q.fate ≠ .gone then some ([], q, rest)
      else (findProcess name rest).map fun (before, p, after) => (q :: before, p, after) := rfl

theorem isHit_iff :
    (q.isNamed (lower (processName path)) && decide (q.fate ≠ .gone)) = true ↔
      ¬(q.NamedAfter path → q.fate = .gone) := by
  rw [Bool.and_eq_true, isNamed_iff, decide_eq_true_eq, Classical.not_imp]

theorem findProcess_eq_none_iff :
    findProcess (lower (processName path)) table = none ↔ NoneLeft table path := by
  induction table with
  | nil => simp [findProcess, NoneLeft]
  | cons q rest ih =>
    rw [findProcess_cons, noneLeft_cons]
    split_ifs with hq
    · simp [isHit_iff.mp hq]
    · rw [Option.map_eq_none_iff, ih]
      exact (and_iff_right (not_not.mp (mt isHit_iff.mpr hq))).symm

theorem findProcess_eq_some_iff :
    findProcess (lower (processName path)) table = some (before, p, after) ↔
      FirstLeft table path before p after := by
  constructor
  · intro h
    induction table generalizing before with
    | nil => cases h
    | cons q rest ih =>
      rw [findProcess_cons] at h
      split_ifs at h with hq
      · cases h
        obtain ⟨hnamed, hleft⟩ := Classical.not_imp.mp (isHit_iff.mp hq)
        exact ⟨rfl, hnamed, hleft, nofun⟩
      · obtain ⟨⟨before', p', after'⟩, hrest, he⟩ := Option.map_eq_some_iff.mp h
        cases he
        obtain ⟨rfl, hnamed, hleft, hfirst⟩ := ih hrest
        exact ⟨rfl, hnamed, hleft, noneLeft_cons.mpr ⟨not_not.mp (mt isHit_iff.mpr hq), hfirst⟩⟩
  · rintro ⟨rfl, hnamed, hleft, hfirst⟩
    induction before with
    | nil => exact if_pos (isHit_iff.mpr fun hgone => hleft (hgone hnamed))
    | cons q before ih =>
      obtain ⟨hq, hbefore⟩ := noneLeft_cons.mp hfirst
      rw [List.cons_append, findProcess_cons, if_neg fun hn => isHit_iff.mp hn hq, ih hbefore]
      rfl

variable {ignoring : Bool} {o o' : Toll}

theorem FirstLeft.not_noneLeft (h : FirstLeft table path before p after) : ¬NoneLeft table path :=
  fun hnone => h.left (hnone p (by simp [h.eq]) h.named)

theorem FirstLeft.unique {before' after' : List RunningProcess} {p' : RunningProcess}
    (h : FirstLeft table path before p after) (h' : FirstLeft table path before' p' after') :
    before = before' ∧ p = p' ∧ after = after' := by
  simpa using (findProcess_eq_some_iff.mpr h).symm.trans (findProcess_eq_some_iff.mpr h')

/-- There is one thing to do for each argument. -/
theorem Kills.unique (h : Kills ignoring table arguments o)
    (h' : Kills ignoring table arguments o') : o = o' := by
  induction h generalizing o' with
  | done =>
    cases h'
    rfl
  | absent hnone _ ih =>
    cases h' with
    | absent _ h' => exact ih h'
    | dies hp' | passedOver hp' | denied hp' => exact absurd hnone hp'.not_noneLeft
  | dies hp hfate _ ih =>
    cases h' with
    | absent hnone => exact absurd hnone hp.not_noneLeft
    | dies hp' _ h' =>
      obtain ⟨rfl, rfl, rfl⟩ := hp.unique hp'
      rw [ih h']
    | passedOver hp' hfate' | denied hp' hfate' =>
      obtain ⟨rfl, rfl, rfl⟩ := hp.unique hp'
      simp [hfate] at hfate'
  | passedOver hp hfate hi _ ih =>
    cases h' with
    | absent hnone => exact absurd hnone hp.not_noneLeft
    | dies hp' hfate' =>
      obtain ⟨rfl, rfl, rfl⟩ := hp.unique hp'
      simp [hfate] at hfate'
    | passedOver hp' _ _ h' =>
      obtain ⟨rfl, rfl, rfl⟩ := hp.unique hp'
      rw [ih h']
    | denied _ _ hi' => simp [hi] at hi'
  | denied hp hfate hi =>
    cases h' with
    | absent hnone => exact absurd hnone hp.not_noneLeft
    | dies hp' hfate' =>
      obtain ⟨rfl, rfl, rfl⟩ := hp.unique hp'
      simp [hfate] at hfate'
    | passedOver _ _ hi' => simp [hi] at hi'
    | denied hp' =>
      obtain ⟨rfl, rfl, rfl⟩ := hp.unique hp'
      rfl

theorem Kills.sublistForall₂ (h : Kills ignoring table arguments o) :
    o.killed.SublistForall₂ (fun p argument => p.NamedAfter (Script.unquote argument))
      arguments := by
  induction h with
  | done | denied => exact .nil
  | absent _ _ ih | passedOver _ _ _ _ ih => exact .cons_right ih
  | dies hp _ _ ih => exact .cons hp.named ih

theorem Kills.perm (h : Kills ignoring table arguments o) : (o.killed ++ o.left).Perm table := by
  induction h with
  | done | denied => exact .refl _
  | absent _ _ ih | passedOver _ _ _ _ ih => exact ih
  | dies hp _ _ ih => exact hp.eq ▸ (ih.cons _).trans List.perm_middle.symm

theorem exists_kills (ignoring : Bool) (table : List RunningProcess) (arguments : List Text) :
    ∃ o, Kills ignoring table arguments o := by
  induction arguments generalizing table with
  | nil => exact ⟨_, .done⟩
  | cons argument arguments ih =>
    cases hfind : findProcess (lower (processName (Script.unquote argument))) table with
    | none =>
      obtain ⟨o, ho⟩ := ih table
      exact ⟨o, .absent (findProcess_eq_none_iff.mp hfind) ho⟩
    | some found =>
      obtain ⟨before, p, after⟩ := found
      have hp := findProcess_eq_some_iff.mp hfind
      cases hfate : p.fate with
      | gone => exact absurd hfate hp.left
      | dies =>
        obtain ⟨o, ho⟩ := ih (before ++ after)
        exact ⟨_, .dies hp hfate ho⟩
      | denied =>
        cases ignoring with
        | true =>
          obtain ⟨o, ho⟩ := ih table
          exact ⟨_, .passedOver hp hfate rfl ho⟩
        | false => exact ⟨_, .denied hp hfate rfl⟩

def Session.denialReport (s : Session) (p : RunningProcess) : Diagnostics :=
  s.report .fileAccessDenied (some (Fault.killDenied (p.name.getD []) p.pid).message) none

/-- Between two sessions the toll has been taken, and only a denial has been reported. A denial at
which the killing ends is the one failure, and the last thing that the host is told. -/
structure Tolled (s : Session) (o : Toll) (s' : Session) : Prop where
  eq : s' = { s with
    status := s'.status
    failed := s'.failed
    diagnostics := s'.diagnostics
    world := { s.world with processes := o.left, journal := s'.world.journal } }
  status : s'.status = if o.denied = [] then s.status else s.status.add .fileAccessDenied
  next : o.flow = .next →
    s'.failed = s.failed ∧ s'.diagnostics = s.diagnostics ∧
      s'.world.journal.trace =
        s.world.journal.trace ++ o.killed.map fun p => .killed p.pid
  exit : o.flow = .exit →
    ∃ p, o.denied.getLast? = some p ∧ s'.failed = true ∧
      s'.diagnostics = some (s.denialReport p) ∧
      s'.world.journal.trace =
        s.world.journal.trace ++ o.killed.map (fun p => .killed p.pid) ++
          [.failure (s.denialReport p)]

variable {s s₁ s' : Session} {w : World}

theorem Journal.trace_concat_log (j : Journal) (level : Level) (channel : Channel) (t : Text) :
    Journal.trace (j ++ [.log level channel t]) = j.trace := by
  rw [trace_append]
  exact List.append_nil _

theorem Status.add_add (status : Status) (flag : Flag) :
    (status.add flag).add flag = status.add flag := by
  have hself : (Status.ofFlag flag).union (Status.ofFlag flag) = Status.ofFlag flag := by
    simp [Status.union]
  rw [Status.add, Status.add, Status.union_assoc, hself]

theorem Tolled.denialReport {o : Toll} (h : Tolled s o s') (p : RunningProcess) :
    s'.denialReport p = s.denialReport p := by
  have hstatus : s'.status.add .fileAccessDenied = s.status.add .fileAccessDenied := by
    rw [h.status]
    split
    · rfl
    · exact Status.add_add ..
  rw [h.eq]
  simp only [Session.denialReport, Session.report, hstatus]

theorem Tolled.trans {o₁ o : Toll} (h : Tolled s o₁ s₁) (hnext : o₁.flow = .next)
    (h' : Tolled s₁ o s') :
    Tolled s { o with killed := o₁.killed ++ o.killed, denied := o₁.denied ++ o.denied } s' := by
  obtain ⟨hfailed, hdiagnostics, htrace⟩ := h.next hnext
  constructor
  · rw [h'.eq, h.eq]
  · rw [h'.status, h.status]
    cases o₁.denied <;> cases o.denied <;> simp [Status.add_add]
  · intro hflow
    obtain ⟨hfailed', hdiagnostics', htrace'⟩ := h'.next hflow
    refine ⟨hfailed'.trans hfailed, hdiagnostics'.trans hdiagnostics, ?_⟩
    rw [htrace', htrace, List.map_append, List.append_assoc]
  · intro hflow
    obtain ⟨p, hp, hfailed', hdiagnostics', htrace'⟩ := h'.exit hflow
    rw [h.denialReport] at hdiagnostics' htrace'
    refine ⟨p, ?_, hfailed', hdiagnostics', ?_⟩
    · simp [List.getLast?_append, hp]
    · rw [htrace', htrace, List.map_append]
      simp only [List.append_assoc]

theorem Tolled.processes {o : Toll} (h : Tolled s o s') : s'.world.processes = o.left := by
  rw [h.eq]

theorem Tolled.ignoreErrors {o : Toll} (h : Tolled s o s') :
    s'.store.ignoreErrors = s.store.ignoreErrors := by
  rw [h.eq]

theorem killByPath_of_noneLeft (h : NoneLeft w.processes path) :
    killByPath path w = .ok false w := by
  rw [killByPath, get_bind, findProcess_eq_none_iff.mpr h]
  rfl

theorem killByPath_of_denied (h : FirstLeft w.processes path before p after)
    (hfate : p.fate = .denied) :
    killByPath path w = .error (.killDenied (p.name.getD []) p.pid) w := by
  rw [killByPath, get_bind, findProcess_eq_some_iff.mpr h]
  simp only [hfate, if_true]
  rfl

def World.killing (w : World) (before : List RunningProcess) (p : RunningProcess)
    (after : List RunningProcess) : World :=
  { w with
    processes := before ++ after
    journal := w.journal ++ [.killed p.pid, .log .debug .processes
      ("Killed process ".toList ++ p.name.getD [] ++ " (pid ".toList ++ ofInt p.pid ++ [')'])] }

theorem killByPath_of_dies (h : FirstLeft w.processes path before p after)
    (hfate : p.fate = .dies) :
    killByPath path w = .ok true (w.killing before p after) := by
  rw [killByPath, get_bind, findProcess_eq_some_iff.mpr h]
  simp only [hfate, reduceCtorEq, if_false]
  rw [World.killing, List.append_cons w.journal]
  rfl

namespace Builtin

theorem killOne_of_noneLeft (h : NoneLeft s.world.processes (Script.unquote argument)) :
    ∃ s₁, killOne argument s = .ok .next s₁ ∧ Tolled s { left := s.world.processes } s₁ := by
  refine ⟨_, bind_of_ok (attempt_onWorld_of_ok (killByPath_of_noneLeft h)), rfl, rfl, ?_, nofun⟩
  intro _
  refine ⟨rfl, rfl, ?_⟩
  rw [List.map_nil, List.append_nil]
  exact Journal.trace_concat_log ..

theorem killOne_of_dies
    (h : FirstLeft s.world.processes (Script.unquote argument) before p after)
    (hfate : p.fate = .dies) :
    ∃ s₁, killOne argument s = .ok .next s₁ ∧
      Tolled s { left := before ++ after, killed := [p] } s₁ := by
  refine ⟨_, bind_of_ok (attempt_onWorld_of_ok (killByPath_of_dies h hfate)), rfl, rfl, ?_, nofun⟩
  intro _
  refine ⟨rfl, rfl, ?_⟩
  exact Journal.trace_append ..

theorem killOne_of_denied
    (h : FirstLeft s.world.processes (Script.unquote argument) before p after)
    (hfate : p.fate = .denied) :
    killOne argument s =
      fail .fileAccessDenied (some (Fault.killDenied (p.name.getD []) p.pid).message) none s :=
  bind_of_ok (attempt_onWorld_of_error (killByPath_of_denied h hfate))

theorem kill_cons (argument : Text) (arguments : List Text) (s : Session) :
    kill (argument :: arguments) s = (do
      match ← killOne argument with
      | .exit => pure .exit
      | .next => kill arguments : Action Session Flow) s := rfl

theorem fail_denied_of_ignoring (h : s.store.ignoreErrors = true) (p : RunningProcess)
    (message : Option Text) :
    ∃ s₁, fail .fileAccessDenied message none s = .ok .next s₁ ∧
      Tolled s { left := s.world.processes, denied := [p] } s₁ := by
  refine ⟨_, fail_of_ignoring h .fileAccessDenied message none, rfl, rfl, fun _ => ?_, nofun⟩
  refine ⟨rfl, rfl, ?_⟩
  rw [List.map_nil, List.append_nil]
  exact Journal.trace_concat_log ..

theorem fail_denied_of_strict (h : s.store.ignoreErrors = false) (p : RunningProcess) :
    ∃ s₁, fail .fileAccessDenied (some (Fault.killDenied (p.name.getD []) p.pid).message) none s =
        .ok .exit s₁ ∧
      Tolled s { left := s.world.processes, denied := [p], flow := .exit } s₁ := by
  refine ⟨_, fail_of_strict h .fileAccessDenied _ none, rfl, rfl, nofun, fun _ => ?_⟩
  refine ⟨p, rfl, rfl, rfl, ?_⟩
  rw [List.map_nil, List.append_nil]
  exact Journal.trace_append ..

theorem kill_cons_of_next {o₁ : Toll} (hone : killOne argument s = .ok .next s₁)
    (htolled : Tolled s o₁ s₁) (hnext : o₁.flow = .next)
    (hrest : ∃ s', kill arguments s₁ = .ok o.flow s' ∧ Tolled s₁ o s') :
    ∃ s', kill (argument :: arguments) s = .ok o.flow s' ∧
      Tolled s { o with killed := o₁.killed ++ o.killed, denied := o₁.denied ++ o.denied } s' := by
  obtain ⟨s', hkill, htolled'⟩ := hrest
  refine ⟨s', ?_, htolled.trans hnext htolled'⟩
  rw [kill_cons, bind_of_ok hone]
  exact hkill

theorem kill_of_kills (h : Kills ignoring table arguments o)
    (htable : s.world.processes = table) (hi : s.store.ignoreErrors = ignoring) :
    ∃ s', kill arguments s = .ok o.flow s' ∧ Tolled s o s' := by
  induction h generalizing s with
  | done =>
    refine ⟨s, rfl, ?_, rfl, fun _ => ⟨rfl, rfl, (List.append_nil _).symm⟩, nofun⟩
    rw [← htable]
  | absent hnone _ ih =>
    obtain ⟨s₁, hone, htolled⟩ := killOne_of_noneLeft (htable ▸ hnone)
    exact kill_cons_of_next hone htolled rfl
      (ih (htolled.processes.trans htable) (htolled.ignoreErrors.trans hi))
  | dies hp hfate _ ih =>
    obtain ⟨s₁, hone, htolled⟩ := killOne_of_dies (htable ▸ hp) hfate
    exact kill_cons_of_next hone htolled rfl (ih htolled.processes (htolled.ignoreErrors.trans hi))
  | passedOver hp hfate hignoring _ ih =>
    obtain ⟨s₁, hfail, htolled⟩ := fail_denied_of_ignoring (hi.trans hignoring) _ _
    exact kill_cons_of_next ((killOne_of_denied (htable ▸ hp) hfate).trans hfail) htolled rfl
      (ih (htolled.processes.trans htable) (htolled.ignoreErrors.trans hi))
  | denied hp hfate hstrict =>
    obtain ⟨s₁, hfail, htolled⟩ := fail_denied_of_strict (hi.trans hstrict) _
    have hone := (killOne_of_denied (htable ▸ hp) hfate).trans hfail
    refine ⟨s₁, ?_, htable ▸ htolled⟩
    rw [kill_cons, bind_of_ok hone]
    rfl

/-- Killing by a list of arguments takes what each argument in turn is due. So no argument takes
more than one process away, and none of another name. -/
theorem kill_takes_first_left (arguments : List Text) (s : Session) :
    ∃ o s',
      (∀ o', Kills s.store.ignoreErrors s.world.processes arguments o' ↔ o' = o) ∧
      kill arguments s = .ok o.flow s' ∧
      Tolled s o s' ∧
      o.killed.SublistForall₂ (fun p argument => p.NamedAfter (Script.unquote argument)) arguments ∧
      (o.killed ++ o.left).Perm s.world.processes := by
  obtain ⟨o, ho⟩ := exists_kills s.store.ignoreErrors s.world.processes arguments
  obtain ⟨s', hkill, htolled⟩ := kill_of_kills ho rfl rfl
  refine ⟨o, s', fun o' => ⟨fun ho' => ho'.unique ho, ?_⟩, hkill, htolled, ho.sublistForall₂,
    ho.perm⟩
  rintro rfl
  exact ho

end Builtin

end Rollout
