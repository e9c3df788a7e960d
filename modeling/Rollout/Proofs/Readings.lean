import Rollout.Proofs.Macro

namespace Rollout

open Text

namespace Derived

def systemBelow : Option Text → Option Text
  | some (c :: root) => some (Path.join (c :: root) "System32".toList)
  | _ => none

def origin? : Derived → Option (Derived × (Option Text → Option Text))
  | systemDirectory => some (windowsDirectory, systemBelow)
  | nativeCompiler => some (runtimeDirectory, Option.map (Path.join · "NGen.exe".toList))
  | _ => none

/-- What is kept of a value fits what is kept of the value that it is made from. -/
structure Coherent (memo : List (Derived × Option Text)) : Prop where
  origin : ∀ {d b : Derived} {f : Option Text → Option Text} {v : Option Text},
    d.origin? = some (b, f) → memo.lookup d = some v → ∃ u, memo.lookup b = some u ∧ v = f u
  runtime : memo.lookup .runtimeDirectory ≠ some none

theorem coherent_nil : Coherent [] := ⟨nofun, nofun⟩

structure Recalls (d : Derived) (v : Option Text) (w w' : World) : Prop where
  now : w'.memo.lookup d = some v
  kept : ∀ {d' : Derived} {u : Option Text},
    w.memo.lookup d' = some u → w'.memo.lookup d' = some u
  coherent : Coherent w.memo → Coherent w'.memo

variable {d : Derived} {v : Option Text} {w w₁ w' : World} {compute : Action World (Option Text)}

theorem lookup_cons_of_some {memo : List (Derived × Option Text)} {d' : Derived} {u : Option Text}
    (fresh : memo.lookup d = none) (h : memo.lookup d' = some u) :
    ((d, v) :: memo).lookup d' = some u := by
  have hne : d' ≠ d := by
    rintro rfl
    rw [fresh] at h
    cases h
  rwa [List.lookup_cons, beq_eq_false_iff_ne.mpr hne]

/-- A value is kept once it is computed. -/
theorem recalls_of_computed (fresh : w₁.memo.lookup d = none)
    (kept : ∀ {d' u}, w.memo.lookup d' = some u → w₁.memo.lookup d' = some u)
    (coherent : Coherent w.memo → Coherent w₁.memo)
    (origin : ∀ {b f}, d.origin? = some (b, f) → ∃ u, w₁.memo.lookup b = some u ∧ v = f u)
    (runtime : d = .runtimeDirectory → v ≠ none) :
    Recalls d v w { w₁ with memo := (d, v) :: w₁.memo } := by
  refine ⟨by simp, fun h => lookup_cons_of_some fresh (kept h), fun hw => ⟨?_, ?_⟩⟩
  · intro d' b f u hd' hu
    by_cases hd : d' = d
    · subst hd
      obtain ⟨x, hx, rfl⟩ := origin hd'
      have huv : f x = u := by simpa using hu
      exact ⟨x, lookup_cons_of_some fresh hx, huv.symm⟩
    · rw [List.lookup_cons, beq_eq_false_iff_ne.mpr hd] at hu
      obtain ⟨x, hx, rfl⟩ := (coherent hw).origin hd' hu
      exact ⟨x, lookup_cons_of_some fresh hx, rfl⟩
  · by_cases hd : Derived.runtimeDirectory = d
    · subst hd
      simpa using runtime rfl
    · rw [List.lookup_cons, beq_eq_false_iff_ne.mpr hd]
      exact (coherent hw).runtime

/-- A value has been kept, or it is computed and then kept. -/
theorem memoized_eq_ok (h : memoized d compute w = .ok v w') :
    (w.memo.lookup d = some v ∧ w' = w) ∨
      (w.memo.lookup d = none ∧
        ∃ w₁, compute w = .ok v w₁ ∧ w' = { w₁ with memo := (d, v) :: w₁.memo }) := by
  rw [memoized, get_bind] at h
  cases hl : w.memo.lookup d with
  | some u =>
    rw [hl] at h
    cases h
    exact .inl ⟨rfl, rfl⟩
  | none =>
    rw [hl] at h
    obtain ⟨u, w₁, hc, hu⟩ := bind_eq_ok.mp h
    cases hu
    exact .inr ⟨rfl, w₁, hc, rfl⟩

theorem memoized_recalls (h : memoized d compute w = .ok v w')
    (hc : ∀ w₁, w.memo.lookup d = none → compute w = .ok v w₁ →
      Recalls d v w { w₁ with memo := (d, v) :: w₁.memo }) :
    Recalls d v w w' := by
  obtain ⟨hkept, rfl⟩ | ⟨fresh, w₁, hw₁, rfl⟩ := memoized_eq_ok h
  · exact ⟨hkept, id, id⟩
  · exact hc w₁ fresh hw₁

theorem memoized_stays_recalls (h : memoized d compute w = .ok v w')
    (hcompute : ∀ {w₁}, compute w = .ok v w₁ → w₁ = w ∧ (d = .runtimeDirectory → v ≠ none))
    (horigin : d.origin? = none) :
    Recalls d v w w' ∧ ∀ d', d' ≠ d → w'.memo.lookup d' = w.memo.lookup d' := by
  refine ⟨memoized_recalls h fun w₁ fresh hw₁ => ?_, fun d' hd' => ?_⟩
  · obtain ⟨rfl, hruntime⟩ := hcompute hw₁
    refine recalls_of_computed fresh id id (fun hb => ?_) hruntime
    rw [horigin] at hb
    cases hb
  · obtain ⟨-, rfl⟩ | ⟨-, w₁, hw₁, rfl⟩ := memoized_eq_ok h
    · rfl
    · obtain ⟨rfl, -⟩ := hcompute hw₁
      exact List.lookup_cons.trans (by rw [beq_eq_false_iff_ne.mpr hd'])

theorem needDirectory_bind_eq_ok {needed : Bool} {rest : Action World (Option Text)}
    (h : (needDirectory needed >>= fun _ => rest) w = .ok v w') : rest w = .ok v w' := by
  obtain ⟨⟨⟩, w₁, hneed, hrest⟩ := bind_eq_ok.mp h
  rw [needDirectory_eq] at hneed
  split at hneed <;> cases hneed
  exact hrest

theorem get_pure_stays {f : World → Option Text} (hd : d ≠ .runtimeDirectory)
    (h : (do let w ← get; pure (f w) : Action World (Option Text)) w = .ok v w₁) :
    w₁ = w ∧ (d = .runtimeDirectory → v ≠ none) := by
  cases h
  exact ⟨rfl, fun hruntime => absurd hruntime hd⟩

theorem runtime_stays (h : (do
      let w ← get
      needDirectory (!Path.isAbsolute w.host.executable)
      pure (some w.runtimeDirectory) : Action World (Option Text)) w = .ok v w₁) :
    w₁ = w ∧ (runtimeDirectory = .runtimeDirectory → v ≠ none) := by
  cases needDirectory_bind_eq_ok h
  exact ⟨rfl, fun _ => Option.some_ne_none _⟩

/-- A value for which another one is read first. -/
theorem memoized_bind_recalls {b : Derived} {first : Action World (Option Text)}
    {f : Option Text → Action World (Option Text)} (h : memoized d (first >>= f) w = .ok v w')
    (hfirst : ∀ {u w₁}, first w = .ok u w₁ →
      Recalls b u w w₁ ∧ ∀ d', d' ≠ b → w₁.memo.lookup d' = w.memo.lookup d')
    (hf : ∀ {u w₁ w₂}, f u w₁ = .ok v w₂ → w₂ = w₁ ∧
      ∀ {b' g}, d.origin? = some (b', g) → b' = b ∧ v = g u)
    (hne : d ≠ b) (hruntime : d ≠ .runtimeDirectory) : Recalls d v w w' := by
  refine memoized_recalls h fun w₂ fresh hcompute => ?_
  obtain ⟨u, w₁, hu, hv⟩ := bind_eq_ok.mp hcompute
  obtain ⟨hrecalls, honly⟩ := hfirst hu
  obtain ⟨rfl, horigin⟩ := hf hv
  refine recalls_of_computed ((honly d hne).trans fresh) hrecalls.kept hrecalls.coherent ?_
    fun hd => absurd hd hruntime
  intro b' g hd
  obtain ⟨rfl, rfl⟩ := horigin hd
  exact ⟨u, hrecalls.now, rfl⟩

theorem value_recalls (h : d.value w = .ok v w') : Recalls d v w w' := by
  cases d with
  | solutionDirectory =>
    exact (memoized_stays_recalls h
      (fun hc => get_pure_stays nofun (needDirectory_bind_eq_ok hc)) rfl).1
  | platformTag => exact (memoized_stays_recalls h (get_pure_stays nofun) rfl).1
  | windowsDirectory => exact (memoized_stays_recalls h (get_pure_stays nofun) rfl).1
  | runtimeDirectory => exact (memoized_stays_recalls h runtime_stays rfl).1
  | programFiles =>
    refine memoized_bind_recalls h (fun hu => memoized_stays_recalls hu (get_pure_stays nofun) rfl)
      (fun {u w₁ w₂} hv => ⟨?_, nofun⟩) nofun nofun
    rw [get_bind] at hv
    obtain hx86 | ⟨_ | ⟨c, directory⟩, hx86⟩ := Option.eq_none_or_eq_some
      (w₁.setting "ProgramFiles(x86)")
    · rw [hx86] at hv
      cases hv
      rfl
    · rw [hx86] at hv
      cases hv
      rfl
    · rw [hx86] at hv
      dsimp only at hv
      split_ifs at hv <;> cases hv <;> rfl
  | systemDirectory =>
    refine memoized_bind_recalls h (fun hu => memoized_stays_recalls hu (get_pure_stays nofun) rfl)
      (fun {u w₁ w₂} hv => ?_) nofun nofun
    have hresult : v = systemBelow u ∧ w₂ = w₁ := by
      cases u with
      | none =>
        cases hv
        exact ⟨rfl, rfl⟩
      | some root =>
        cases root <;> cases hv <;> exact ⟨rfl, rfl⟩
    refine ⟨hresult.2, fun hd => ?_⟩
    cases hd
    exact ⟨rfl, hresult.1⟩
  | nativeCompiler =>
    refine memoized_bind_recalls h
      (fun hu => memoized_stays_recalls hu runtime_stays rfl)
      (fun {u w₁ w₂} hv => ?_) nofun nofun
    cases hv
    refine ⟨rfl, fun hd => ?_⟩
    cases hd
    exact ⟨rfl, rfl⟩

end Derived

/-- From one world to another, in which the host may have changed in any way, the values that have
been read meanwhile, in their order, each with its name. -/
inductive Readings (w : World) : List (Text × Option Text) → World → Prop
  | none : Readings w [] w
  | change {w₁ w' : World} {readings : List (Text × Option Text)} (before : Readings w readings w₁)
      (memo : w'.memo = w₁.memo) : Readings w readings w'
  | value {w₁ w' : World} {readings : List (Text × Option Text)} {name : Text}
      {compute : Action World (Option Text)} {v : Option Text} (before : Readings w readings w₁)
      (known : Derived.lookup name = some compute) (read : compute w₁ = .ok v w') :
      Readings w (readings ++ [(name, v)]) w'
  | fault {w₁ w' : World} {readings : List (Text × Option Text)} {name : Text}
      {compute : Action World (Option Text)} {e : Fault} (before : Readings w readings w₁)
      (known : Derived.lookup name = some compute) (read : compute w₁ = .error e w') :
      Readings w readings w'

namespace Readings

variable {w w' : World} {readings : List (Text × Option Text)}

/-- All that has been read has been kept. -/
theorem kept (h : Readings w readings w') (fresh : w.memo = []) :
    Derived.Coherent w'.memo ∧ ∀ name v, (name, v) ∈ readings →
      ∃ d, Derived.ofName? name = some d ∧ w'.memo.lookup d = some v := by
  induction h with
  | none => exact ⟨fresh ▸ Derived.coherent_nil, nofun⟩
  | change before memo ih =>
    rw [memo]
    exact ih
  | @value w₁ w' readings name compute v before known read ih =>
    obtain ⟨hcoherent, hkept⟩ := ih
    obtain ⟨d, hd, rfl⟩ := Option.map_eq_some_iff.mp known
    have hrecalls := Derived.value_recalls read
    refine ⟨hrecalls.coherent hcoherent, fun other u hmem => ?_⟩
    obtain hmem | hmem := List.mem_append.mp hmem
    · obtain ⟨d', hd', hu⟩ := hkept other u hmem
      exact ⟨d', hd', hrecalls.kept hu⟩
    · cases List.mem_singleton.mp hmem
      exact ⟨d, hd, hrecalls.now⟩
  | @fault w₁ w' readings name compute e before known read ih =>
    obtain ⟨d, -, rfl⟩ := Option.map_eq_some_iff.mp known
    obtain ⟨-, -, rfl⟩ := Derived.value_eq_error read
    exact ih

theorem lookup_eq (h : Readings w readings w') (fresh : w.memo = []) {d : Derived}
    {v : Option Text} (hv : (d.name, v) ∈ readings) : w'.memo.lookup d = some v := by
  obtain ⟨d', hd', hlookup⟩ := (h.kept fresh).2 d.name v hv
  have hname : Derived.ofName? d.name = some d := by cases d <;> rfl
  cases hname.symm.trans hd'
  exact hlookup

theorem unique (h : Readings w readings w') (fresh : w.memo = []) {name : Text}
    {v v' : Option Text} (hv : (name, v) ∈ readings) (hv' : (name, v') ∈ readings) : v = v' := by
  obtain ⟨d, hd, hlookup⟩ := (h.kept fresh).2 name v hv
  obtain ⟨d', hd', hlookup'⟩ := (h.kept fresh).2 name v' hv'
  cases hd.symm.trans hd'
  exact Option.some.inj (hlookup.symm.trans hlookup')

theorem eq_origin (h : Readings w readings w') (fresh : w.memo = []) {d b : Derived}
    {f : Option Text → Option Text} (hd : d.origin? = some (b, f)) {v u : Option Text}
    (hv : (d.name, v) ∈ readings) (hu : (b.name, u) ∈ readings) : v = f u := by
  obtain ⟨u', hu', rfl⟩ := (h.kept fresh).1.origin hd (h.lookup_eq fresh hv)
  cases (h.lookup_eq fresh hu).symm.trans hu'
  rfl

end Readings

/-- Readings that fit together. Each value that is read is the first one read by its name. The system
directory lies below the directory of the operating system, and the compiler in the directory of the
runtime. -/
structure Fit (readings : List (Text × Option Text)) : Prop where
  first : ∀ name v, (name, v) ∈ readings → readings.lookup name = some v
  system : ∀ system windows, ("System".toList, system) ∈ readings →
    ("Windows".toList, windows) ∈ readings →
    (system = none ↔ windows = none ∨ windows = some []) ∧
      ∀ root, windows = some root → root ≠ [] → system = some (Path.join root "System32".toList)
  compiler : ∀ compiler runtime, ("NGen".toList, compiler) ∈ readings →
    ("Runtime".toList, runtime) ∈ readings →
    ∃ directory, runtime = some directory ∧ compiler = some (Path.join directory "NGen.exe".toList)

/-- Readings fit together however they alternate with changes of the host. -/
theorem readings_fit {w w' : World} {readings : List (Text × Option Text)} (fresh : w.memo = [])
    (h : Readings w readings w') : Fit readings := by
  refine ⟨fun name v hv => ?_, fun system windows hsystem hwindows => ?_,
    fun compiler runtime hcompiler hruntime => ?_⟩
  · have hsome : (readings.lookup name).isSome = true :=
      List.lookup_isSome_iff.mpr ⟨(name, v), hv, beq_self_eq_true name⟩
    obtain ⟨u, hu⟩ := Option.isSome_iff_exists.mp hsome
    obtain ⟨before, after, hfirst, -⟩ := List.lookup_eq_some_iff.mp hu
    have hmem : (name, u) ∈ readings := by simp [hfirst]
    rw [hu, h.unique fresh hmem hv]
  · have heq : system = Derived.systemBelow windows :=
      h.eq_origin fresh (d := .systemDirectory) rfl hsystem hwindows
    subst heq
    obtain _ | _ | ⟨c, root⟩ := windows <;> simp [Derived.systemBelow]
  · have heq : compiler = runtime.map (Path.join · "NGen.exe".toList) :=
      h.eq_origin fresh (d := .nativeCompiler) rfl hcompiler hruntime
    have hkept : w'.memo.lookup .runtimeDirectory = some runtime := h.lookup_eq fresh hruntime
    cases runtime with
    | none => exact absurd hkept (h.kept fresh).1.runtime
    | some directory => exact ⟨directory, rfl, heq⟩

/-- The system directory is read, then the environment, the current directory and the program are
others, then the value is read that it is made from. -/
theorem readings_fit_moved :
    let w : World :=
      { current := "/home".toList
        host :=
          { environment := [("SystemRoot".toList, "/win".toList)]
            executable := "bin/run".toList } }
    let readings := [("System".toList, some "/win/System32".toList),
      ("NGen".toList, some "/home/bin/NGen.exe".toList), ("Windows".toList, some "/win".toList),
      ("Runtime".toList, some "/home/bin".toList), ("System".toList, some "/win/System32".toList)]
    w.memo = [] ∧ (∃ w', Readings w readings w') ∧ Fit readings := by
  intro w readings
  let memo : List (Derived × Option Text) :=
    [(.nativeCompiler, some (Path.join w.runtimeDirectory "NGen.exe".toList)),
      (.runtimeDirectory, some w.runtimeDirectory),
      (.systemDirectory, some (Path.join "/win".toList "System32".toList)),
      (.windowsDirectory, some "/win".toList)]
  have hruntime : w.runtimeDirectory = "/home/bin".toList := by decide +kernel
  have hcompiler : Path.join w.runtimeDirectory "NGen.exe".toList = "/home/bin/NGen.exe".toList := by
    rw [hruntime]
    decide
  have hsystem : Path.join "/win".toList "System32".toList = "/win/System32".toList := by decide
  have hafter : Readings w readings { memo } := by
    have hfirst : Readings w
        ([] ++ [("System".toList, some (Path.join "/win".toList "System32".toList))])
        { w with memo := memo.drop 2 } := .value .none rfl rfl
    have hbefore : Readings w
        (_ ++ [("NGen".toList, some (Path.join w.runtimeDirectory "NGen.exe".toList))])
        { w with memo } := .value hfirst rfl rfl
    have hchanged : Readings w _ { memo } := .change hbefore rfl
    have hwindows : Readings w (_ ++ [("Windows".toList, some "/win".toList)]) { memo } :=
      .value hchanged rfl rfl
    have hdirectory : Readings w (_ ++ [("Runtime".toList, some w.runtimeDirectory)]) { memo } :=
      .value hwindows rfl rfl
    have hagain : Readings w
        (_ ++ [("System".toList, some (Path.join "/win".toList "System32".toList))]) { memo } :=
      .value hdirectory rfl rfl
    rw [hsystem, hcompiler, hruntime] at hagain
    exact hagain
  exact ⟨rfl, ⟨_, hafter⟩, readings_fit rfl hafter⟩

end Rollout
