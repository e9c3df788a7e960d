import Rollout.Proofs.Action
import Rollout.FileSystem.Access

namespace Rollout

variable {α : Type}

theorem guardPath_eq (path : Text) (w : World) :
    guardPath path w =
      if w.isDenied path then .error (.refused .denied path) w
      else if path.contains '\x00' then .error .nullByte w
      else .ok () w := by
  change (if w.isDenied path then _ else _ : Action World Unit) w = _
  split
  · rfl
  · split <;> rfl

theorem guardPath_bind (path : Text) (f : Unit → Action World α) (w : World) :
    (guardPath path >>= f) w =
      if w.isDenied path then .error (.refused .denied path) w
      else if path.contains '\x00' then .error .nullByte w
      else f () w := by
  have h := guardPath_eq path w
  split_ifs at h ⊢
  · exact bind_of_error h
  · exact bind_of_error h
  · exact bind_of_ok h

theorem readFile_eq (path : Text) (w : World) :
    readFile path w =
      if w.isDenied path then .error (.refused .denied path) w
      else if path.contains '\x00' then .error .nullByte w
      else match w.tree.read w.current path with
        | .ok content => .ok content w
        | .error r => .error (.refused r path) w := by
  apply (guardPath_bind path _ w).trans
  rw [get_bind]
  cases w.tree.read w.current path <;> rfl

theorem readFile_eq_ok {path : Text} {content : Bytes} {w w' : World} :
    readFile path w = .ok content w' ↔
      w.isDenied path = false ∧ '\x00' ∉ path ∧ w.tree.read w.current path = .ok content ∧
        w' = w := by
  rw [readFile_eq]
  split_ifs with hdenied hnull
  · simp [hdenied]
  · simp at hnull
    simp [hnull]
  · simp at hnull
    cases w.tree.read w.current path <;> simp [hdenied, hnull, eq_comm]

theorem writeFile_eq (path : Text) (content : Bytes) (w : World) :
    writeFile path content w =
      if w.isDenied path then .error (.refused .denied path) w
      else if path.contains '\x00' then .error .nullByte w
      else match w.tree.write w.current path content with
        | .ok tree => .ok () { w with tree }
        | .error r => .error (.refused r path) w := by
  apply (guardPath_bind path _ w).trans
  rw [get_bind]
  cases w.tree.write w.current path content <;> rfl

theorem removePath_eq (path : Text) (w : World) :
    removePath path w =
      if w.isDenied path then .error (.refused .denied path) w
      else if path.contains '\x00' then .error .nullByte w
      else match w.tree.erase w.current path with
        | (tree, none) => .ok () { w with tree }
        | (tree, some r) => .error (.refused r path) { w with tree } := by
  apply (guardPath_bind path _ w).trans
  rw [get_bind]
  obtain ⟨tree, _ | r⟩ := w.tree.erase w.current path <;> rfl

theorem makeDirectory_eq (path : Text) (w : World) :
    makeDirectory path w =
      if path.contains '\x00' then .error .nullByte w
      else match w.tree.makeDirectory w.current path with
        | .ok tree => .ok () { w with tree }
        | .error r => .error (.refused r path) w := by
  unfold makeDirectory
  dsimp only
  split
  · rfl
  · rw [get_bind]
    cases w.tree.makeDirectory w.current path <;> rfl

/-- A directory that cannot be made is no fault when it is there. -/
theorem settleDirectory_eq (path : Text) (w : World) :
    settleDirectory path w =
      match makeDirectory path w with
      | .error (.refused r p) w' =>
        if w'.isDirectory path then .ok () w' else .error (.refused r p) w'
      | result => result := by
  change EStateM.tryCatch (makeDirectory path) _ w = _
  unfold EStateM.tryCatch
  cases makeDirectory path w with
  | ok x w' => rfl
  | error e w' =>
    cases e with
    | refused r p =>
      change (if w'.isDirectory path then _ else _ : Action World Unit) w' = ite _ _ _
      split <;> rfl
    | _ => rfl

theorem makeDirectories_eq (path : Text) (w : World) :
    makeDirectories path w =
      if w.isDenied path then .error (.refused .denied path) w
      else makeDirectoriesWithin path.length path w := by
  change (if w.isDenied path then _ else _ : Action World Unit) w = _
  split <;> rfl

def SameButTree (w w' : World) : Prop := w' = { w with tree := w'.tree }

instance : IsPreorder World SameButTree where
  refl _ := rfl
  trans := by
    intro u v w huv hvw
    rw [SameButTree, hvw, huv]

theorem readFile_state (path : Text) (w : World) : finalState (readFile path) w = w := by
  rw [finalState, readFile_eq]
  split_ifs
  · rfl
  · rfl
  · cases w.tree.read w.current path <;> rfl

theorem readFile_obeys {R : World → World → Prop} [IsPreorder World R] (path : Text) :
    Obeys R (readFile path) := by
  intro w
  rw [ObeysAt, readFile_state]
  exact refl w

theorem writeFile_sameButTree (path : Text) (content : Bytes) :
    Obeys SameButTree (writeFile path content) := by
  intro w
  rw [ObeysAt, finalState, writeFile_eq]
  split_ifs
  · rfl
  · rfl
  · cases w.tree.write w.current path content <;> rfl

theorem removePath_sameButTree (path : Text) : Obeys SameButTree (removePath path) := by
  intro w
  rw [ObeysAt, finalState, removePath_eq]
  split_ifs
  · rfl
  · rfl
  · obtain ⟨tree, _ | r⟩ := w.tree.erase w.current path <;> rfl

theorem makeDirectory_sameButTree (path : Text) : Obeys SameButTree (makeDirectory path) := by
  intro w
  rw [ObeysAt, finalState, makeDirectory_eq]
  split_ifs
  · rfl
  · cases w.tree.makeDirectory w.current path <;> rfl

theorem settleDirectory_sameButTree (path : Text) : Obeys SameButTree (settleDirectory path) := by
  refine (makeDirectory_sameButTree path).tryCatch fun e => ?_
  split
  · refine obeys_get.bind fun w => ?_
    split
    · exact obeys_pure _
    · exact obeys_throw _
  · exact obeys_throw _

theorem makeDirectoriesWithin_sameButTree (depth : Nat) (path : Text) :
    Obeys SameButTree (makeDirectoriesWithin depth path) := by
  induction depth generalizing path with
  | zero => exact settleDirectory_sameButTree path
  | succ depth ih =>
    refine obeys_get.bind fun w => ?_
    dsimp only
    split
    · refine Obeys.bind ?_ fun _ => ?_
      · refine (ih _).tryCatch fun e => ?_
        split
        · exact obeys_pure _
        · exact obeys_throw _
      · split
        · exact obeys_pure _
        · exact settleDirectory_sameButTree path
    · exact settleDirectory_sameButTree path

theorem makeDirectories_sameButTree (path : Text) : Obeys SameButTree (makeDirectories path) := by
  refine obeys_get.bind fun w => ?_
  dsimp only
  split
  · exact (obeys_throw _).bind fun _ => makeDirectoriesWithin_sameButTree _ path
  · exact makeDirectoriesWithin_sameButTree _ path

end Rollout
