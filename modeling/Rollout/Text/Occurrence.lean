namespace Rollout

inductive Piece (α β : Type)
  | plain (a : α)
  | found (b : β)
  deriving DecidableEq, Repr

variable {α β : Type}

/-- Cuts a sequence at the leftmost occurrences that do not overlap. The pattern says what begins at
a position and how long it is; `skip` elements belong to the occurrence found last. -/
def occurrences (pattern : List α → Option (β × Nat)) : Nat → List α → List (Piece α β)
  | _, [] => []
  | skip + 1, _ :: rest => occurrences pattern skip rest
  | 0, a :: rest =>
    match pattern (a :: rest) with
    | some (b, length) => .found b :: occurrences pattern (length - 1) rest
    | none => .plain a :: occurrences pattern 0 rest

def Piece.found? : Piece α β → Option β
  | .plain _ => none
  | .found b => some b

def firstOccurrence? (pattern : List α → Option (β × Nat)) (t : List α) : Option β :=
  (occurrences pattern 0 t).findSome? Piece.found?

def Piece.expand (image : β → List α) : Piece α β → List α
  | .plain a => [a]
  | .found b => image b

def replaceOccurrences (pattern : List α → Option (β × Nat)) (image : β → List α) (t : List α) :
    List α :=
  (occurrences pattern 0 t).flatMap (Piece.expand image)

def wordAt [BEq α] (word : List α) (t : List α) : Option (Unit × Nat) :=
  if word.isPrefixOf t then some ((), word.length) else none

def replaceWord [BEq α] (word new t : List α) : List α :=
  replaceOccurrences (wordAt word) (fun _ => new) t

theorem occurrences_skip (pattern : List α → Option (β × Nat)) (skip : Nat) (t : List α) :
    occurrences pattern skip t = occurrences pattern 0 (t.drop skip) := by
  induction skip generalizing t with
  | zero => rfl
  | succ skip ih =>
    cases t with
    | nil => rfl
    | cons a rest => simp only [occurrences, List.drop_succ_cons, ih]

/-- Where the pattern gives back its own text, nothing is lost. -/
theorem replaceOccurrences_self (pattern : List α → Option (β × Nat)) (image : β → List α)
    (h : ∀ t b n, pattern t = some (b, n) → 0 < n ∧ image b = t.take n) (t : List α) :
    replaceOccurrences pattern image t = t := by
  unfold replaceOccurrences
  induction hn : t.length using Nat.strongRecOn generalizing t with
  | ind n ih =>
    cases t with
    | nil => rfl
    | cons a rest =>
      simp only [occurrences]
      split
      · next b length hb =>
        obtain ⟨hpos, himage⟩ := h _ _ _ hb
        rw [occurrences_skip, List.flatMap_cons, Piece.expand, himage,
          ih (rest.drop (length - 1)).length (by simp at hn ⊢; omega) _ rfl]
        obtain ⟨k, rfl⟩ : ∃ k, length = k + 1 := ⟨length - 1, by omega⟩
        simp
      · rw [List.flatMap_cons, ih rest.length (by simp at hn; omega) _ rfl]
        rfl

end Rollout
