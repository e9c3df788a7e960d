import Rollout.Deflate.Token

namespace Rollout.Deflate

def maxCopy : Nat := 258

def reach : Nat := 128

def agreement : (limit : Nat) → Bytes → Bytes → Nat
  | 0, _, _ => 0
  | limit + 1, a :: s, b :: t => if a = b then agreement limit s t + 1 else 0
  | _ + 1, _, _ => 0

/-- The longest agreement of `rest` with one of the earlier suffixes, the nearest among equals, and
its distance. The first suffix lies `distance` bytes back. -/
def bestCopy (rest : Bytes) : (distance : Nat) → List Bytes → Nat × Nat
  | _, [] => (0, 0)
  | distance, suffix :: more =>
    let found := agreement maxCopy suffix rest
    let later := bestCopy rest (distance + 1) more
    if later.1 ≤ found then (found, distance) else later

/-- Tokens for a sequence. `before` holds the suffixes that begin at earlier bytes, the nearest
first; `skip` bytes are part of the copy made last. -/
def tokensFrom (before : List Bytes) : (skip : Nat) → Bytes → List Token
  | _, [] => []
  | skip + 1, b :: rest => tokensFrom (((b :: rest) :: before).take reach) skip rest
  | 0, b :: rest =>
    let (length, distance) := bestCopy (b :: rest) 1 before
    let before' := ((b :: rest) :: before).take reach
    if 3 ≤ length then .copy length distance :: tokensFrom before' (length - 1) rest
    else .literal b :: tokensFrom before' 0 rest

def literalPaths : Array (List Bool) :=
  (Array.range 288).map fun n => (fixedLiteralCode.path? n).getD []

def distancePaths : Array (List Bool) :=
  (Array.range 30).map fun n => (fixedDistanceCode.path? n).getD []

def rowOf (rows : List (Nat × Nat)) (n : Nat) : Nat × Nat × Nat :=
  let index := (rows.takeWhile fun row => row.1 ≤ n).length - 1
  (index, rows.getD index (0, 0))

def Token.toBits : Token → List Bool
  | literal byte => literalPaths.getD byte.toNat []
  | copy length distance =>
    let (symbol, base, extra) := rowOf lengthRows length
    let (symbol', base', extra') := rowOf distanceRows distance
    literalPaths.getD (257 + symbol) [] ++ Deflate.toBits extra (length - base) ++
      distancePaths.getD symbol' [] ++ Deflate.toBits extra' (distance - base')

def compress (data : Bytes) : Bytes :=
  packBits ([true, true, false] ++ (tokensFrom [] 0 data).flatMap Token.toBits ++
    literalPaths.getD endSymbol [])

/-- The compression levels there are. All give the same data. -/
def isLevel (level : Int) : Bool := -1 ≤ level && level ≤ 9

end Rollout.Deflate
