import Rollout.Deflate.Code

namespace Rollout.Deflate

/-- A byte, or a copy of `length` bytes from `distance` bytes back. -/
inductive Token
  | literal (byte : UInt8)
  | copy (length distance : Nat)
  deriving DecidableEq, Repr

/-- Repeats what stands `distance` bytes back, `length` times; a copy may reach into itself. -/
def copyBack (distance : Nat) : (length : Nat) → Array UInt8 → Array UInt8
  | 0, output => output
  | length + 1, output =>
    copyBack distance length (output.push (output.getD (output.size - distance) 0))

def Token.emit (output : Array UInt8) : Token → Array UInt8
  | literal byte => output.push byte
  | copy length distance => copyBack distance length output

def expand (output : Array UInt8) (tokens : List Token) : Array UInt8 :=
  tokens.foldl Token.emit output

/-- The smallest length of each length symbol from 257 on, and how many extra bits add to it. -/
def lengthRows : List (Nat × Nat) :=
  [(3, 0), (4, 0), (5, 0), (6, 0), (7, 0), (8, 0), (9, 0), (10, 0), (11, 1), (13, 1), (15, 1),
   (17, 1), (19, 2), (23, 2), (27, 2), (31, 2), (35, 3), (43, 3), (51, 3), (59, 3), (67, 4),
   (83, 4), (99, 4), (115, 4), (131, 5), (163, 5), (195, 5), (227, 5), (258, 0)]

def distanceRows : List (Nat × Nat) :=
  [(1, 0), (2, 0), (3, 0), (4, 0), (5, 1), (7, 1), (9, 2), (13, 2), (17, 3), (25, 3), (33, 4),
   (49, 4), (65, 5), (97, 5), (129, 6), (193, 6), (257, 7), (385, 7), (513, 8), (769, 8),
   (1025, 9), (1537, 9), (2049, 10), (3073, 10), (4097, 11), (6145, 11), (8193, 12), (12289, 12),
   (16385, 13), (24577, 13)]

def endSymbol : Nat := 256

def fixedLiteralLengths : List Nat :=
  List.replicate 144 8 ++ List.replicate 112 9 ++ List.replicate 24 7 ++ List.replicate 8 8

def fixedDistanceLengths : List Nat := List.replicate 32 5

def fixedLiteralCode : Code := .ofLengths fixedLiteralLengths

def fixedDistanceCode : Code := .ofLengths fixedDistanceLengths

end Rollout.Deflate
