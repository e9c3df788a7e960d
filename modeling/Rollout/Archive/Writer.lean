import Rollout.Archive.Record
import Rollout.Deflate.Compress
import Rollout.Fault

namespace Rollout

/-- What an archive goes through on its way to a stream. It takes bytes in pieces and gives bytes
out at each, and the last of them when it is closed. -/
structure Coder (σ : Type) where
  start : σ
  feed : σ → Bytes → Bytes × σ
  close : σ → Bytes

namespace Coder

def plain : Coder Unit where
  start := ()
  feed _ piece := (piece, ())
  close _ := []

/-- A compressor that gives nothing out before it is closed. -/
def deflate : Coder (List Bytes) where
  start := []
  feed pieces piece := ([], piece :: pieces)
  close pieces := Deflate.compress pieces.reverse.flatten

end Coder

/-- The pieces in which a record is written. They end before a length that is too large for four
bytes and their sign. -/
def Record.pieces (r : Record) : List Bytes × Option Fault :=
  let path := Utf8.encode r.path
  if 0x80000000 ≤ path.length then ([], some .badLength)
  else if 0x80000000 ≤ r.content.length then
    ([encodeLength path.length, path], some .badLength)
  else ([encodeLength path.length, path, encodeLength r.content.length, r.content], none)

theorem Record.fault_of_pieces {r : Record} {e : Fault} (h : r.pieces.2 = some e) :
    e = .badLength := by
  unfold pieces at h
  dsimp only at h
  split at h
  · exact (Option.some.inj h).symm
  · split at h
    · exact (Option.some.inj h).symm
    · cases h

structure Buffered where
  written : Bytes := []
  waiting : Bytes := []

namespace Buffered

/-- A piece waits if there is room for it; else what has waited goes first, and a piece that is
longer than the buffer goes with it. -/
def put (size : Nat) (b : Buffered) (piece : Bytes) : Buffered :=
  if b.waiting.length + piece.length ≤ size then { b with waiting := b.waiting ++ piece }
  else if piece.length ≤ size then ⟨b.written ++ b.waiting, piece⟩
  else ⟨b.written ++ b.waiting ++ piece, []⟩

def content (b : Buffered) : Bytes := b.written ++ b.waiting

theorem content_put (size : Nat) (b : Buffered) (piece : Bytes) :
    (b.put size piece).content = b.content ++ piece := by
  rw [put]
  split
  · simp [content]
  · split <;> simp [content]

end Buffered

end Rollout
