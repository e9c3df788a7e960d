import Rollout.Deflate.Inflate
import Rollout.Fault

namespace Rollout

/-- Input as the pieces in which it arrives. A read gives at most one piece. -/
abbrev Stream := List Bytes

namespace Stream

/-- Cuts data into pieces of `size` bytes; `fuel` bounds their number. -/
def cut (size : Nat) : (fuel : Nat) → Bytes → Stream
  | 0, _ => []
  | _ + 1, [] => []
  | fuel + 1, b :: rest =>
    let (piece, more) := (b :: rest).splitAt size
    piece :: cut size fuel more

def ofBytes (size : Nat) (data : Bytes) : Stream := cut size data.length data

def read (size : Nat) : Stream → Bytes × Stream
  | [] => ([], [])
  | [] :: rest => read size rest
  | piece :: rest =>
    let (taken, left) := piece.splitAt size
    (taken, if left.isEmpty then rest else left :: rest)

def total (s : Stream) : Nat := s.flatten.length

end Stream

def portion : Nat := 0x10000

/-- A stream of compressed data, decoded as far as it was asked for. The first `given` bytes of the
output have been handed out. -/
structure Inflater where
  stream : Stream
  decoder : Deflate.Decoder := {}
  given : Nat := 0

namespace Inflater

def corrupt (c : Deflate.Corruption) : Fault :=
  .invalidArchive ("Error -3 while decompressing data: ".toList ++ c.message)

def fill (wanted : Nat) : (pieces : Nat) → Inflater → Except Fault Inflater
  | 0, i => .ok i
  | pieces + 1, i =>
    if wanted ≤ i.decoder.output.size || i.decoder.isDone then .ok i
    else match i.stream.read portion with
      | ([], stream) => .ok { i with stream }
      | (piece, stream) =>
        match i.decoder.feed piece with
        | .error c => .error (corrupt c)
        | .ok decoder => fill wanted pieces { i with stream, decoder }

def read (size : Nat) (i : Inflater) : Except Fault (Bytes × Inflater) :=
  match i.fill (i.given + size) (i.stream.total + 1) with
  | .error e => .error e
  | .ok i =>
    let stop := min (i.given + size) i.decoder.output.size
    .ok ((i.decoder.output.extract i.given stop).toList, { i with given := stop })

end Inflater

inductive Codec
  | plain
  | deflate
  deriving DecidableEq, Repr

inductive Reader
  | plain (stream : Stream)
  | deflate (inflater : Inflater)

namespace Reader

def ofStream (codec : Codec) (stream : Stream) : Reader :=
  match codec with
  | .plain => .plain stream
  | .deflate => .deflate { stream }

def read (size : Nat) : Reader → Except Fault (Bytes × Reader)
  | .plain stream =>
    let (bytes, stream) := stream.read size
    .ok (bytes, .plain stream)
  | .deflate inflater =>
    match inflater.read size with
    | .error e => .error e
    | .ok (bytes, inflater) => .ok (bytes, .deflate inflater)

/-- No more bytes than this are left. A bit of compressed data stands for one copy at most. -/
def bound : Reader → Nat
  | .plain stream => stream.total
  | .deflate inflater => 258 * 8 * (inflater.stream.total + 1)

def collect : (size fuel : Nat) → (before : Bytes) → Reader → Except Fault (Option Bytes × Reader)
  | 0, _, before, r => .ok (some before, r)
  | _ + 1, 0, _, r => .ok (none, r)
  | size + 1, fuel + 1, before, r =>
    match r.read (size + 1) with
    | .error e => .error e
    | .ok ([], r) => .ok (none, r)
    | .ok (bytes, r) => collect (size + 1 - bytes.length) fuel (before ++ bytes) r

def readExact (size : Int) (r : Reader) : Except Fault (Option Bytes × Reader) :=
  if size < 0 then
    .error (.invalidArchive ("negative record length ".toList ++ Text.ofInt size))
  else r.collect size.toNat size.toNat []

end Reader

end Rollout
