import Rollout.Text

namespace Rollout.Utf8

inductive Reason
  | invalidStart
  | unexpectedEnd
  | invalidContinuation
  deriving DecidableEq, Repr

/-- The first bytes that are no text: `width` of them at `position`, where `byte` is the first. -/
structure DecodeError where
  byte : UInt8
  position : Nat
  width : Nat
  reason : Reason
  deriving DecidableEq, Repr

/-- What a lead byte promises: how many bytes follow, the range of the first of them, and the bits
it carries itself. -/
structure Lead where
  more : Nat
  low : UInt8
  high : UInt8
  bits : Nat

def lead? (b : UInt8) : Option Lead :=
  if b < 0x80 then some ⟨0, 0x80, 0xBF, b.toNat⟩
  else if b < 0xC2 then none
  else if b < 0xE0 then some ⟨1, 0x80, 0xBF, b.toNat - 0xC0⟩
  else if b < 0xF0 then
    some ⟨2, if b = 0xE0 then 0xA0 else 0x80, if b = 0xED then 0x9F else 0xBF, b.toNat - 0xE0⟩
  else if b < 0xF5 then
    some ⟨3, if b = 0xF0 then 0x90 else 0x80, if b = 0xF4 then 0x8F else 0xBF, b.toNat - 0xF0⟩
  else none

/-- Reads `more` continuation bytes, the first within the given range. Gives the code point, or what
is wrong, with the number of bytes read. -/
def continuation (low high : UInt8) : (more bits : Nat) → Bytes → Except Reason Nat × Nat
  | 0, bits, _ => (.ok bits, 0)
  | _ + 1, _, [] => (.error .unexpectedEnd, 0)
  | more + 1, bits, b :: rest =>
    if low ≤ b && b ≤ high then
      let (result, count) := continuation 0x80 0xBF more (bits * 64 + (b.toNat - 0x80)) rest
      (result, count + 1)
    else (.error .invalidContinuation, 0)

def first (b : UInt8) (rest : Bytes) : Except Reason Char × Nat :=
  match lead? b with
  | none => (.error .invalidStart, 1)
  | some lead =>
    match continuation lead.low lead.high lead.more lead.bits rest with
    | (.ok n, count) => (.ok (Char.ofNat n), count + 1)
    | (.error reason, count) => (.error reason, count + 1)

/-- Decodes from `position` on; `skip` bytes belong to the code point before. -/
def decodeFrom (position : Nat) : (skip : Nat) → Bytes → Except DecodeError Text
  | _, [] => .ok []
  | skip + 1, _ :: rest => decodeFrom (position + 1) skip rest
  | 0, b :: rest =>
    match first b rest with
    | (.error reason, width) => .error ⟨b, position, width, reason⟩
    | (.ok c, width) =>
      match decodeFrom (position + 1) (width - 1) rest with
      | .ok t => .ok (c :: t)
      | .error e => .error e

def decode (bytes : Bytes) : Except DecodeError Text := decodeFrom 0 0 bytes

def decodeLossyFrom : (skip : Nat) → Bytes → Text
  | _, [] => []
  | skip + 1, _ :: rest => decodeLossyFrom skip rest
  | 0, b :: rest =>
    match first b rest with
    | (.error _, width) => decodeLossyFrom (width - 1) rest
    | (.ok c, width) => c :: decodeLossyFrom (width - 1) rest

def decodeLossy (bytes : Bytes) : Text := decodeLossyFrom 0 bytes

def mark : Bytes := [0xEF, 0xBB, 0xBF]

/-- Strict decoding without a leading byte order mark. Input that ends within the mark is empty. -/
def decodeMarked (bytes : Bytes) : Except DecodeError Text :=
  if mark.isPrefixOf bytes then decode (bytes.drop 3)
  else if bytes.length < 3 && bytes.isPrefixOf mark then .ok []
  else decode bytes

def encodeChar (c : Char) : Bytes := String.utf8EncodeChar c

def encode (t : Text) : Bytes := t.flatMap encodeChar

def Reason.message : Reason → Text
  | .invalidStart => "invalid start byte".toList
  | .unexpectedEnd => "unexpected end of data".toList
  | .invalidContinuation => "invalid continuation byte".toList

def DecodeError.message (e : DecodeError) : Text :=
  "'utf-8' codec can't decode ".toList ++
  (if e.width = 1 then
    "byte 0x".toList ++ Text.ofHex 2 e.byte.toNat ++ " in position ".toList ++
      Text.ofNat e.position
  else
    "bytes in position ".toList ++ Text.ofNat e.position ++ "-".toList ++
      Text.ofNat (e.position + e.width - 1)) ++
  ": ".toList ++ e.reason.message

end Rollout.Utf8
