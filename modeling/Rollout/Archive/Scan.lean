import Rollout.Archive.Record
import Rollout.Archive.Stream

namespace Rollout

inductive Ending
  | clean
  /-- The input ends within a record. -/
  | truncated
  | wrong (fault : Fault)
  deriving DecidableEq, Repr

structure Scan where
  records : List Record
  ending : Ending
  deriving DecidableEq, Repr

namespace Scan

/-- The next record, or how the archive ends. Lengths are checked as they are read, the path when
the record is whole. -/
def next (r : Reader) : Except Ending (Record × Reader) :=
  match r.readExact 4 with
  | .error e => .error (.wrong e)
  | .ok (none, _) => .error .clean
  | .ok (some header, r) =>
    match r.readExact (Record.decodeLength header) with
    | .error e => .error (.wrong e)
    | .ok (none, _) => .error .truncated
    | .ok (some path, r) =>
      match r.readExact 4 with
      | .error e => .error (.wrong e)
      | .ok (none, _) => .error .truncated
      | .ok (some size, r) =>
        match r.readExact (Record.decodeLength size) with
        | .error e => .error (.wrong e)
        | .ok (none, _) => .error .truncated
        | .ok (some content, r) =>
          match Utf8.decode path with
          | .ok path => .ok (⟨path, content⟩, r)
          | .error e =>
            .error (.wrong (.invalidArchive
              ("record path is not UTF-8 (".toList ++ e.message ++ [')'])))

def fromReader : (fuel : Nat) → (before : List Record) → Reader → Scan
  | 0, before, _ => ⟨before.reverse, .clean⟩
  | fuel + 1, before, r =>
    match next r with
    | .error ending => ⟨before.reverse, ending⟩
    | .ok (record, r) => fromReader fuel (record :: before) r

def ofStream (codec : Codec) (stream : Stream) : Scan :=
  let r := Reader.ofStream codec stream
  fromReader (r.bound + 1) [] r

end Scan

end Rollout
