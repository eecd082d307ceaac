import Ccb.Frame
/-!
# SegReader — the reader of a direction's segment files

`turn` is one round of the loop in `segReader.next` (seglog.go): `next` makes turns until one returns something other
than `again`.  What the file operations of a round find is a `View`: the file a segment name opens, and the bytes of an
open file that are visible.  A file is its inode number, so a file that has been unlinked can still be read through
the handle that has it open.  In a `turn` the operations fail only as the loop lets them (a name that is not there, a
re-open); `round` is one that may meet any other error of theirs.
-/
namespace Ccb
namespace Fstun

structure View where
  lookup : UInt32 → Option Nat
  bytes  : Nat → List UInt8

structure SegReader where
  cur : UInt32
  f   : Option Nat
  off : Nat
  buf : List UInt8
  deriving DecidableEq, Repr

def newSegReader : SegReader := ⟨0, none, 0, []⟩

/-- How a round of `next`'s loop ends.  `badRoll` is the error of `advance` on a ROLL whose payload is no index,
`ioError` an error of `Open` or `Stat` that is not `ErrNotExist`. -/
inductive Turn where
  | again
  | frame (f : Frame)
  | incomplete
  | notExist
  | corrupt
  | badRoll
  | ioError
  deriving DecidableEq, Repr

/-- The file `fill` reads from: in network mode the segment is opened again, which `reopen` lets fail. -/
def refresh (netFS reopen : Bool) (v : View) (r : SegReader) (ino : Nat) : Option Nat :=
  if netFS then if reopen then v.lookup r.cur else none else some ino

def fill (netFS reopen : Bool) (v : View) (r : SegReader) (ino : Nat) : SegReader × Bool :=
  match refresh netFS reopen v r ino with
  | none     => ({ r with f := none }, false)
  | some ino =>
    if (v.bytes ino).length ≤ r.off then ({ r with f := some ino }, false)
    else
      ({ r with f := some ino, off := (v.bytes ino).length, buf := r.buf ++ (v.bytes ino).drop r.off }, true)

/-- The round after the segment is open. -/
def turnOpen (crc : List UInt8 → UInt32) (netFS reopen : Bool) (v : View) (r : SegReader) (ino : Nat) :
    SegReader × Turn :=
  match decodeFrame crc r.buf with
  | .ok (fr, n) =>
    let r := { r with buf := r.buf.drop n }
    if fr.typ = frameROLL then
      match decodeUint32 fr.payload with
      | none      => (r, .badRoll)
      | some next => ({ r with cur := next, f := none, buf := [] }, .again)
    else (r, .frame fr)
  | .error .corrupt => (r, .corrupt)
  | .error .incomplete =>
    match fill netFS reopen v r ino with
    | (r, true)  => (r, .again)
    | (r, false) => (r, .incomplete)

def turn (crc : List UInt8 → UInt32) (netFS reopen : Bool) (v : View) (r : SegReader) : SegReader × Turn :=
  match r.f with
  | some ino => turnOpen crc netFS reopen v r ino
  | none =>
    match v.lookup r.cur with
    | none     => (r, .notExist)
    | some ino => turnOpen crc netFS reopen v { r with f := some ino, off := 0 } ino

/-- The operation that fails: the `Open` of `next`, or the `Stat` of `fill`. -/
inductive Fault where
  | onOpen
  | onStat
  deriving DecidableEq, Repr

/-- The reader as `fill`'s `Stat` finds it; none if the round does not come to it. -/
def atStat (crc : List UInt8 → UInt32) (netFS reopen : Bool) (v : View) (r : SegReader) (ino : Nat) :
    Option SegReader :=
  match decodeFrame crc r.buf with
  | .error .incomplete => (refresh netFS reopen v r ino).map (fun ino => { r with f := some ino })
  | _ => none

/-- The reader after the round in which an operation fails; none if the round does not come to it. -/
def faulted (crc : List UInt8 → UInt32) (netFS reopen : Bool) (v : View) (r : SegReader) : Fault → Option SegReader
  | .onOpen => if r.f = none then some r else none
  | .onStat =>
    match r.f with
    | some ino => atStat crc netFS reopen v r ino
    | none     => (v.lookup r.cur).bind (fun ino => atStat crc netFS reopen v { r with f := some ino, off := 0 } ino)

def round (crc : List UInt8 → UInt32) (netFS reopen : Bool) (fault : Option Fault) (v : View) (r : SegReader) :
    SegReader × Turn :=
  match fault.bind (faulted crc netFS reopen v r) with
  | some r => (r, .ioError)
  | none   => turn crc netFS reopen v r

end Fstun
end Ccb
