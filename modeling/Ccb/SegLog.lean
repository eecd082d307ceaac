import Ccb.Pipe
/-!
# SegLog — the segment files of a direction

`SegDir` is one direction directory with the `segWriter` that appends to it and the `segReader` that follows it
(seglog.go).  A file is an inode, so a name can be unlinked while a reader has the file open, and an append to an index
that exists already goes on with its file.  `shown` is how much of each file the reader's host can see: it grows as the
labels say, and a file is not there for the reader before it is shown at all.
-/
namespace Ccb
namespace Fstun

structure SegEnd where
  idx     : UInt32
  dataEnd : UInt64
  deriving DecidableEq, Repr

structure SegDir where
  maxSeg  : Nat
  netFS   : Bool
  -- segWriter
  cur     : UInt32 := 0
  f       : Option Nat := none
  size    : Nat := 0
  closed  : Bool := false
  reapOff : List SegEnd := []
  -- the directory
  gone    : Bool := false
  names   : UInt32 → Option Nat := fun _ => none
  files   : List (List UInt8) := []
  shown   : Nat → Option Nat := fun _ => none
  -- segReader
  r       : SegReader := newSegReader

/-- What the file operations of a call find: the bytes shown from now on, whether a re-open or an open succeeds, whether
the reader meets another error, and after how many bytes a write fails. -/
structure SegIo where
  reveal    : List (Nat × Nat) := []
  reopen    : Bool := true
  fault     : Option Fault := none
  openOk    : Bool := true
  rollFails : Option Nat := none
  fails     : Option Nat := none
  deriving DecidableEq, Repr

def rollFrame (next : UInt32) : Frame := ⟨frameROLL, 0, 0, 0, encodeUint32 next⟩

theorem rollFrame_payload_le (next : UInt32) : (rollFrame next).payload.length ≤ maxPayload := by
  simp [rollFrame, encodeUint32, maxPayload]

section
variable (crc : List UInt8 → UInt32) (d : SegDir)

/-- `openCur`: `O_CREATE | O_APPEND`, so a file that is there is gone on with. -/
def SegDir.openCur (ok : Bool) : SegDir × Bool :=
  if ok ∧ d.gone = false then
    match d.names d.cur with
    | some ino => ({ d with f := some ino, size := 0 }, true)
    | none     =>
      ({ d with f := some d.files.length, size := 0, files := d.files ++ [[]],
                names := fun i => if i = d.cur then some d.files.length else d.names i }, true)
  else (d, false)

/-- A write to the open file, whole or failing after some bytes; a closed handle takes none. -/
def SegDir.write (b : List UInt8) (fails : Option Nat) : SegDir × Bool :=
  match d.f with
  | none     => (d, false)
  | some ino =>
    match fails with
    | none   => ({ d with files := d.files.modify ino (· ++ b) }, true)
    | some n => ({ d with files := d.files.modify ino (· ++ b.take n) }, false)

def SegDir.roll (io : SegIo) (dataEnd : UInt64) : SegDir × Bool :=
  match d.write ((rollFrame (d.cur + 1)).encode crc) io.rollFails with
  | (d, false) => (d, false)
  | (d, true)  =>
    ({ d with f := none, reapOff := d.reapOff ++ [⟨d.cur, dataEnd⟩], cur := d.cur + 1 } : SegDir).openCur io.openOk

/-- The frame goes to a new segment. -/
def SegDir.rolls (f : Frame) : Bool := decide (0 < d.size ∧ d.maxSeg < d.size + (f.encode crc).length)

/-- The write of the frame itself. -/
def SegDir.put (io : SegIo) (f : Frame) : SegDir × Bool :=
  match d.write (f.encode crc) io.fails with
  | (d, true)  => ({ d with size := d.size + (f.encode crc).length }, true)
  | (d, false) => (d, false)

def SegDir.append (io : SegIo) (f : Frame) (dataEnd : UInt64) : SegDir × Bool :=
  if d.closed then (d, false)
  else if d.rolls crc f then
    match d.roll crc io dataEnd with
    | (d, true)  => d.put crc io f
    | (d, false) => (d, false)
  else d.put crc io f

/-- The segments `reap` unlinks. -/
def SegDir.reaped (acked : UInt64) : List SegEnd := d.reapOff.filter (fun s => decide (s.dataEnd ≤ acked))

def SegDir.reap (acked : UInt64) : SegDir :=
  { d with reapOff := d.reapOff.filter (fun s => !decide (s.dataEnd ≤ acked)),
           names := fun i => if (d.reaped acked).any (fun s => s.idx == i) then none else d.names i }

def SegDir.reveal (l : List (Nat × Nat)) : SegDir :=
  { d with shown := l.foldl (fun sh p ino => if ino = p.1 then some (max ((sh ino).getD 0) p.2) else sh ino) d.shown }

/-- What the reader's file operations find. -/
def SegDir.view : View :=
  ⟨fun i => (d.names i).filter (fun ino => (d.shown ino).isSome),
    fun ino => ((d.files[ino]?).getD []).take ((d.shown ino).getD 0)⟩

/-- A round of `segReader.next`, after what is shown from now on. -/
def SegDir.next (io : SegIo) : SegDir × Turn :=
  let d := d.reveal io.reveal
  let (r, t) := round crc d.netFS io.reopen io.fault d.view d.r
  ({ d with r := r }, t)

def SegDir.perform (io : SegIo) (x : Call) : Option SegDir :=
  match x with
  | .openW ok =>
    let (d, done) := d.openCur io.openOk
    if done = ok then some d else none
  | .append f dataEnd ok =>
    let (d, done) := d.append crc io f dataEnd
    if done = ok then some d else none
  | .reap ack => some (d.reap ack)
  | .closeW   => some { d with closed := true }
  | .next t   =>
    let (d, u) := d.next crc io
    if u = t then some d else none
  | .closeR   => some { d with r := { d.r with f := none } }

/-- **What a call does to the files, and what it answers.** -/
inductive SegDir.Performed (io : SegIo) : Call → SegDir → Prop
  | openW : Performed io (.openW (d.openCur io.openOk).2) (d.openCur io.openOk).1
  | append (f : Frame) (dataEnd : UInt64) :
      Performed io (.append f dataEnd (d.append crc io f dataEnd).2) (d.append crc io f dataEnd).1
  | reap (acked : UInt64) : Performed io (.reap acked) (d.reap acked)
  | closeW : Performed io .closeW { d with closed := true }
  | next : Performed io (.next (d.next crc io).2) (d.next crc io).1
  | closeR : Performed io .closeR { d with r := { d.r with f := none } }

end

section
variable {crc : List UInt8 → UInt32} {d d' : SegDir} {io : SegIo}

theorem SegDir.perform_some {x : Call} (h : d.perform crc io x = some d') : d.Performed crc io x d' := by
  unfold SegDir.perform at h
  cases x with
  | openW ok =>
    obtain ⟨rfl, hd⟩ := Option.ite_none_right_eq_some.1 h
    cases hd
    exact .openW
  | append f dataEnd ok =>
    obtain ⟨rfl, hd⟩ := Option.ite_none_right_eq_some.1 h
    cases hd
    exact .append f dataEnd
  | reap acked =>
    cases h
    exact .reap acked
  | closeW =>
    cases h
    exact .closeW
  | next t =>
    obtain ⟨rfl, hd⟩ := Option.ite_none_right_eq_some.1 h
    cases hd
    exact .next
  | closeR =>
    cases h
    exact .closeR

/-- A writer that is closed, or has no file open, takes nothing. -/
theorem SegDir.append_idle (f : Frame) (dataEnd : UInt64) (h : d.closed = true ∨ d.f = none) :
    d.append crc io f dataEnd = (d, false) := by
  unfold SegDir.append
  rcases h with h | hf
  · rw [if_pos h]
  · have hwrite : ∀ b fails, d.write b fails = (d, false) := by
      intro b fails
      unfold SegDir.write
      rw [hf]
    split
    · rfl
    · split
      · unfold SegDir.roll
        rw [hwrite]
      · unfold SegDir.put
        rw [hwrite]

end

/-- The file operations succeed. -/
structure SegIo.Smooth (io : SegIo) : Prop where
  reopen    : io.reopen = true
  openOk    : io.openOk = true
  rollFails : io.rollFails = none
  fails     : io.fails = none

instance (io : SegIo) : Decidable io.Smooth :=
  decidable_of_iff (io.reopen = true ∧ io.openOk = true ∧ io.rollFails = none ∧ io.fails = none)
    ⟨fun ⟨h1, h2, h3, h4⟩ => ⟨h1, h2, h3, h4⟩, fun ⟨h1, h2, h3, h4⟩ => ⟨h1, h2, h3, h4⟩⟩

/-- The call does not roll from the last segment index. -/
def SegDir.Fits (crc : List UInt8 → UInt32) (d : SegDir) (x : Call) : Prop :=
  match x with
  | .append f _ _ => d.closed = false → d.rolls crc f = true → d.cur ≠ 4294967295
  | _ => True

instance (crc : List UInt8 → UInt32) (d : SegDir) (x : Call) : Decidable (d.Fits crc x) :=
  match x with
  | .append f _ _ => inferInstanceAs (Decidable (d.closed = false → d.rolls crc f = true → d.cur ≠ 4294967295))
  | .openW _ | .reap _ | .closeW | .next _ | .closeR => .isTrue trivial

/-- The segment files as a transport. -/
abbrev segFiles (crc : List UInt8 → UInt32) : Transport := ⟨SegDir, SegIo, fun d io x => d.perform crc io x⟩

/-- Both endpoints before their handshakes: no directory yet. -/
def Pipe.startFiles (crc : List UInt8 → UInt32) (p : Role → Params) (idle : Role → Nat) (netFS : Role → Bool) :
    Pipe (segFiles crc) :=
  ⟨fun r => { params := p r, idleTimeout := idle r },
    fun r => ({ maxSeg := (p r).segmentSize.toNat, netFS := netFS r.peer } : SegDir)⟩

end Fstun
end Ccb
