import Ccb.SegReader
/-!
# Conn — one endpoint of a byte pipe

A `Conn` (conn.go) is its fields and the goroutines that share it: the application's reader and writer, the caller of
`Close`, `recvLoop`, `maintLoop` and the callers of `SetDeadline`.  Each is a program counter, and a critical section, a
channel operation, an `emit` or one round of the reader's loop is one step.  The handshake (dial.go) comes before them:
it writes the SYN and takes the peer's from the reader the `Conn` goes on with.  What a step asks of the segment files
is the `Call` it makes, with the answer it got.
-/
namespace Ccb
namespace Fstun

open Bytes (beBytes beNat slice)

/-! ## Parameters -/

/-- A sender's parameters, as `Config.resolve` lets them be. -/
structure Params where
  segmentSize : UInt64
  window      : UInt64
  maxFrame    : UInt32
  segment_pos : 0 < segmentSize.toNat
  window_pos  : 0 < window.toNat
  window_lt   : window.toNat < 9223372036854775808
  frame_pos   : 0 < maxFrame.toNat
  frame_le    : maxFrame.toNat ≤ maxPayload
  deriving DecidableEq

/-! The least segment and frame sizes there are. -/

theorem one_segment_pos : 0 < (1 : UInt64).toNat := by decide
theorem one_frame_pos : 0 < (1 : UInt32).toNat := by decide
theorem one_frame_le : (1 : UInt32).toNat ≤ maxPayload := by decide

structure SynParams where
  version     : UInt16
  segmentSize : UInt64
  window      : UInt64
  maxFrame    : UInt32
  deriving DecidableEq, Repr

def protocolVersion : UInt16 := 1

def SynParams.encode (p : SynParams) : List UInt8 :=
  beBytes 2 p.version.toNat ++ (beBytes 8 p.segmentSize.toNat ++ (beBytes 8 p.window.toNat ++
    beBytes 4 p.maxFrame.toNat))

def decodeSynParams (b : List UInt8) : Option SynParams :=
  if b.length ≠ 22 then none
  else some ⟨.ofNat (beNat (slice b 0 2)), .ofNat (beNat (slice b 2 8)), .ofNat (beNat (slice b 10 8)),
    .ofNat (beNat (slice b 18 4))⟩

/-- Frame 0 of a direction. -/
def Params.syn (p : Params) : Frame :=
  ⟨frameSYN, 0, 0, 0, SynParams.encode ⟨protocolVersion, p.segmentSize, p.window, p.maxFrame⟩⟩

/-! ## State -/

/-- `closed` is `net.ErrClosed`, `io` an error of the segment writer, `peer` an ERROR frame with its text, `reader` an
error of `segReader.next`, `idle` the maintenance loop's timeout. -/
inductive ConnErr where
  | closed
  | timeout
  | io
  | peer (msg : List UInt8)
  | reader (t : Turn)
  | idle
  deriving DecidableEq, Repr

/-- Where the handshake is; the goroutines run when it is `up`. -/
inductive Phase where
  | down
  | opened
  | syn
  | up
  | abortW
  | abortR
  | failed
  deriving DecidableEq, Repr

/-- `maybeAck` and the ACK of `maintLoop`: read `recvData`, compare, `emit`, record. -/
inductive AckPc where
  | load
  | due (rd : UInt64)
  | emit (rd : UInt64)
  | note (rd : UInt64)
  deriving DecidableEq, Repr

/-- `failRecv`. -/
inductive FailPc where
  | set (e : ConnErr)
  | sigData
  | sigFlow
  | dead
  deriving DecidableEq, Repr

/-- A `Read` into a buffer of `n` bytes; `ack data` holds the bytes it will return. -/
inductive ReadPc where
  | idle
  | check (n : Nat)
  | ack (data : List UInt8) (p : AckPc)
  | arm (n : Nat)
  | parked (n : Nat) (ddl : Option Nat)
  deriving DecidableEq, Repr

/-- A `Write`: the bytes it has sent and the rest of them. -/
inductive WritePc where
  | idle
  | window (sent rest : List UInt8)
  | errCheck (sent rest : List UInt8) (closed : Bool) (room : Int64)
  | emit (sent rest : List UInt8) (room : Int64)
  | arm (sent rest : List UInt8)
  | parked (sent rest : List UInt8) (ddl : Option Nat)
  deriving DecidableEq, Repr

inductive ClosePc where
  | idle
  | fin
  | setClosed
  | closeCh
  | waitRecv
  | closeW
  | closeR
  | markDead
  | done
  deriving DecidableEq, Repr

inductive RecvPc where
  | top
  | next
  | dispatch (f : Frame)
  | reap (ack : UInt64)
  | sigData
  | sigFlow
  | fail (p : FailPc)
  | poll
  | done
  deriving DecidableEq, Repr

inductive MaintPc where
  | wait
  | ack (p : AckPc)
  | beat
  | fail (p : FailPc)
  | done
  deriving DecidableEq, Repr

/-- What a `SetDeadline` call has left to do of its `wake`. -/
inductive SetPc where
  | sigData
  | sigFlow
  deriving DecidableEq, Repr

inductive ReadResult where
  | data (b : List UInt8)
  | eof
  | err (e : ConnErr)
  deriving DecidableEq, Repr

structure WriteResult where
  sent : List UInt8
  err  : Option ConnErr
  deriving DecidableEq, Repr

/-- The fields of a `Conn`, its goroutines, and its history: what its Reads and Writes returned, the DATA bytes counted
into `sentData`, and whether a `Write` ever ran while a `Close` did. -/
structure Conn where
  params      : Params
  idleTimeout : Nat
  phase       : Phase := .down
  sendSeq     : UInt64 := 1
  sentData    : UInt64 := 0
  peerAck     : UInt64 := 0
  lastAckSent : UInt64 := 0
  sendClosed  : Bool := false
  recvBuf     : List UInt8 := []
  recvData    : UInt64 := 0
  recvEOF     : Bool := false
  recvErr     : Option ConnErr := none
  dataSig     : Bool := false
  flowSig     : Bool := false
  rdDdl       : Option Nat := none
  wrDdl       : Option Nat := none
  lastRecv    : Nat := 0
  closed      : Bool := false
  recvDone    : Bool := false
  dead        : Bool := false
  rd          : ReadPc := .idle
  wr          : WritePc := .idle
  clo         : ClosePc := .idle
  rcv         : RecvPc := .top
  mnt         : MaintPc := .wait
  setters     : List SetPc := []
  reads       : List ReadResult := []
  writes      : List WriteResult := []
  sentTotal   : Nat := 0
  raced       : Bool := false
  deriving DecidableEq

/-! ## Steps -/

/-- A call of the segment writer or reader, and what it returned. -/
inductive Call where
  | openW (ok : Bool)
  | append (f : Frame) (dataEnd : UInt64) (ok : Bool)
  | reap (ack : UInt64)
  | closeW
  | next (t : Turn)
  | closeR
  deriving DecidableEq, Repr

/-- What a step makes of the endpoint, and the call it made. -/
abbrev Outcome := Option (Conn × Option Call)

section
variable (c : Conn)

/-- The state of the send side after a frame has been stamped. -/
def Conn.stamp (typ : FrameType) (payload : List UInt8) : Conn :=
  if typ = frameDATA then
    { c with sendSeq := c.sendSeq + 1, sentData := c.sentData + .ofNat payload.length,
             sentTotal := c.sentTotal + payload.length }
  else { c with sendSeq := c.sendSeq + 1 }

/-- `emit`, when `append` returns `ok`: the state, the call if it came to one, and whether there was no error. -/
def Conn.emit (typ : FrameType) (payload : List UInt8) (ok : Bool) : Conn × Option Call × Bool :=
  if c.sendClosed ∧ typ ≠ frameFIN ∧ typ ≠ frameError then (c, none, false)
  else
    (c.stamp typ payload,
      some (.append ⟨typ, 0, c.sendSeq, c.sentData, payload⟩ (c.stamp typ payload).sentData ok), ok)

/-- A step of `maybeAck` or of `maintLoop`'s ACK; `due` is the comparison each makes.  No counter: it is over. -/
def Conn.ackStep (due : UInt64 → Bool) (p : AckPc) (ok : Bool) : Conn × Option AckPc × Option Call :=
  match p with
  | .load    => (c, some (.due c.recvData), none)
  | .due rd  => (c, if due rd then some (.emit rd) else none, none)
  | .emit rd =>
    let (c', call, sent) := c.emit frameACK (encodeUint64 rd) ok
    (c', if sent then some (.note rd) else none, call)
  | .note rd => ({ c with lastAckSent := if c.lastAckSent < rd then rd else c.lastAckSent }, none, none)

def Conn.failStep (p : FailPc) : Conn × Option FailPc :=
  match p with
  | .set e   => ({ c with recvErr := some (c.recvErr.getD e) }, some .sigData)
  | .sigData => ({ c with dataSig := true }, some .sigFlow)
  | .sigFlow => ({ c with flowSig := true }, some .dead)
  | .dead    => ({ c with dead := true }, none)

/-! ### The handshake -/

def Conn.abort : Conn := { c with phase := .abortW }

/-- What `waitSYN` and the check after it make of a round of `next`. -/
def Conn.waitSYN (t : Turn) (now : Nat) : Conn :=
  match t with
  | .again | .incomplete | .notExist => c
  | .corrupt | .badRoll | .ioError => c.abort
  | .frame f =>
    if f.typ ≠ frameSYN then c.abort
    else
      match decodeSynParams f.payload with
      | none      => c.abort
      | some peer => if protocolVersion < peer.version then c.abort else { c with phase := .up, lastRecv := now }

/-- `giveUp` is the handshake deadline or a cancelled context. -/
inductive HandAct where
  | openW (ok : Bool)
  | syn (ok : Bool)
  | turn (t : Turn) (now : Nat)
  | giveUp
  | go
  deriving DecidableEq, Repr

def Conn.handStep (a : HandAct) : Outcome :=
  match c.phase, a with
  | .down, .openW ok   => some ({ c with phase := if ok then .opened else .failed }, some (.openW ok))
  | .opened, .syn ok   => some (if ok then { c with phase := .syn } else c.abort, some (.append c.params.syn 0 ok))
  | .syn, .turn t now  => some (c.waitSYN t now, some (.next t))
  | .syn, .giveUp      => some (c.abort, none)
  | .abortW, .go       => some ({ c with phase := .abortR }, some .closeW)
  | .abortR, .go       => some ({ c with phase := .failed }, some .closeR)
  | _, _               => none

/-! ### Read -/

def Conn.readReturn (r : ReadResult) : Conn := { c with rd := .idle, reads := c.reads ++ [r] }

/-- The critical section at the top of `Read`'s loop. -/
def Conn.readCheck (n : Nat) : Conn :=
  if c.recvBuf ≠ [] then
    { c with rd := .ack (c.recvBuf.take n) .load, recvBuf := c.recvBuf.drop n,
             recvData := c.recvData + .ofNat (c.recvBuf.take n).length }
  else
    match c.recvErr with
    | some e => c.readReturn (.err e)
    | none   => if c.recvEOF then c.readReturn .eof else { c with rd := .arm n }

/-- `go` is the step at the program counter, `ok` what an `append` in it returns; the others are the cases of the
`select`. -/
inductive ReadAct where
  | call (n : Nat)
  | go (ok : Bool)
  | wake
  | timeout (now : Nat)
  | closed
  deriving DecidableEq, Repr

/-- `maybeAck`'s comparison. -/
def Conn.ackDue (rd : UInt64) : Bool := decide (c.params.window / 4 ≤ rd - c.lastAckSent)

def Conn.readStep (a : ReadAct) : Outcome :=
  match c.rd, a with
  | .idle, .call n      => some ({ c with rd := .check n }, none)
  | .check n, .go _     => some (c.readCheck n, none)
  | .ack data p, .go ok =>
    match c.ackStep c.ackDue p ok with
    | (c, some p, call) => some ({ c with rd := .ack data p }, call)
    | (c, none, call)   => some (c.readReturn (.data data), call)
  | .arm n, .go _       => some ({ c with rd := .parked n c.rdDdl }, none)
  | .parked n _, .wake  => if c.dataSig then some ({ c with dataSig := false, rd := .check n }, none) else none
  | .parked _ (some d), .timeout now => if d ≤ now then some (c.readReturn (.err .timeout), none) else none
  | .parked _ _, .closed => if c.closed then some (c.readReturn (.err .closed), none) else none
  | _, _ => none

/-! ### Write -/

def Conn.writeReturn (sent : List UInt8) (err : Option ConnErr) : Conn :=
  { c with wr := .idle, writes := c.writes ++ [⟨sent, err⟩] }

/-- The room of `waitSendWindow`. -/
def Conn.room : Int64 := c.params.window.toInt64 - (c.sentData - c.peerAck).toInt64

/-- How many of `len` bytes the next DATA frame takes. -/
def chunkLen (len : Nat) (room : Int64) (maxFrame : UInt32) : Nat :=
  let n := if room.toInt < len then room.toInt.toNat else len
  if maxFrame.toNat < n then maxFrame.toNat else n

/-- The top of `Write`'s loop. -/
def Conn.writeLoop (sent rest : List UInt8) : Conn :=
  if rest = [] then c.writeReturn sent none else { c with wr := .window sent rest }

/-- What `waitSendWindow` does after its two critical sections. -/
def Conn.writeCheck (sent rest : List UInt8) (closed : Bool) (room : Int64) : Conn :=
  match c.recvErr with
  | some e => c.writeReturn sent (some e)
  | none   =>
    if closed then c.writeReturn sent (some .closed)
    else if 0 < room then { c with wr := .emit sent rest room }
    else { c with wr := .arm sent rest }

def Conn.writeEmit (sent rest : List UInt8) (room : Int64) (ok : Bool) : Conn × Option Call :=
  let n := chunkLen rest.length room c.params.maxFrame
  match c.emit frameDATA (rest.take n) ok with
  | (c', call, true)  => (c'.writeLoop (sent ++ rest.take n) (rest.drop n), call)
  | (c', call, false) => (c'.writeReturn sent (some (if c.sendClosed then .closed else .io)), call)

inductive WriteAct where
  | call (p : List UInt8)
  | go (ok : Bool)
  | wake
  | timeout (now : Nat)
  | closed
  deriving DecidableEq, Repr

/-- A `Close` has been called and has not returned. -/
def ClosePc.active : ClosePc → Bool
  | .idle | .done => false
  | _ => true

def Conn.writeStep (a : WriteAct) : Outcome :=
  match c.wr, a with
  | .idle, .call p => some ({ c with raced := c.raced || c.clo.active }.writeLoop [] p, none)
  | .window sent rest, .go _ => some ({ c with wr := .errCheck sent rest c.sendClosed c.room }, none)
  | .errCheck sent rest closed room, .go _ => some (c.writeCheck sent rest closed room, none)
  | .emit sent rest room, .go ok => some (c.writeEmit sent rest room ok)
  | .arm sent rest, .go _ => some ({ c with wr := .parked sent rest c.wrDdl }, none)
  | .parked sent rest _, .wake =>
    if c.flowSig then some ({ c with flowSig := false, wr := .window sent rest }, none) else none
  | .parked sent _ (some d), .timeout now => if d ≤ now then some (c.writeReturn sent (some .timeout), none) else none
  | .parked sent _ _, .closed => if c.closed then some (c.writeReturn sent (some .closed), none) else none
  | _, _ => none

/-! ### Close -/

inductive CloseAct where
  | call
  | go (ok : Bool)
  deriving DecidableEq, Repr

/-- The body of `closeOnce`; only the first call runs it. -/
def Conn.closeStep (a : CloseAct) : Outcome :=
  match c.clo, a with
  | .idle, .call        => some ({ c with clo := .fin, raced := c.raced || decide (c.wr ≠ .idle) }, none)
  | .fin, .go ok        =>
    match c.emit frameFIN [] ok with
    | (c, call, _) => some ({ c with clo := .setClosed }, call)
  | .setClosed, .go _   => some ({ c with sendClosed := true, clo := .closeCh }, none)
  | .closeCh, .go _     => some ({ c with closed := true, clo := .waitRecv }, none)
  | .waitRecv, .go _    => if c.recvDone then some ({ c with clo := .closeW }, none) else none
  | .closeW, .go _      => some ({ c with clo := .closeR }, some .closeW)
  | .closeR, .go _      => some ({ c with clo := .markDead }, some .closeR)
  | .markDead, .go _    => some ({ c with dead := true, clo := .done }, none)
  | _, _                => none

/-! ### recvLoop -/

def Conn.recvReturn : Conn := { c with rcv := .done, recvDone := true }

def Conn.dispatch (f : Frame) : Conn :=
  if f.typ = frameDATA then { c with recvBuf := c.recvBuf ++ f.payload, rcv := .sigData }
  else if f.typ = frameACK then
    match decodeUint64 f.payload with
    | none   => { c with rcv := .top }
    | some v =>
      let ack := if c.peerAck < v then v else c.peerAck
      { c with peerAck := ack, rcv := .reap ack }
  else if f.typ = frameFIN then { c with recvEOF := true, rcv := .sigData }
  else if f.typ = frameError then { c with rcv := .fail (.set (.peer f.payload)) }
  else { c with rcv := .top }

/-- What a round of `next` leads `recvLoop` to. -/
def Conn.received (t : Turn) (now : Nat) : Conn :=
  match t with
  | .again   => c
  | .frame f => { c with lastRecv := now, rcv := .dispatch f }
  | .incomplete | .notExist => { c with rcv := .poll }
  | .corrupt | .badRoll | .ioError => { c with rcv := .fail (.set (.reader t)) }

/-- `turn` is a round of `next`, `stop` the `closed` case of the poll's `select`. -/
inductive RecvAct where
  | go
  | turn (t : Turn) (now : Nat)
  | stop
  deriving DecidableEq, Repr

def Conn.recvStep (a : RecvAct) : Outcome :=
  match c.rcv, a with
  | .top, .go         => some (if c.closed then c.recvReturn else { c with rcv := .next }, none)
  | .next, .turn t now => some (c.received t now, some (.next t))
  | .dispatch f, .go  => some (c.dispatch f, none)
  | .sigData, .go     => some ({ c with dataSig := true, rcv := .top }, none)
  | .sigFlow, .go     => some ({ c with flowSig := true, rcv := .top }, none)
  | .fail p, .go      =>
    match c.failStep p with
    | (c, some p) => some ({ c with rcv := .fail p }, none)
    | (c, none)   => some (c.recvReturn, none)
  | .poll, .go        => some ({ c with rcv := .top }, none)
  | .poll, .stop      => if c.closed then some (c.recvReturn, none) else none
  | .reap ack, .go    => some ({ c with rcv := .sigFlow }, some (.reap ack))
  | _, _              => none

/-! ### maintLoop -/

inductive MaintAct where
  | tick (now : Nat)
  | stop
  | go (ok : Bool) (now : Nat)
  deriving DecidableEq, Repr

def Conn.maintStep (a : MaintAct) : Outcome :=
  match c.mnt, a with
  | .wait, .tick now =>
    some ({ c with mnt := if c.idleTimeout < now - c.lastRecv then .fail (.set .idle) else .ack .load }, none)
  | .wait, .stop     => if c.closed then some ({ c with mnt := .done }, none) else none
  | .ack p, .go ok _ =>
    match c.ackStep (fun rd => decide (c.lastAckSent < rd)) p ok with
    | (c, some p, call) => some ({ c with mnt := .ack p }, call)
    | (c, none, call)   => some ({ c with mnt := .beat }, call)
  | .beat, .go ok now =>
    match c.emit frameHeartbeat (encodeUint64 (.ofNat now)) ok with
    | (c, call, _) => some ({ c with mnt := .wait }, call)
  | .fail p, .go _ _ =>
    match c.failStep p with
    | (c, some p) => some ({ c with mnt := .fail p }, none)
    | (c, none)   => some ({ c with mnt := .done }, none)
  | _, _ => none

/-! ### SetDeadline -/

/-- `set` is the critical section of `SetDeadline` (both), `SetReadDeadline` or `SetWriteDeadline`; `sig k` the next
signal of the `k`-th call still in its `wake`. -/
inductive DeadlineAct where
  | set (read write : Bool) (t : Option Nat)
  | sig (k : Nat)
  deriving DecidableEq, Repr

def Conn.deadlineStep (a : DeadlineAct) : Outcome :=
  match a with
  | .set read write t =>
    some ({ c with rdDdl := if read then t else c.rdDdl, wrDdl := if write then t else c.wrDdl,
                   setters := c.setters ++ [.sigData] }, none)
  | .sig k =>
    match c.setters[k]? with
    | none          => none
    | some .sigData => some ({ c with dataSig := true, setters := c.setters.set k .sigFlow }, none)
    | some .sigFlow => some ({ c with flowSig := true, setters := c.setters.eraseIdx k }, none)

/-- Which goroutine moves. -/
inductive Act where
  | hand (a : HandAct)
  | read (a : ReadAct)
  | write (a : WriteAct)
  | close (a : CloseAct)
  | recv (a : RecvAct)
  | maint (a : MaintAct)
  | deadline (a : DeadlineAct)
  deriving DecidableEq, Repr

def Conn.step (a : Act) : Outcome :=
  match c.phase, a with
  | _, .hand a      => c.handStep a
  | .up, .read a    => c.readStep a
  | .up, .write a   => c.writeStep a
  | .up, .close a   => c.closeStep a
  | .up, .recv a    => c.recvStep a
  | .up, .maint a   => c.maintStep a
  | .up, .deadline a => c.deadlineStep a
  | _, _            => none

end

end Fstun
end Ccb
