import Ccb.Pipe
/-!
# Timed — a pipe and its clocks

`Config.resolve` (config.go) gives an endpoint its parameters and its intervals.  A timed pipe is the pipe of `Ccb.Pipe`
with a clock at each endpoint: when `recvLoop`, or the handshake before it, and `maintLoop` are next due, how long the
poll waits, and when the ticker fires.  A goroutine may take its next step once it is due and takes it within `slack` of
that; a frame may be seen once it is appended and is seen within `delay` of that.  Time passes as far as these bounds
let it, and what is read off the clock is the time of the step.  The process of an endpoint may also be gone at any
time.
-/
namespace Ccb
namespace Fstun

/-! ## Config -/

/-- Only the root is required.  A `time.Duration` is a number of nanoseconds. -/
structure Config where
  root              : String
  segmentSize       : Int64 := 0
  window            : Int64 := 0
  maxFrame          : Int64 := 0
  pollInterval      : Int64 := 0
  pollMax           : Int64 := 0
  flushInterval     : Int64 := 0
  networkFS         : Option Bool := none
  heartbeat         : Int64 := 0
  idleTimeout       : Int64 := 0
  handshakeTimeout  : Int64 := 0
  sync              : Bool := false
  ageSweepInterval  : Int64 := 0
  ageSweepThreshold : Int64 := 0
  deriving DecidableEq, Repr

/-- What the runtime consults.  `poll_le` and `heartbeat_pos` are what the poll's backoff and `time.NewTicker` ask
for. -/
structure ResolvedConfig where
  pollInterval      : Int64
  pollMax           : Int64
  flushInterval     : Int64
  netFS             : Bool
  heartbeat         : Int64
  idleTimeout       : Int64
  handshakeTimeout  : Int64
  segmentSize       : Int64
  sync              : Bool
  ageSweepInterval  : Int64
  ageSweepThreshold : Int64
  poll_le           : pollInterval ≤ pollMax
  heartbeat_pos     : 0 < heartbeat
  deriving DecidableEq

/-- `def` of `resolve`, and the defaults of the sizes. -/
def orDefault (d dflt : Int64) : Int64 := if d ≤ 0 then dflt else d

theorem orDefault_pos (d : Int64) {dflt : Int64} (h : 0 < dflt) : 0 < orDefault d dflt := by
  unfold orDefault
  split
  · exact h
  · rename_i hd
    exact Int64.not_le.1 hd

def capFrame (mf : Int64) : Int64 := if .ofNat maxPayload < mf then .ofNat maxPayload else mf

theorem capFrame_pos {mf : Int64} (h : 0 < mf) : 0 < capFrame mf := by
  unfold capFrame
  split
  · decide
  · exact h

theorem capFrame_le (mf : Int64) : (capFrame mf).toInt ≤ maxPayload := by
  unfold capFrame
  split
  · decide
  · rename_i h
    exact Int64.le_iff_toInt_le.1 (Int64.not_lt.1 h)

/-- `ageSweepInterval`: zero is the default, a negative one turns the sweep off. -/
def ageInterval (d : Int64) : Int64 := if d = 0 then 600000000000 else if d < 0 then 0 else d

/-- The last lines of `resolve`: the cap of the backoff is not under its base. -/
def raisePoll (pollInterval pollMax : Int64) : Int64 := if pollMax < pollInterval then pollInterval else pollMax

theorem le_raisePoll (a b : Int64) : a ≤ raisePoll a b := by
  unfold raisePoll
  split
  · exact Int64.le_refl a
  · rename_i h
    exact Int64.not_lt.1 h

/-! What a positive size is once it is unsigned. -/

theorem toNat_toUInt64 {d : Int64} (h : 0 < d) : (d.toUInt64.toNat : Int) = d.toInt := by
  have h1 := BitVec.toInt_eq_toNat_cond d.toBitVec
  have h2 : d.toBitVec.toInt = d.toInt := d.toInt_toBitVec
  have h3 : d.toUInt64.toNat = d.toBitVec.toNat := rfl
  have h4 : (0 : Int64).toInt < d.toInt := Int64.lt_iff_toInt_lt.1 h
  have h5 : (0 : Int64).toInt = 0 := rfl
  have h6 := d.toBitVec.isLt
  rw [h2] at h1
  rw [h3]
  split at h1 <;> omega

theorem toUInt64_pos {d : Int64} (h : 0 < d) : 0 < d.toUInt64.toNat := by
  have h1 := toNat_toUInt64 h
  have h2 : (0 : Int64).toInt < d.toInt := Int64.lt_iff_toInt_lt.1 h
  have h3 : (0 : Int64).toInt = 0 := rfl
  omega

theorem toUInt64_lt {d : Int64} (h : 0 < d) : d.toUInt64.toNat < 9223372036854775808 := by
  have h1 := toNat_toUInt64 h
  have h2 := d.toInt_lt
  omega

theorem maxFrame_toNat (mf : Int64) (h : 0 < mf) :
    ((capFrame mf).toUInt64.toUInt32).toNat = (capFrame mf).toUInt64.toNat := by
  have h1 := toNat_toUInt64 (capFrame_pos h)
  have h2 := capFrame_le mf
  rw [UInt64.toNat_toUInt32]
  refine Nat.mod_eq_of_lt ?_
  unfold maxPayload at h2
  omega

theorem maxFrame_pos (mf : Int64) (h : 0 < mf) : 0 < ((capFrame mf).toUInt64.toUInt32).toNat := by
  rw [maxFrame_toNat mf h]
  exact toUInt64_pos (capFrame_pos h)

theorem maxFrame_le (mf : Int64) (h : 0 < mf) : ((capFrame mf).toUInt64.toUInt32).toNat ≤ maxPayload := by
  have h1 := toNat_toUInt64 (capFrame_pos h)
  have h2 := capFrame_le mf
  rw [maxFrame_toNat mf h]
  omega

theorem segmentDefault_pos : (0 : Int64) < 134217728 := by decide
theorem windowDefault_pos : (0 : Int64) < 8388608 := by decide
theorem frameDefault_pos : (0 : Int64) < 262144 := by decide
theorem heartbeatDefault_pos : (0 : Int64) < 5000000000 := by decide

/-- The sender's parameters that `resolve` puts in the SYN. -/
def Config.params (cfg : Config) : Params where
  segmentSize := (orDefault cfg.segmentSize 134217728).toUInt64
  window      := (orDefault cfg.window 8388608).toUInt64
  maxFrame    := (capFrame (orDefault cfg.maxFrame 262144)).toUInt64.toUInt32
  segment_pos := toUInt64_pos (orDefault_pos _ segmentDefault_pos)
  window_pos  := toUInt64_pos (orDefault_pos _ windowDefault_pos)
  window_lt   := toUInt64_lt (orDefault_pos _ windowDefault_pos)
  frame_pos   := maxFrame_pos _ (orDefault_pos _ frameDefault_pos)
  frame_le    := maxFrame_le _ (orDefault_pos _ frameDefault_pos)

/-- The intervals, with their defaults; `detectNetworkFS` is what `statfs` says of a directory. -/
def Config.resolved (detectNetworkFS : String → Bool) (cfg : Config) : ResolvedConfig where
  pollInterval      := orDefault cfg.pollInterval 10000000
  pollMax           := raisePoll (orDefault cfg.pollInterval 10000000) (orDefault cfg.pollMax 320000000)
  flushInterval     := orDefault cfg.flushInterval 5000000
  netFS             := cfg.networkFS.getD (detectNetworkFS cfg.root)
  heartbeat         := orDefault cfg.heartbeat 5000000000
  idleTimeout       := orDefault cfg.idleTimeout 60000000000
  handshakeTimeout  := orDefault cfg.handshakeTimeout 30000000000
  segmentSize       := orDefault cfg.segmentSize 134217728
  sync              := cfg.sync
  ageSweepInterval  := ageInterval cfg.ageSweepInterval
  ageSweepThreshold := orDefault cfg.ageSweepThreshold 900000000000
  poll_le           := le_raisePoll _ _
  heartbeat_pos     := orDefault_pos _ heartbeatDefault_pos

def Config.resolve (detectNetworkFS : String → Bool) (cfg : Config) : Except String (ResolvedConfig × Params) :=
  if cfg.root = "" then .error "fstun: Config.Root is required"
  else .ok (cfg.resolved detectNetworkFS, cfg.params)

/-! ## Clocks -/

/-- A timer of a negative duration fires at once. -/
def ns (d : Int64) : Nat := d.toNatClampNeg

theorem ns_le {a b : Int64} (h : a ≤ b) : ns a ≤ ns b := by
  have h1 := Int64.le_iff_toInt_le.1 h
  have h2 := a.toNat_toInt
  have h3 := b.toNat_toInt
  unfold ns
  omega

/-- Where `recvLoop` stands with its `cur` after an empty check: twice the wait, up to `pollMax`. -/
def backOff (pollMax cur : Int64) : Int64 :=
  if cur < pollMax then (if pollMax < cur * 2 then pollMax else cur * 2) else cur

/-- Also where the doubling overflows. -/
theorem backOff_le {pollMax cur : Int64} (h : cur ≤ pollMax) : backOff pollMax cur ≤ pollMax := by
  unfold backOff
  split
  · split
    · exact Int64.le_refl _
    · rename_i hlt
      exact Int64.not_lt.1 hlt
  · exact h

/-- `rcvDue` is when the handshake or `recvLoop` takes its next step at the earliest, `mntDue` when `maintLoop` does,
`cur` the wait of the next poll, `tick` when the ticker fires next. -/
structure Clock where
  rcvDue : Nat
  cur    : Int64
  mntDue : Nat
  tick   : Nat
  deriving DecidableEq, Repr

/-- The ticks up to `now` but the one taken are dropped. -/
def nextTick (heartbeat tick now : Nat) : Nat := tick + heartbeat * (1 + (now - tick) / heartbeat)

theorem nextTick_le {heartbeat tick now : Nat} (h : tick ≤ now) : nextTick heartbeat tick now ≤ now + heartbeat := by
  have hdiv := Nat.mul_div_le (now - tick) heartbeat
  unfold nextTick
  rw [Nat.mul_add, Nat.mul_one]
  omega

/-- A round of `next` returns a frame if there is one to see, and finds the end of what there is otherwise; it may meet
an error of its file operations, and no damaged frame. -/
def Turn.fits (more : Bool) : Turn → Bool
  | .frame _ => more
  | .incomplete | .notExist => !more
  | .again | .ioError => true
  | .corrupt | .badRoll => false

/-- The goroutine that moves is due, and the clock it reads shows `now`. -/
def Clock.ready (k : Clock) (now : Nat) (more : Bool) : Act → Bool
  | .hand (.turn t n) | .recv (.turn t n) => decide (n = now) && decide (k.rcvDue ≤ now) && t.fits more
  | .recv .go => decide (k.rcvDue ≤ now)
  | .maint (.tick n) | .maint (.go _ n) => decide (n = now) && decide (k.mntDue ≤ now)
  | .read (.timeout n) | .write (.timeout n) => decide (n = now)
  | _ => true

/-- The clock of an endpoint that has just come up: `newConn` starts the loops, `maintLoop` its ticker. -/
def Clock.up (rc : ResolvedConfig) (now : Nat) : Clock :=
  ⟨now, rc.pollInterval, now + ns rc.heartbeat, now + ns rc.heartbeat⟩

/-- A round of `waitSYN`'s loop that found no SYN waits for `pollInterval`. -/
def Clock.handTurn (k : Clock) (rc : ResolvedConfig) (now : Nat) (c' : Conn) (t : Turn) : Clock :=
  if c'.phase = .up then .up rc now
  else match t with
    | .incomplete | .notExist => { k with rcvDue := now + ns rc.pollInterval }
    | _ => k

/-- `cur` goes back to its base with a frame; the poll waits for `cur` and then backs off. -/
def Clock.recvTurn (k : Clock) (rc : ResolvedConfig) (now : Nat) : Turn → Clock
  | .again => k
  | .frame _ => { k with rcvDue := now, cur := rc.pollInterval }
  | .incomplete | .notExist => { k with rcvDue := now + ns k.cur }
  | .corrupt | .badRoll | .ioError => { k with rcvDue := now }

/-- What a step of an endpoint that leaves it at `c'` makes of its clock. -/
def Clock.next (k : Clock) (rc : ResolvedConfig) (now : Nat) (c c' : Conn) : Act → Clock
  | .hand (.syn _)     => { k with rcvDue := now }
  | .hand (.turn t _)  => k.handTurn rc now c' t
  | .recv (.turn t _)  => k.recvTurn rc now t
  | .recv .go          => { k with rcvDue := now, cur := if c.rcv = .poll then backOff rc.pollMax k.cur else k.cur }
  | .maint (.tick _)   => { k with mntDue := now, tick := nextTick (ns rc.heartbeat) k.tick now }
  | .maint (.go _ _)   => { k with mntDue := if c'.mnt = .wait then max k.tick now else now }
  | _                  => k

/-! ## Timed pipes -/

/-- The endpoints' configurations, and the bounds the system keeps. -/
structure Timing where
  rc     : Role → ResolvedConfig
  params : Role → Params
  slack  : Nat
  delay  : Nat

/-- `stamps` is when each frame of a direction was appended, `shown` how many of them its reader can see. -/
structure Timed where
  pipe   : Pipe fifo
  now    : Nat
  clock  : Role → Clock
  stamps : Role → List Nat
  shown  : Role → Nat
  gone   : Role → Bool

inductive TimedAct where
  | act (r : Role) (a : Act)
  | reveal (r : Role) (n : Nat)
  | pass (d : Nat)
  | crash (r : Role)
  deriving DecidableEq, Repr

def Timed.start (T : Timing) : Timed :=
  ⟨.start T.params (fun r => ns (T.rc r).idleTimeout), 0, fun r => ⟨0, (T.rc r).pollInterval, 0, 0⟩, fun _ => [],
    fun _ => 0, fun _ => false⟩

/-- There is a frame to see in the direction that `r` writes. -/
def Timed.more (s : Timed) (r : Role) : Bool := decide ((s.pipe.dir r).pos < s.shown r)

/-- The goroutines that run are not kept waiting past `t`. -/
def Clock.waits (k : Clock) (slack t : Nat) (c : Conn) : Bool :=
  match c.phase with
  | .syn => decide (t ≤ k.rcvDue + slack)
  | .up  => (decide (c.rcv = .done) || decide (t ≤ k.rcvDue + slack)) &&
      (decide (c.mnt = .done) || decide (t ≤ k.mntDue + slack))
  | _    => true

/-- Neither is a frame; nothing is said of an endpoint that is gone. -/
def Timed.waits (T : Timing) (s : Timed) (t : Nat) (r : Role) : Bool :=
  s.gone r || ((s.clock r).waits T.slack t (s.pipe.conn r) &&
    ((s.stamps r).drop (s.shown r)).all (fun a => decide (t ≤ a + T.delay)))

/-- The time of a frame that has been appended. -/
def noted (now : Nat) (stamps : List Nat) (log : List Frame) : List Nat :=
  if stamps.length < log.length then stamps ++ [now] else stamps

def Timed.step (T : Timing) (s : Timed) : TimedAct → Option Timed
  | .act r a =>
    if s.gone r = false ∧ (s.clock r).ready s.now (s.more r.peer) a = true then
      (s.pipe.step ⟨r, a, ()⟩).map (fun p =>
        { s with pipe := p
                 clock := upd s.clock r ((s.clock r).next (T.rc r) s.now (s.pipe.conn r) (p.conn r) a)
                 stamps := upd s.stamps r (noted s.now (s.stamps r) (p.dir r).log) })
    else none
  | .reveal r n =>
    if s.shown r ≤ n ∧ n ≤ (s.pipe.dir r).log.length then some { s with shown := upd s.shown r n } else none
  | .pass d =>
    if s.waits T (s.now + d) .initiator && s.waits T (s.now + d) .acceptor then
      some { s with now := s.now + d }
    else none
  | .crash r => some { s with gone := upd s.gone r true }

end Fstun
end Ccb
