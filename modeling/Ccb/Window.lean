import Ccb.Flow
/-!
# Window — flow control over both endpoints

`window_kept` is about every run of two endpoints over an order-preserving transport, whose appends may fail.  The
counters `sentData` and `recvData` are `uint64`, so they are the totals of the bytes sent and read modulo `2 ^ 64`; the
inequalities are about the totals, and about the fields until a total reaches `2 ^ 64` (`counters_wrap` is the state in
which it does).
-/
namespace Ccb
namespace Fstun

/-- The DATA bytes dispatched at an endpoint: those its Reads have taken, and its buffer. -/
def Conn.dispatched (c : Conn) : Nat := c.taken.length + c.recvBuf.length

/-- The DATA bytes in the log that the receiver has not dispatched: the frame in hand, and those after it. -/
def inFlight (R : Conn) (D : Fifo) : List UInt8 := R.core.handData ++ dataOf (D.log.drop D.pos)

/-- **Flow control from `S` to `R`.** -/
structure Window (S R : Conn) (D : Fifo) : Prop where
  sentData    : S.sentData = .ofNat S.sentTotal
  recvData    : R.recvData = .ofNat R.taken.length
  acked       : S.peerAck.toNat ≤ R.taken.length
  taken       : R.taken.length ≤ R.dispatched
  sent        : R.dispatched ≤ S.sentTotal
  outstanding : (S.sentData - S.peerAck).toNat = S.sentTotal - S.peerAck.toNat
  within      : (S.sentData - S.peerAck).toNat ≤ S.params.window.toNat
  buffered    : R.recvBuf.length + (inFlight R D).length ≤ S.params.window.toNat
  chunk       : ∀ sent rest room, S.wr = .emit sent rest room →
    1 ≤ (rest.take (chunkLen rest.length room S.params.maxFrame)).length ∧
      (rest.take (chunkLen rest.length room S.params.maxFrame)).length ≤ S.params.maxFrame.toNat
  fields      : S.sentTotal < UInt64.size →
    S.peerAck ≤ R.recvData ∧ R.recvData.toNat ≤ R.dispatched ∧ R.dispatched ≤ S.sentData.toNat

/-- **What has been dispatched and what is in flight was sent.** -/
theorem PipeInv.dispatched_le {S R : Conn} {D E : Fifo} (h : PipeInv S.core R.core D E) :
    R.dispatched + (inFlight R D).length ≤ S.sentTotal := by
  have hlog : (dataOf D.log).length ≤ S.sentTotal := h.flow.log_le
  have hsplit : (dataOf D.log).length = (dataOf (D.log.take D.pos)).length + (dataOf (D.log.drop D.pos)).length := by
    rw [← List.length_append, ← dataOf_append, List.take_append_drop]
  unfold Conn.dispatched inFlight
  rw [List.length_append]
  by_cases hf : R.core.phase.failing = true
  · -- An endpoint that gave up its handshake has dispatched nothing.
    obtain ⟨ht, hb, hh⟩ := h.stream.before (fun hup => by rw [hup] at hf; cases hf)
    have ht' : R.taken = [] := ht
    have hb' : R.recvBuf = [] := hb
    have hh' : R.core.handData = [] := by
      unfold Core.handData
      rw [hh]
      rfl
    simp only [ht', hb', hh', List.length_nil]
    omega
  · have hgot : dataOf (D.log.take D.pos) = R.taken ++ (R.recvBuf ++ R.core.handData) :=
      h.stream.got (by simpa using hf)
    rw [hgot] at hsplit
    simp only [List.length_append] at hsplit
    omega

theorem PipeInv.window {S R : Conn} {D E : Fifo} (h : PipeInv S.core R.core D E) : Window S R D := by
  have hsent : S.sentData = .ofNat S.sentTotal := h.flow.sentData
  have hrecv : R.recvData = .ofNat R.taken.length := h.flow.recvData
  have hack : S.peerAck.toNat ≤ R.taken.length := h.flow.peerAck
  have hwin : S.sentTotal ≤ S.peerAck.toNat + S.params.window.toNat := h.flow.window
  have hdis := h.dispatched_le
  have hle : R.dispatched = R.taken.length + R.recvBuf.length := rfl
  have hlt := S.params.window_lt
  have hout : (S.sentData - S.peerAck).toNat = S.sentTotal - S.peerAck.toNat := by
    rw [hsent]
    exact toNat_ofNat_sub (by omega) (by unfold UInt64.size; omega)
  refine ⟨hsent, hrecv, hack, by omega, by omega, hout, by omega, by omega, fun sent rest room hwr => ?_,
    fun hsize => ?_⟩
  · obtain ⟨h1, h2, -⟩ := h.flow.chunk hwr
    exact ⟨h1, h2⟩
  · have h1 : S.sentData.toNat = S.sentTotal := by
      rw [hsent, UInt64.toNat_ofNat_of_lt' hsize]
    have h2 : R.recvData.toNat = R.taken.length := by
      rw [hrecv, UInt64.toNat_ofNat_of_lt' (by omega)]
    refine ⟨UInt64.le_iff_toNat_le.2 (by omega), by omega, by omega⟩

/-- **The window is kept**, for any parameters of the two sides. -/
theorem window_kept (p : Role → Params) (idle : Role → Nat) (ls : List (Label fifo)) (s : Pipe fifo)
    (hr : Machine.run Pipe.step (Pipe.start p idle) ls = some s) (r : Role) :
    Window (s.conn r) (s.conn r.peer) (s.dir r) :=
  (pipeInv_of_run hr r).window

/-! ## A total of `2 ^ 64`

With a window of one byte, a byte is written, read and acknowledged in each round. -/

def narrow : Params := ⟨1, 1, 1, one_segment_pos, one_segment_pos, by decide, one_frame_pos, one_frame_le⟩

/-- The writer between two rounds, `x` its counters. -/
def talker (x : UInt64) (total : Nat) (ws : List WriteResult) : Conn :=
  { params := narrow, idleTimeout := 0, phase := .up, sendSeq := x + 1, sentData := x, peerAck := x, flowSig := true,
    rcv := .next, writes := ws, sentTotal := total }

/-- The reader. -/
def hearer (x : UInt64) (rs : List ReadResult) : Conn :=
  { params := narrow, idleTimeout := 0, phase := .up, sendSeq := x + 1, lastAckSent := x, recvData := x,
    dataSig := true, rcv := .next, reads := rs }

def byteFrame (x : UInt64) : Frame := ⟨frameDATA, 0, x + 1, x, [7]⟩
def ackFrame (x : UInt64) : Frame := ⟨frameACK, 0, x + 1, 0, encodeUint64 (x + 1)⟩

section
variable (x : UInt64) (total : Nat) (ws : List WriteResult) (rs : List ReadResult)

theorem talker_room : (talker x total ws).room = 1 := by
  have h : (x - x).toInt64 = 0 := by simp
  show (1 : UInt64).toInt64 - (x - x).toInt64 = 1
  rw [h]
  rfl

theorem talker_write : (talker x total ws).runLocal [.write (.call [7]), .write (.go true), .write (.go true)] =
    some { talker x total ws with wr := .emit [] [7] 1 } := by
  have h : ({ talker x total ws with wr := .window [] [7] } : Conn).step (.write (.go true)) =
      some ({ talker x total ws with wr := .errCheck [] [7] false 1 }, none) := by
    rw [← talker_room x total ws]
    rfl
  show ({ talker x total ws with wr := .window [] [7] } : Conn).runLocal [.write (.go true), .write (.go true)] = _
  unfold Conn.runLocal
  rw [h]
  rfl

theorem talker_send : ({ talker x total ws with wr := .emit [] [7] 1 } : Conn).step (.write (.go true)) =
    some ({ talker x (total + 1) (ws ++ [⟨[7], none⟩]) with sendSeq := x + 1 + 1, sentData := x + 1 },
      some (.append (byteFrame x) (x + 1) true)) := rfl

theorem hearer_read :
    ({ hearer x rs with rcv := .dispatch (byteFrame x) } : Conn).runLocal [.recv .go, .recv .go, .recv .go,
    .read (.call 1), .read (.go true)] = some { hearer x rs with recvData := x + 1, rd := .ack [7] .load } := rfl

/-- An ACK is due after every byte. -/
theorem hearer_due : ({ hearer x rs with recvData := x + 1, rd := .ack [7] .load } : Conn).runLocal [.read (.go true),
    .read (.go true)] = some { hearer x rs with recvData := x + 1, rd := .ack [7] (.emit (x + 1)) } := by
  have hwin : narrow.window / 4 = 0 := by decide
  have hdue : ∀ c : Conn, c.params = narrow → c.ackDue (x + 1) = true := by
    intro c hc
    unfold Conn.ackDue
    rw [hc, hwin]
    exact decide_eq_true (UInt64.le_iff_toNat_le.2 (Nat.zero_le _))
  show ({ hearer x rs with recvData := x + 1, rd := .ack [7] (.due (x + 1)) } : Conn).runLocal [.read (.go true)] = _
  simp only [Conn.runLocal, Conn.step, Conn.readStep, Conn.ackStep, hearer, hdue, if_true]

theorem hearer_ack :
    ({ hearer x rs with recvData := x + 1, rd := .ack [7] (.emit (x + 1)) } : Conn).step (.read (.go true)) =
    some ({ hearer x rs with sendSeq := x + 1 + 1, recvData := x + 1, rd := .ack [7] (.note (x + 1)) },
      some (.append (ackFrame x) 0 true)) := rfl

variable {x}

theorem hearer_note (hx : x < x + 1) :
    ({ hearer x rs with sendSeq := x + 1 + 1, recvData := x + 1, rd := .ack [7] (.note (x + 1)) } : Conn).runLocal
      [.read (.go true)] = some (hearer (x + 1) (rs ++ [.data [7]])) := by
  have hlast : (if x < x + 1 then x + 1 else x) = x + 1 := if_pos hx
  show some (Conn.readReturn { hearer x rs with
    sendSeq := x + 1 + 1, recvData := x + 1, lastAckSent := if x < x + 1 then x + 1 else x,
    rd := .ack [7] (.note (x + 1)) } (.data [7])) = _
  rw [hlast]
  rfl

theorem talker_acked (hx : x < x + 1) :
    ({ talker x total ws with
      sendSeq := x + 1 + 1, sentData := x + 1, rcv := .dispatch (ackFrame x) } : Conn).runLocal [.recv .go] =
      some { talker x total ws with
        sendSeq := x + 1 + 1, sentData := x + 1, peerAck := x + 1, rcv := .reap (x + 1) } := by
  have hv : decodeUint64 (ackFrame x).payload = some (x + 1) := decodeUint64_encode (x + 1)
  have hdis : ∀ c : Conn, c.peerAck = x →
      c.dispatch (ackFrame x) = { c with peerAck := x + 1, rcv := .reap (x + 1) } := by
    intro c hc
    unfold Conn.dispatch
    rw [show (ackFrame x).typ = frameACK from rfl, if_neg (by decide), if_pos rfl, hv]
    simp only [hc, if_pos hx]
  simp only [Conn.runLocal, Conn.step, Conn.recvStep, talker]
  rw [hdis _ rfl]

theorem talker_reap : ({ talker x total ws with
      sendSeq := x + 1 + 1, sentData := x + 1, peerAck := x + 1, rcv := .reap (x + 1) } : Conn).step (.recv .go) =
    some ({ talker x total ws with sendSeq := x + 1 + 1, sentData := x + 1, peerAck := x + 1, rcv := .sigFlow },
      some (.reap (x + 1))) := rfl

theorem talker_back : ({ talker x total ws with
      sendSeq := x + 1 + 1, sentData := x + 1, peerAck := x + 1, rcv := .sigFlow } : Conn).runLocal
        [.recv .go, .recv .go] =
    some (talker (x + 1) total ws) := rfl

end

/-- A value for each role. -/
def both {α : Type} (a b : α) : Role → α
  | .initiator => a
  | .acceptor  => b

theorem upd_both_initiator {α : Type} (a b x : α) : upd (both a b) .initiator x = both x b := by
  funext r
  cases r <;> rfl

theorem upd_both_acceptor {α : Type} (a b x : α) : upd (both a b) .acceptor x = both a x := by
  funext r
  cases r <;> rfl

/-- Any run leads from one state to another. -/
abbrev Leads (s t : Pipe fifo) : Prop := Machine.Reaches Pipe.step (fun _ => True) s t

section
variable {c c' k : Conn} {D E D' E' : Fifo} {as : List Act} {a : Act} {y : Call}

theorem leads_initiator (h : c.runLocal as = some c') : Leads ⟨both c k, both D E⟩ ⟨both c' k, both D E⟩ := by
  have := @Pipe.reaches_local fifo .initiator (fun _ => True) () (fun _ => trivial) as ⟨both c k, both D E⟩ c c' rfl h
  rw [upd_both_initiator] at this
  exact this

theorem leads_acceptor (h : c.runLocal as = some c') : Leads ⟨both k c, both D E⟩ ⟨both k c', both D E⟩ := by
  have := @Pipe.reaches_local fifo .acceptor (fun _ => True) () (fun _ => trivial) as ⟨both k c, both D E⟩ c c' rfl h
  rw [upd_both_acceptor] at this
  exact this

theorem leads_of_step {s t : Pipe fifo} {l : Label fifo} (h : s.step l = some t) : Leads s t :=
  .step (.refl _ _ _) trivial h

theorem leads_call {s : Pipe fifo} {r : Role} (hc : (s.conn r).step a = some (c', some y))
    (hd : (s.dir (y.dirOf r)).perform y = some D') : Leads s ⟨upd s.conn r c', upd s.dir (y.dirOf r) D'⟩ :=
  leads_of_step (l := ⟨r, a, ()⟩) (Pipe.step_call hc hd)

end

/-- The frame after those that have been read. -/
theorem perform_next (l : List Frame) (f : Frame) :
    Fifo.perform ⟨l ++ [f], l.length⟩ (.next (.frame f)) = some ⟨l ++ [f], (l ++ [f]).length⟩ := by
  simp [Fifo.perform]

/-- The pipe between two rounds: everything sent has been read. -/
def idlePipe (x : UInt64) (total : Nat) (ws : List WriteResult) (rs : List ReadResult) (l m : List Frame) : Pipe fifo :=
  ⟨both (talker x total ws) (hearer x rs), both ⟨l, l.length⟩ ⟨m, m.length⟩⟩

section
variable {x : UInt64} {total : Nat} {ws : List WriteResult} {rs : List ReadResult} {l m : List Frame}

/-- A byte is written and taken by a `Read` that has not acknowledged it. -/
theorem idlePipe_taken : Leads (idlePipe x total ws rs l m)
    ⟨both { talker x (total + 1) (ws ++ [⟨[7], none⟩]) with sendSeq := x + 1 + 1, sentData := x + 1 }
      { hearer x rs with recvData := x + 1, rd := .ack [7] .load },
      both ⟨l ++ [byteFrame x], (l ++ [byteFrame x]).length⟩ ⟨m, m.length⟩⟩ := by
  have hsend := leads_call (r := .initiator) (s := ⟨both { talker x total ws with wr := .emit [] [7] 1 } (hearer x rs),
    both ⟨l, l.length⟩ ⟨m, m.length⟩⟩) (talker_send x total ws) rfl
  have hturn := leads_call (r := .acceptor) (a := .recv (.turn (.frame (byteFrame x)) 0))
    (s := ⟨both { talker x (total + 1) (ws ++ [⟨[7], none⟩]) with sendSeq := x + 1 + 1, sentData := x + 1 }
      (hearer x rs), both ⟨l ++ [byteFrame x], l.length⟩ ⟨m, m.length⟩⟩) rfl (perform_next l (byteFrame x))
  rw [upd_both_initiator] at hsend
  rw [upd_both_acceptor] at hturn
  change Leads _ ⟨_, upd (both _ _) .initiator _⟩ at hsend hturn
  rw [upd_both_initiator] at hsend hturn
  exact ((leads_initiator (talker_write x total ws)).trans hsend).trans
    (hturn.trans (leads_acceptor (hearer_read x rs)))

/-- The acknowledgement of it, and the round is over. -/
theorem idlePipe_acked (hx : x < x + 1) : Leads
    ⟨both { talker x total ws with sendSeq := x + 1 + 1, sentData := x + 1 }
      { hearer x rs with recvData := x + 1, rd := .ack [7] .load }, both ⟨l, l.length⟩ ⟨m, m.length⟩⟩
    (idlePipe (x + 1) total ws (rs ++ [.data [7]]) l (m ++ [ackFrame x])) := by
  have hack := leads_call (r := .acceptor)
    (s := ⟨both { talker x total ws with sendSeq := x + 1 + 1, sentData := x + 1 }
      { hearer x rs with recvData := x + 1, rd := .ack [7] (.emit (x + 1)) }, both ⟨l, l.length⟩ ⟨m, m.length⟩⟩)
    (hearer_ack x rs) rfl
  have hturn := leads_call (r := .initiator) (a := .recv (.turn (.frame (ackFrame x)) 0))
    (s := ⟨both { talker x total ws with sendSeq := x + 1 + 1, sentData := x + 1 } (hearer (x + 1) (rs ++ [.data [7]])),
      both ⟨l, l.length⟩ ⟨m ++ [ackFrame x], m.length⟩⟩) rfl (perform_next m (ackFrame x))
  have hreap := leads_call (r := .initiator)
    (s := ⟨both { talker x total ws with
        sendSeq := x + 1 + 1, sentData := x + 1, peerAck := x + 1, rcv := .reap (x + 1) }
      (hearer (x + 1) (rs ++ [.data [7]])), both ⟨l, l.length⟩ ⟨m ++ [ackFrame x], (m ++ [ackFrame x]).length⟩⟩)
    (talker_reap total ws) rfl
  rw [upd_both_acceptor] at hack
  rw [upd_both_initiator] at hturn hreap
  change Leads _ ⟨_, upd (both _ _) .acceptor _⟩ at hack hturn
  change Leads _ ⟨_, upd (both _ _) .initiator _⟩ at hreap
  rw [upd_both_acceptor] at hack hturn
  rw [upd_both_initiator] at hreap
  have hsent := ((leads_acceptor (hearer_due x rs)).trans hack).trans (leads_acceptor (hearer_note rs hx))
  have hgot := (hturn.trans (leads_initiator (talker_acked total ws hx))).trans hreap
  exact hsent.trans (hgot.trans (leads_initiator (talker_back total ws)))

/-- **A round.** -/
theorem idlePipe_round (hx : x < x + 1) : Leads (idlePipe x total ws rs l m)
    (idlePipe (x + 1) (total + 1) (ws ++ [⟨[7], none⟩]) (rs ++ [.data [7]]) (l ++ [byteFrame x]) (m ++ [ackFrame x])) :=
  idlePipe_taken.trans (idlePipe_acked hx)

/-- **Rounds take the counters to any value.** -/
theorem idlePipe_rounds {n : Nat} (h : x = .ofNat n) : ∀ k, n + k < UInt64.size →
    ∃ ws' rs' l' m', Leads (idlePipe x total ws rs l m) (idlePipe (.ofNat (n + k)) (total + k) ws' rs' l' m')
  | 0, _ => ⟨ws, rs, l, m, by rw [h]; exact .refl _ _ _⟩
  | k + 1, hk => by
    obtain ⟨ws', rs', l', m', hl⟩ := idlePipe_rounds h k (by omega)
    have hsucc : UInt64.ofNat (n + k) + 1 = .ofNat (n + (k + 1)) := by
      rw [← Nat.add_assoc, UInt64.ofNat_add (n + k) 1]
      rfl
    have hx : UInt64.ofNat (n + k) < .ofNat (n + k) + 1 := by
      rw [hsucc, UInt64.lt_iff_toNat_lt, UInt64.toNat_ofNat_of_lt' (by omega), UInt64.toNat_ofNat_of_lt' hk]
      omega
    have hr : Leads (idlePipe (.ofNat (n + k)) (total + k) ws' rs' l' m') _ := idlePipe_round hx
    rw [hsucc] at hr
    exact ⟨_, _, _, _, hl.trans hr⟩

end

/-- Both handshakes and the first round. -/
def firstRound : List (Label fifo) :=
  [⟨.initiator, .hand (.openW true), ()⟩, ⟨.initiator, .hand (.syn true), ()⟩, ⟨.acceptor, .hand (.openW true), ()⟩,
   ⟨.acceptor, .hand (.syn true), ()⟩, ⟨.acceptor, .hand (.turn (.frame narrow.syn) 0), ()⟩,
   ⟨.initiator, .hand (.turn (.frame narrow.syn) 0), ()⟩, ⟨.initiator, .recv .go, ()⟩, ⟨.acceptor, .recv .go, ()⟩,
   ⟨.initiator, .write (.call [7]), ()⟩, ⟨.initiator, .write (.go true), ()⟩, ⟨.initiator, .write (.go true), ()⟩,
   ⟨.initiator, .write (.go true), ()⟩, ⟨.acceptor, .recv (.turn (.frame (byteFrame 0)) 0), ()⟩,
     ⟨.acceptor, .recv .go, ()⟩,
   ⟨.acceptor, .recv .go, ()⟩, ⟨.acceptor, .recv .go, ()⟩, ⟨.acceptor, .read (.call 1), ()⟩,
   ⟨.acceptor, .read (.go true), ()⟩, ⟨.acceptor, .read (.go true), ()⟩, ⟨.acceptor, .read (.go true), ()⟩,
   ⟨.acceptor, .read (.go true), ()⟩, ⟨.acceptor, .read (.go true), ()⟩,
   ⟨.initiator, .recv (.turn (.frame (ackFrame 0)) 0), ()⟩, ⟨.initiator, .recv .go, ()⟩, ⟨.initiator, .recv .go, ()⟩,
   ⟨.initiator, .recv .go, ()⟩, ⟨.initiator, .recv .go, ()⟩]

theorem firstRound_state : (Machine.run Pipe.step (Pipe.start (fun _ => narrow) (fun _ => 0)) firstRound).map
    (fun s => (s.conn .initiator, s.conn .acceptor, s.dir .initiator, s.dir .acceptor)) =
      some (talker 1 1 [⟨[7], none⟩], hearer 1 [.data [7]], ⟨[narrow.syn, byteFrame 0], 2⟩,
        ⟨[narrow.syn, ackFrame 0], 2⟩) := by
  decide +kernel

theorem window_kept_firstRound :
    (Machine.run Pipe.step (Pipe.start (fun _ => narrow) (fun _ => 0)) firstRound).isSome = true ∧
      ∀ s, Machine.run Pipe.step (Pipe.start (fun _ => narrow) (fun _ => 0)) firstRound = some s →
        Window (s.conn .initiator) (s.conn .acceptor) (s.dir .initiator) :=
  ⟨by decide +kernel, fun s hs => window_kept (fun _ => narrow) (fun _ => 0) firstRound s hs .initiator⟩

/-- **A `Read` of the `2 ^ 64`-th byte takes `recvData` back to 0, below what was acknowledged.** -/
theorem counters_wrap : ∃ (ls : List (Label fifo)) (s : Pipe fifo),
    Machine.run Pipe.step (Pipe.start (fun _ => narrow) (fun _ => 0)) ls = some s ∧
      ¬ (s.conn .initiator).peerAck ≤ (s.conn .acceptor).recvData := by
  obtain ⟨s, hs⟩ : ∃ s, Machine.run Pipe.step (Pipe.start (fun _ => narrow) (fun _ => 0)) firstRound = some s :=
    Option.isSome_iff_exists.1 (by decide +kernel)
  have hstate := firstRound_state
  rw [hs] at hstate
  simp only [Option.map_some, Option.some.injEq, Prod.mk.injEq] at hstate
  obtain ⟨hi, ha, hd, he⟩ := hstate
  have hidle : s = idlePipe 1 1 [⟨[7], none⟩] [.data [7]] [narrow.syn, byteFrame 0] [narrow.syn, ackFrame 0] := by
    obtain ⟨conn, dir⟩ := s
    have hconn : conn = both (talker 1 1 [⟨[7], none⟩]) (hearer 1 [.data [7]]) := funext fun r => by
      cases r
      · exact hi
      · exact ha
    have hdir : dir = both ⟨[narrow.syn, byteFrame 0], 2⟩ ⟨[narrow.syn, ackFrame 0], 2⟩ := funext fun r => by
      cases r
      · exact hd
      · exact he
    rw [hconn, hdir]
    rfl
  rw [hidle] at hs
  obtain ⟨ws, rs, l, m, hl⟩ := idlePipe_rounds (n := 1) rfl 18446744073709551614 (by decide)
  obtain ⟨ls, -, hrun⟩ := (Machine.Reaches.trans ⟨firstRound, fun _ _ => trivial, hs⟩ hl).trans idlePipe_taken
  refine ⟨ls, _, hrun, ?_⟩
  show ¬ UInt64.ofNat 18446744073709551615 ≤ UInt64.ofNat 18446744073709551615 + 1
  decide

end Fstun
end Ccb
