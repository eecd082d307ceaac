import Ccb.Conn
/-!
# ConnSteps — the steps of an endpoint, one by one

`Conn.step` and the functions of the goroutines are partial in the program counters.  Each is inverted here once: a step
that is taken is one of a few, with the counter it was taken at.
-/
namespace Ccb
namespace Fstun

/-- Whose step it is; before the handshake is done it is the handshake's. -/
inductive Conn.Stepped (c : Conn) : Act → Conn → Option Call → Prop
  | hand {a : HandAct} {c' : Conn} {call : Option Call} : c.handStep a = some (c', call) → Stepped c (.hand a) c' call
  | read {a : ReadAct} {c' : Conn} {call : Option Call} : c.phase = .up → c.readStep a = some (c', call) →
      Stepped c (.read a) c' call
  | write {a : WriteAct} {c' : Conn} {call : Option Call} : c.phase = .up → c.writeStep a = some (c', call) →
      Stepped c (.write a) c' call
  | close {a : CloseAct} {c' : Conn} {call : Option Call} : c.phase = .up → c.closeStep a = some (c', call) →
      Stepped c (.close a) c' call
  | recv {a : RecvAct} {c' : Conn} {call : Option Call} : c.phase = .up → c.recvStep a = some (c', call) →
      Stepped c (.recv a) c' call
  | maint {a : MaintAct} {c' : Conn} {call : Option Call} : c.phase = .up → c.maintStep a = some (c', call) →
      Stepped c (.maint a) c' call
  | deadline {a : DeadlineAct} {c' : Conn} {call : Option Call} : c.phase = .up → c.deadlineStep a = some (c', call) →
      Stepped c (.deadline a) c' call

/-- The handshake. -/
inductive Conn.HandStep (c : Conn) : HandAct → Conn → Option Call → Prop
  | openW (ok : Bool) : c.phase = .down →
      HandStep c (.openW ok) { c with phase := if ok then .opened else .failed } (some (.openW ok))
  | syn (ok : Bool) : c.phase = .opened →
      HandStep c (.syn ok) (if ok then { c with phase := .syn } else c.abort) (some (.append c.params.syn 0 ok))
  | turn (t : Turn) (now : Nat) : c.phase = .syn → HandStep c (.turn t now) (c.waitSYN t now) (some (.next t))
  | giveUp : c.phase = .syn → HandStep c .giveUp c.abort none
  | closeW : c.phase = .abortW → HandStep c .go { c with phase := .abortR } (some .closeW)
  | closeR : c.phase = .abortR → HandStep c .go { c with phase := .failed } (some .closeR)

/-- `Close`. -/
inductive Conn.CloseStep (c : Conn) : CloseAct → Conn → Option Call → Prop
  | call : c.clo = .idle → CloseStep c .call { c with clo := .fin, raced := c.raced || decide (c.wr ≠ .idle) } none
  | fin (ok : Bool) : c.clo = .fin →
      CloseStep c (.go ok) { (c.emit frameFIN [] ok).1 with clo := .setClosed } (c.emit frameFIN [] ok).2.1
  | setClosed (ok : Bool) :
      c.clo = .setClosed → CloseStep c (.go ok) { c with sendClosed := true, clo := .closeCh } none
  | closeCh (ok : Bool) : c.clo = .closeCh → CloseStep c (.go ok) { c with closed := true, clo := .waitRecv } none
  | waitRecv (ok : Bool) : c.clo = .waitRecv → c.recvDone = true → CloseStep c (.go ok) { c with clo := .closeW } none
  | closeW (ok : Bool) : c.clo = .closeW → CloseStep c (.go ok) { c with clo := .closeR } (some .closeW)
  | closeR (ok : Bool) : c.clo = .closeR → CloseStep c (.go ok) { c with clo := .markDead } (some .closeR)
  | markDead (ok : Bool) : c.clo = .markDead → CloseStep c (.go ok) { c with dead := true, clo := .done } none

/-- `recvLoop`. -/
inductive Conn.RecvStep (c : Conn) : RecvAct → Conn → Option Call → Prop
  | stop : c.rcv = .top → c.closed = true → RecvStep c .go c.recvReturn none
  | top : c.rcv = .top → c.closed = false → RecvStep c .go { c with rcv := .next } none
  | next (t : Turn) (now : Nat) : c.rcv = .next → RecvStep c (.turn t now) (c.received t now) (some (.next t))
  | dispatch (f : Frame) : c.rcv = .dispatch f → RecvStep c .go (c.dispatch f) none
  | sigData : c.rcv = .sigData → RecvStep c .go { c with dataSig := true, rcv := .top } none
  | sigFlow : c.rcv = .sigFlow → RecvStep c .go { c with flowSig := true, rcv := .top } none
  | fail (p : FailPc) {p' : FailPc} {c₁ : Conn} : c.rcv = .fail p → c.failStep p = (c₁, some p') →
      RecvStep c .go { c₁ with rcv := .fail p' } none
  | failed (p : FailPc) {c₁ : Conn} : c.rcv = .fail p → c.failStep p = (c₁, none) → RecvStep c .go c₁.recvReturn none
  | poll : c.rcv = .poll → RecvStep c .go { c with rcv := .top } none
  | polled : c.rcv = .poll → c.closed = true → RecvStep c .stop c.recvReturn none
  | reap (ack : UInt64) : c.rcv = .reap ack → RecvStep c .go { c with rcv := .sigFlow } (some (.reap ack))

/-- `maintLoop`. -/
inductive Conn.MaintStep (c : Conn) : MaintAct → Conn → Option Call → Prop
  | tick (now : Nat) : c.mnt = .wait → MaintStep c (.tick now)
      { c with mnt := if c.idleTimeout < now - c.lastRecv then .fail (.set .idle) else .ack .load } none
  | stop : c.mnt = .wait → c.closed = true → MaintStep c .stop { c with mnt := .done } none
  | ack (p : AckPc) (ok : Bool) (now : Nat) {c₁ : Conn} {p' : AckPc} {call : Option Call} : c.mnt = .ack p →
      c.ackStep (fun rd => decide (c.lastAckSent < rd)) p ok = (c₁, some p', call) →
      MaintStep c (.go ok now) { c₁ with mnt := .ack p' } call
  | acked (p : AckPc) (ok : Bool) (now : Nat) {c₁ : Conn} {call : Option Call} : c.mnt = .ack p →
      c.ackStep (fun rd => decide (c.lastAckSent < rd)) p ok = (c₁, none, call) →
      MaintStep c (.go ok now) { c₁ with mnt := .beat } call
  | beat (ok : Bool) (now : Nat) : c.mnt = .beat → MaintStep c (.go ok now)
      { (c.emit frameHeartbeat (encodeUint64 (.ofNat now)) ok).1 with mnt := .wait }
      (c.emit frameHeartbeat (encodeUint64 (.ofNat now)) ok).2.1
  | fail (p : FailPc) (ok : Bool) (now : Nat) {p' : FailPc} {c₁ : Conn} : c.mnt = .fail p →
      c.failStep p = (c₁, some p') → MaintStep c (.go ok now) { c₁ with mnt := .fail p' } none
  | failed (p : FailPc) (ok : Bool) (now : Nat) {c₁ : Conn} : c.mnt = .fail p → c.failStep p = (c₁, none) →
      MaintStep c (.go ok now) { c₁ with mnt := .done } none

/-- `Read`. -/
inductive Conn.ReadStep (c : Conn) : ReadAct → Conn → Option Call → Prop
  | call (n : Nat) : c.rd = .idle → ReadStep c (.call n) { c with rd := .check n } none
  | check (n : Nat) (ok : Bool) : c.rd = .check n → ReadStep c (.go ok) (c.readCheck n) none
  | ack (data : List UInt8) (p : AckPc) (ok : Bool) {c₁ : Conn} {p' : AckPc} {call : Option Call} : c.rd = .ack data p →
      c.ackStep c.ackDue p ok = (c₁, some p', call) → ReadStep c (.go ok) { c₁ with rd := .ack data p' } call
  | acked (data : List UInt8) (p : AckPc) (ok : Bool) {c₁ : Conn} {call : Option Call} : c.rd = .ack data p →
      c.ackStep c.ackDue p ok = (c₁, none, call) → ReadStep c (.go ok) (c₁.readReturn (.data data)) call
  | arm (n : Nat) (ok : Bool) : c.rd = .arm n → ReadStep c (.go ok) { c with rd := .parked n c.rdDdl } none
  | wake (n : Nat) (d : Option Nat) : c.rd = .parked n d → c.dataSig = true →
      ReadStep c .wake { c with dataSig := false, rd := .check n } none
  | timeout (n d now : Nat) : c.rd = .parked n (some d) → d ≤ now →
      ReadStep c (.timeout now) (c.readReturn (.err .timeout)) none
  | closed (n : Nat) (d : Option Nat) : c.rd = .parked n d → c.closed = true →
      ReadStep c .closed (c.readReturn (.err .closed)) none

/-- `Write`. -/
inductive Conn.WriteStep (c : Conn) : WriteAct → Conn → Option Call → Prop
  | call (p : List UInt8) : c.wr = .idle →
      WriteStep c (.call p) ({ c with raced := c.raced || c.clo.active }.writeLoop [] p) none
  | window (sent rest : List UInt8) (ok : Bool) : c.wr = .window sent rest →
      WriteStep c (.go ok) { c with wr := .errCheck sent rest c.sendClosed c.room } none
  | errCheck (sent rest : List UInt8) (closed : Bool) (room : Int64) (ok : Bool) :
      c.wr = .errCheck sent rest closed room → WriteStep c (.go ok) (c.writeCheck sent rest closed room) none
  | emit (sent rest : List UInt8) (room : Int64) (ok : Bool) {c₁ : Conn} {call : Option Call} :
      c.wr = .emit sent rest room → c.writeEmit sent rest room ok = (c₁, call) → WriteStep c (.go ok) c₁ call
  | arm (sent rest : List UInt8) (ok : Bool) : c.wr = .arm sent rest →
      WriteStep c (.go ok) { c with wr := .parked sent rest c.wrDdl } none
  | wake (sent rest : List UInt8) (d : Option Nat) : c.wr = .parked sent rest d → c.flowSig = true →
      WriteStep c .wake { c with flowSig := false, wr := .window sent rest } none
  | timeout (sent rest : List UInt8) (d now : Nat) : c.wr = .parked sent rest (some d) → d ≤ now →
      WriteStep c (.timeout now) (c.writeReturn sent (some .timeout)) none
  | closed (sent rest : List UInt8) (d : Option Nat) : c.wr = .parked sent rest d → c.closed = true →
      WriteStep c .closed (c.writeReturn sent (some .closed)) none

section
variable {c c' : Conn} {call : Option Call}

theorem Conn.step_some {a : Act} (h : c.step a = some (c', call)) : c.Stepped a c' call := by
  unfold Conn.step at h
  split at h
  · exact .hand h
  · exact .read (by assumption) h
  · exact .write (by assumption) h
  · exact .close (by assumption) h
  · exact .recv (by assumption) h
  · exact .maint (by assumption) h
  · exact .deadline (by assumption) h
  · cases h

theorem Conn.handStep_some {a : HandAct} (h : c.handStep a = some (c', call)) : c.HandStep a c' call := by
  unfold Conn.handStep at h
  split at h <;> cases h
  · exact .openW _ (by assumption)
  · exact .syn _ (by assumption)
  · exact .turn _ _ (by assumption)
  · exact .giveUp (by assumption)
  · exact .closeW (by assumption)
  · exact .closeR (by assumption)

theorem Conn.closeStep_some {a : CloseAct} (h : c.closeStep a = some (c', call)) : c.CloseStep a c' call := by
  unfold Conn.closeStep at h
  split at h
  · cases h; exact .call (by assumption)
  · cases h; exact .fin _ (by assumption)
  · cases h; exact .setClosed _ (by assumption)
  · cases h; exact .closeCh _ (by assumption)
  · split at h <;> cases h
    exact .waitRecv _ (by assumption) (by assumption)
  · cases h; exact .closeW _ (by assumption)
  · cases h; exact .closeR _ (by assumption)
  · cases h; exact .markDead _ (by assumption)
  · cases h

theorem Conn.recvStep_some {a : RecvAct} (h : c.recvStep a = some (c', call)) : c.RecvStep a c' call := by
  unfold Conn.recvStep at h
  split at h
  · cases h
    split
    · exact .stop (by assumption) (by assumption)
    · rename_i hc
      exact .top (by assumption) ((Bool.not_eq_true _).mp hc)
  · cases h; exact .next _ _ (by assumption)
  · cases h; exact .dispatch _ (by assumption)
  · cases h; exact .sigData (by assumption)
  · cases h; exact .sigFlow (by assumption)
  · split at h <;> cases h
    · exact .fail _ (by assumption) (by assumption)
    · exact .failed _ (by assumption) (by assumption)
  · cases h; exact .poll (by assumption)
  · split at h <;> cases h
    exact .polled (by assumption) (by assumption)
  · cases h; exact .reap _ (by assumption)
  · cases h

theorem Conn.maintStep_some {a : MaintAct} (h : c.maintStep a = some (c', call)) : c.MaintStep a c' call := by
  unfold Conn.maintStep at h
  split at h
  · cases h; exact .tick _ (by assumption)
  · split at h <;> cases h
    exact .stop (by assumption) (by assumption)
  · split at h <;> cases h
    · exact .ack _ _ _ (by assumption) (by assumption)
    · exact .acked _ _ _ (by assumption) (by assumption)
  · cases h; exact .beat _ _ (by assumption)
  · split at h <;> cases h
    · exact .fail _ _ _ (by assumption) (by assumption)
    · exact .failed _ _ _ (by assumption) (by assumption)
  · cases h

theorem Conn.readStep_some {a : ReadAct} (h : c.readStep a = some (c', call)) : c.ReadStep a c' call := by
  unfold Conn.readStep at h
  split at h
  · cases h; exact .call _ (by assumption)
  · cases h; exact .check _ _ (by assumption)
  · split at h <;> cases h
    · exact .ack _ _ _ (by assumption) (by assumption)
    · exact .acked _ _ _ (by assumption) (by assumption)
  · cases h; exact .arm _ _ (by assumption)
  · split at h <;> cases h
    exact .wake _ _ (by assumption) (by assumption)
  · split at h <;> cases h
    exact .timeout _ _ _ (by assumption) (by assumption)
  · split at h <;> cases h
    exact .closed _ _ (by assumption) (by assumption)
  · cases h

theorem Conn.writeStep_some {a : WriteAct} (h : c.writeStep a = some (c', call)) : c.WriteStep a c' call := by
  unfold Conn.writeStep at h
  split at h
  · cases h; exact .call _ (by assumption)
  · cases h; exact .window _ _ _ (by assumption)
  · cases h; exact .errCheck _ _ _ _ _ (by assumption)
  · exact .emit _ _ _ _ (by assumption) (Option.some.inj h)
  · cases h; exact .arm _ _ _ (by assumption)
  · split at h <;> cases h
    exact .wake _ _ _ (by assumption) (by assumption)
  · split at h <;> cases h
    exact .timeout _ _ _ _ (by assumption) (by assumption)
  · split at h <;> cases h
    exact .closed _ _ _ (by assumption) (by assumption)
  · cases h

/-- Until the handshake is done only it moves. -/
theorem Conn.step_not_up {a : Act} (h : c.step a = some (c', call)) (hup : c.phase ≠ .up) :
    ∃ b, c.HandStep b c' call := by
  cases Conn.step_some h with
  | hand hs => exact ⟨_, Conn.handStep_some hs⟩
  | read hp | write hp | close hp | recv hp | maint hp | deadline hp => exact absurd hp hup

/-! ## What a step leaves alone

The fields each goroutine writes; every other one is the one before the step. -/

/-- `emit` numbers the frame; only DATA is counted. -/
theorem Conn.emit_frame {typ : FrameType} (payload : List UInt8) (ok : Bool) (h : typ ≠ frameDATA) :
    ∃ seq, (c.emit typ payload ok).1 = { c with sendSeq := seq } := by
  unfold Conn.emit
  split
  · exact ⟨_, rfl⟩
  · refine ⟨c.sendSeq + 1, ?_⟩
    show c.stamp typ payload = _
    unfold Conn.stamp
    rw [if_neg h]

theorem Conn.emit_data_frame (payload : List UInt8) (ok : Bool) : ∃ (seq data : UInt64) (total : Nat),
    (c.emit frameDATA payload ok).1 = { c with sendSeq := seq, sentData := data, sentTotal := total } := by
  unfold Conn.emit
  split <;> exact ⟨_, _, _, rfl⟩

theorem Conn.ackStep_frame {due : UInt64 → Bool} {p : AckPc} {ok : Bool} {c₁ : Conn} {p' : Option AckPc}
    (h : c.ackStep due p ok = (c₁, p', call)) :
    ∃ (seq : UInt64) (last : UInt64), c₁ = { c with sendSeq := seq, lastAckSent := last } := by
  cases p with
  | emit rd =>
    obtain ⟨seq, he⟩ := c.emit_frame (encodeUint64 rd) ok (show frameACK ≠ frameDATA by decide)
    cases h
    exact ⟨seq, c.lastAckSent, he⟩
  | load | due rd | note rd =>
    cases h
    exact ⟨_, _, rfl⟩

theorem Conn.failStep_frame {p : FailPc} {c₁ : Conn} {q : Option FailPc} (h : c.failStep p = (c₁, q)) :
    c₁ = { c with recvErr := c₁.recvErr, dataSig := c₁.dataSig, flowSig := c₁.flowSig, dead := c₁.dead } := by
  cases p <;> cases h <;> rfl

theorem Conn.HandStep.frame {a : HandAct} (h : c.HandStep a c' call) :
    c' = { c with phase := c'.phase, lastRecv := c'.lastRecv } := by
  cases h with
  | syn ok => cases ok <;> rfl
  | turn t now =>
    unfold Conn.waitSYN
    (repeat' split) <;> rfl
  | openW | giveUp | closeW | closeR => rfl

theorem Conn.HandStep.not_up {a : HandAct} (h : c.HandStep a c' call) : c.phase ≠ .up := by
  intro hup
  cases h <;> (rename_i hp; cases hp.symm.trans hup)

theorem Conn.ReadStep.frame {a : ReadAct} (h : c.ReadStep a c' call) :
    c' = { c with rd := c'.rd, reads := c'.reads, recvBuf := c'.recvBuf, recvData := c'.recvData, dataSig := c'.dataSig,
                  sendSeq := c'.sendSeq, lastAckSent := c'.lastAckSent } := by
  cases h with
  | check n ok =>
    unfold Conn.readCheck
    (repeat' split) <;> rfl
  | ack data p ok hrd hs | acked data p ok hrd hs =>
    obtain ⟨seq, last, rfl⟩ := Conn.ackStep_frame hs
    rfl
  | call | arm | wake | timeout | closed => rfl

theorem Conn.writeLoop_frame (sent rest : List UInt8) :
    ∃ wr writes, c.writeLoop sent rest = { c with wr := wr, writes := writes } := by
  unfold Conn.writeLoop
  split <;> exact ⟨_, _, rfl⟩

theorem Conn.WriteStep.frame {a : WriteAct} (h : c.WriteStep a c' call) :
    c' = { c with wr := c'.wr, writes := c'.writes, raced := c'.raced, flowSig := c'.flowSig, sendSeq := c'.sendSeq,
                  sentData := c'.sentData, sentTotal := c'.sentTotal } := by
  cases h with
  | call p =>
    obtain ⟨wr, writes, he⟩ := Conn.writeLoop_frame (c := { c with raced := c.raced || c.clo.active }) [] p
    rw [he]
  | errCheck sent rest closed room ok =>
    unfold Conn.writeCheck
    (repeat' split) <;> rfl
  | emit sent rest room ok hwr hs =>
    unfold Conn.writeEmit at hs
    dsimp only at hs
    obtain ⟨seq, data, total, he⟩ := c.emit_data_frame (rest.take (chunkLen rest.length room c.params.maxFrame)) ok
    split at hs
    all_goals
      rename_i hem
      rw [hem] at he
      cases he
      cases hs
    · obtain ⟨wr, writes, he⟩ := Conn.writeLoop_frame
        (c := { c with sendSeq := seq, sentData := data, sentTotal := total })
        (sent ++ rest.take (chunkLen rest.length room c.params.maxFrame))
        (rest.drop (chunkLen rest.length room c.params.maxFrame))
      rw [he]
    · rfl
  | window | arm | wake | timeout | closed => rfl

theorem Conn.CloseStep.frame {a : CloseAct} (h : c.CloseStep a c' call) :
    c' = { c with clo := c'.clo, raced := c'.raced, sendSeq := c'.sendSeq, sendClosed := c'.sendClosed,
                  closed := c'.closed, dead := c'.dead } := by
  cases h with
  | fin ok =>
    obtain ⟨seq, he⟩ := c.emit_frame [] ok (show frameFIN ≠ frameDATA by decide)
    rw [he]
  | call | setClosed | closeCh | waitRecv | closeW | closeR | markDead => rfl

theorem Conn.RecvStep.frame {a : RecvAct} (h : c.RecvStep a c' call) :
    c' = { c with rcv := c'.rcv, recvDone := c'.recvDone, lastRecv := c'.lastRecv, recvBuf := c'.recvBuf,
                  recvEOF := c'.recvEOF, peerAck := c'.peerAck, recvErr := c'.recvErr, dataSig := c'.dataSig,
                  flowSig := c'.flowSig, dead := c'.dead } := by
  cases h with
  | next t now => cases t <;> rfl
  | dispatch f =>
    unfold Conn.dispatch
    (repeat' split) <;> rfl
  | fail p hr hf => rw [Conn.failStep_frame hf]
  | failed p hr hf =>
    rw [Conn.failStep_frame hf]
    rfl
  | stop | top | sigData | sigFlow | poll | polled | reap => rfl

/-- `recvLoop` moves only before its end. -/
theorem Conn.RecvStep.running {a : RecvAct} (h : c.RecvStep a c' call) : c.rcv ≠ .done := by
  intro hd
  cases h with
  | stop hr | top hr | next _ _ hr | dispatch _ hr | sigData hr | sigFlow hr | fail _ hr | failed _ hr | poll hr
  | polled hr | reap _ hr => cases hr.symm.trans hd

theorem Conn.MaintStep.frame {a : MaintAct} (h : c.MaintStep a c' call) :
    c' = { c with mnt := c'.mnt, sendSeq := c'.sendSeq, lastAckSent := c'.lastAckSent, recvErr := c'.recvErr,
                  dataSig := c'.dataSig, flowSig := c'.flowSig, dead := c'.dead } := by
  cases h with
  | ack p ok now hm hs | acked p ok now hm hs =>
    obtain ⟨seq, last, rfl⟩ := Conn.ackStep_frame hs
    rfl
  | beat ok now =>
    obtain ⟨seq, he⟩ := c.emit_frame (encodeUint64 (.ofNat now)) ok (show frameHeartbeat ≠ frameDATA by decide)
    rw [he]
  | fail p ok now hm hf | failed p ok now hm hf => rw [Conn.failStep_frame hf]
  | tick | stop => rfl

theorem Conn.deadlineStep_frame {a : DeadlineAct} (h : c.deadlineStep a = some (c', call)) :
    call = none ∧ c' = { c with rdDdl := c'.rdDdl, wrDdl := c'.wrDdl, setters := c'.setters, dataSig := c'.dataSig,
                                flowSig := c'.flowSig } := by
  unfold Conn.deadlineStep at h
  (repeat' split at h) <;> cases h <;> exact ⟨rfl, rfl⟩

/-! ## An error stays -/

theorem Conn.failStep_recvErr {p : FailPc} {c₁ : Conn} {q : Option FailPc} (h : c.failStep p = (c₁, q))
    (he : c₁.recvErr = none) : c.recvErr = none := by
  cases p <;> cases h <;> first | exact he | cases he

theorem Conn.RecvStep.recvErr {a : RecvAct} (h : c.RecvStep a c' call) (he : c'.recvErr = none) : c.recvErr = none := by
  cases h with
  | next t now => cases t <;> exact he
  | dispatch f =>
    unfold Conn.dispatch at he
    (repeat' split at he) <;> exact he
  | fail p _ hf | failed p _ hf => exact Conn.failStep_recvErr hf he
  | stop | top | sigData | sigFlow | poll | polled | reap => exact he

theorem Conn.MaintStep.recvErr {a : MaintAct} (h : c.MaintStep a c' call) (he : c'.recvErr = none) :
    c.recvErr = none := by
  cases h with
  | ack p ok now hm hs | acked p ok now hm hs =>
    obtain ⟨seq, last, rfl⟩ := Conn.ackStep_frame hs
    exact he
  | beat ok now =>
    obtain ⟨seq, hem⟩ := c.emit_frame (encodeUint64 (.ofNat now)) ok (show frameHeartbeat ≠ frameDATA by decide)
    rw [hem] at he
    exact he
  | fail p ok now hm hf | failed p ok now hm hf => exact Conn.failStep_recvErr hf he
  | tick | stop => exact he

/-- **Nothing clears `recvErr`.** -/
theorem Conn.step_recvErr {a : Act} (h : c.step a = some (c', call)) (he : c'.recvErr = none) : c.recvErr = none := by
  cases Conn.step_some h with
  | hand hs => rw [(Conn.handStep_some hs).frame] at he; exact he
  | read _ hs => rw [(Conn.readStep_some hs).frame] at he; exact he
  | write _ hs => rw [(Conn.writeStep_some hs).frame] at he; exact he
  | close _ hs => rw [(Conn.closeStep_some hs).frame] at he; exact he
  | recv _ hs => exact (Conn.recvStep_some hs).recvErr he
  | maint _ hs => exact (Conn.maintStep_some hs).recvErr he
  | deadline _ hs => rw [(Conn.deadlineStep_frame hs).2] at he; exact he

end

end Fstun
end Ccb
