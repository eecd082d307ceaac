import Ccb.ConnSteps
/-!
# ConnCore — an endpoint without its scheduling

`Core` keeps of a `Conn` what the two directions of a pipe depend on: the counters, the receive buffer, the bytes Reads
have taken and Writes have sent, the frame in hand, and the acknowledgements on their way into a frame.  `Core.Step`
lists what an endpoint may do to it, with the call it makes; `step_core` is that every step of a `Conn` is one of these.
-/
namespace Ccb
namespace Fstun

def ReadResult.bytes : ReadResult → List UInt8
  | .data b => b
  | .eof | .err _ => []

/-- The bytes a `Read` has taken out of the buffer and not returned yet. -/
def ReadPc.held : ReadPc → List UInt8
  | .ack data _ => data
  | _ => []

/-- The bytes a running `Write` has sent. -/
def WritePc.sent : WritePc → List UInt8
  | .idle => []
  | .window s _ | .errCheck s _ _ _ | .emit s _ _ | .arm s _ | .parked s _ _ => s

/-- The bytes a running `Write` has still to send. -/
def WritePc.rest : WritePc → Option (List UInt8)
  | .idle => none
  | .window _ r | .errCheck _ r _ _ | .emit _ r _ | .arm _ r | .parked _ r _ => some r

/-- An acknowledgement read from `recvData`, to be compared or emitted. -/
def AckPc.value : AckPc → List UInt64
  | .due rd | .emit rd => [rd]
  | .load | .note _ => []

def ReadPc.value : ReadPc → List UInt64
  | .ack _ p => p.value
  | _ => []

def MaintPc.value : MaintPc → List UInt64
  | .ack p => p.value
  | _ => []

def RecvPc.hand : RecvPc → Option Frame
  | .dispatch f => some f
  | _ => none

def RecvPc.reaping : RecvPc → Option UInt64
  | .reap ack => some ack
  | _ => none

section
variable (c : Conn)

/-- The concatenation of what the Reads returned. -/
def Conn.returned : List UInt8 := c.reads.flatMap ReadResult.bytes

def Conn.taken : List UInt8 := c.returned ++ c.rd.held

/-- The concatenation of what the Writes reported as written, the running one's part included. -/
def Conn.written : List UInt8 := c.writes.flatMap WriteResult.sent ++ c.wr.sent

end

@[ext] structure Core where
  params     : Params
  phase      : Phase
  sendSeq    : UInt64
  sentData   : UInt64
  sentTotal  : Nat
  peerAck    : UInt64
  sendClosed : Bool
  recvBuf    : List UInt8
  recvData   : UInt64
  recvEOF    : Bool
  taken      : List UInt8
  held       : List UInt8
  atEOF      : Bool
  written    : List UInt8
  wr         : WritePc
  clo        : ClosePc
  raced      : Bool
  hand       : Option Frame
  reaping    : Option UInt64
  acks       : List UInt64

def Conn.core (c : Conn) : Core :=
  { params := c.params, phase := c.phase, sendSeq := c.sendSeq, sentData := c.sentData, sentTotal := c.sentTotal,
    peerAck := c.peerAck, sendClosed := c.sendClosed, recvBuf := c.recvBuf, recvData := c.recvData,
    recvEOF := c.recvEOF, taken := c.taken, held := c.rd.held, atEOF := decide (.eof ∈ c.reads), written := c.written,
    wr := c.wr, clo := c.clo, raced := c.raced, hand := c.rcv.hand, reaping := c.rcv.reaping,
    acks := c.rd.value ++ c.mnt.value }

/-- The frame an endpoint stamps next. -/
def Core.frame (k : Core) (typ : FrameType) (payload : List UInt8) : Frame :=
  ⟨typ, 0, k.sendSeq, k.sentData, payload⟩

/-- The chunk a `Write` with this room sends next. -/
def Core.chunk (k : Core) (rest : List UInt8) (room : Int64) : List UInt8 :=
  rest.take (chunkLen rest.length room k.params.maxFrame)

def Core.room (k : Core) : Int64 := k.params.window.toInt64 - (k.sentData - k.peerAck).toInt64

/-- A `Write` that is not about to send: idle, at the top of its loop or waiting. -/
def WritePc.waits : WritePc → Bool
  | .errCheck .. | .emit .. => false
  | _ => true

/-- A `Close` past its two critical sections. -/
def ClosePc.late : ClosePc → Bool
  | .idle | .fin | .setClosed => false
  | _ => true

/-- The handshake has refused or given up. -/
def Phase.failing : Phase → Bool
  | .abortW | .abortR | .failed => true
  | _ => false

/-- Writer and reader calls that carry no frame. -/
def Call.plain : Call → Bool
  | .openW _ | .closeW | .closeR => true
  | .append .. | .reap _ => false
  | .next (.frame _) => false
  | .next _ => true

/-- **What a step of an endpoint may do.** -/
inductive Core.Step (k : Core) : Option Call → Core → Prop
  | quiet : Step k none k
  -- the handshake
  | phase (ph : Phase) (call : Option Call) : k.phase ≠ .up → ph ≠ .up → (k.phase.failing = true → ph.failing = true) →
      (∀ x ∈ call, x.plain = true) → Step k call { k with phase := ph }
  | syn (ok : Bool) : k.phase = .opened →
      Step k (some (.append k.params.syn 0 ok)) { k with phase := if ok then .syn else .abortW }
  | hello (f : Frame) : k.phase = .syn → f.typ = frameSYN → Step k (some (.next (.frame f))) { k with phase := .up }
  | refuse (f : Frame) : k.phase = .syn → Step k (some (.next (.frame f))) { k with phase := .abortW }
  -- Read
  | take (n : Nat) : k.phase = .up → k.recvBuf ≠ [] →
      Step k none { k with recvBuf := k.recvBuf.drop n, recvData := k.recvData + .ofNat (k.recvBuf.take n).length,
                           taken := k.taken ++ k.recvBuf.take n, held := k.recvBuf.take n }
  | eof : k.phase = .up → k.recvBuf = [] → k.recvEOF = true → k.held = [] → Step k none { k with atEOF := true }
  | acks (l : List UInt64) (b : List UInt8) : k.phase = .up → l ⊆ k.recvData :: k.acks → (b = k.held ∨ b = []) →
      Step k none { k with acks := l, held := b }
  -- frames sent
  | sendAck (v : UInt64) (ok : Bool) (l : List UInt64) (b : List UInt8) : k.phase = .up → k.sendClosed = false →
      v ∈ k.acks → l ⊆ k.acks → (b = k.held ∨ b = []) →
      Step k (some (.append (k.frame frameACK (encodeUint64 v)) k.sentData ok))
        { k with sendSeq := k.sendSeq + 1, acks := l, held := b }
  | sendBeat (v : UInt64) (ok : Bool) : k.phase = .up → k.sendClosed = false →
      Step k (some (.append (k.frame frameHeartbeat (encodeUint64 v)) k.sentData ok))
        { k with sendSeq := k.sendSeq + 1 }
  | sendFin (ok : Bool) : k.phase = .up → k.clo = .fin →
      Step k (some (.append (k.frame frameFIN []) k.sentData ok))
        { k with sendSeq := k.sendSeq + 1, clo := .setClosed }
  | sendData (sent rest : List UInt8) (room : Int64) (ok : Bool) (wr : WritePc) : k.phase = .up →
      k.sendClosed = false → k.wr = .emit sent rest room → wr.waits = true → wr.rest ≠ some [] →
      Step k (some (.append (k.frame frameDATA (k.chunk rest room))
          (k.sentData + .ofNat (k.chunk rest room).length) ok))
        { k with sendSeq := k.sendSeq + 1, sentData := k.sentData + .ofNat (k.chunk rest room).length,
                 sentTotal := k.sentTotal + (k.chunk rest room).length,
                 written := if ok then k.written ++ k.chunk rest room else k.written, wr := wr }
  -- Write
  | write (wr : WritePc) : k.phase = .up → k.wr ≠ .idle → wr.waits = true →
      (wr.rest = k.wr.rest ∨ wr.rest ≠ some []) → Step k none { k with wr := wr }
  | writeCall (wr : WritePc) : k.phase = .up → k.wr = .idle → wr.waits = true → wr.rest ≠ some [] →
      Step k none { k with wr := wr, raced := k.raced || k.clo.active }
  | measure (sent rest : List UInt8) : k.phase = .up → k.wr = .window sent rest →
      Step k none { k with wr := .errCheck sent rest k.sendClosed k.room }
  | pass (sent rest : List UInt8) (room : Int64) : k.phase = .up → k.wr = .errCheck sent rest false room → 0 < room →
      Step k none { k with wr := .emit sent rest room }
  -- Close
  | close :
      k.phase = .up → k.clo = .idle → Step k none { k with clo := .fin, raced := k.raced || decide (k.wr ≠ .idle) }
  | closeSet : k.phase = .up → k.clo = .setClosed → Step k none { k with sendClosed := true, clo := .closeCh }
  | closeLate (clo : ClosePc) (call : Option Call) : k.phase = .up → k.clo.late = true → clo.late = true →
      (∀ x ∈ call, x.plain = true) → Step k call { k with clo := clo }
  -- recvLoop
  | next (t : Turn) : k.phase = .up → (Call.next t).plain = true → Step k (some (.next t)) k
  | frame (f : Frame) : k.phase = .up → k.hand = none → Step k (some (.next (.frame f))) { k with hand := some f }
  | data (f : Frame) : k.phase = .up → k.hand = some f → f.typ = frameDATA →
      Step k none { k with recvBuf := k.recvBuf ++ f.payload, hand := none }
  | ack (f : Frame) (v : UInt64) :
      k.phase = .up → k.hand = some f → f.typ = frameACK → decodeUint64 f.payload = some v →
      Step k none { k with peerAck := if k.peerAck < v then v else k.peerAck, hand := none,
                           reaping := some (if k.peerAck < v then v else k.peerAck) }
  | reap (v : UInt64) : k.phase = .up → k.reaping = some v → Step k (some (.reap v)) { k with reaping := none }
  | fin (f : Frame) :
      k.phase = .up → k.hand = some f → f.typ = frameFIN → Step k none { k with recvEOF := true, hand := none }
  | other (f : Frame) : k.phase = .up → k.hand = some f → f.typ ≠ frameDATA → f.typ ≠ frameFIN →
      (f.typ = frameACK → decodeUint64 f.payload = none) → Step k none { k with hand := none }

/-! ## Steps of a `Conn` -/

theorem Core.Step.congr {k k₁ k' : Core} {call : Option Call} (h : Core.Step k call k₁) (he : k' = k₁) :
    Core.Step k call k' := he ▸ h

/-- An endpoint that is up stays up. -/
theorem Core.Step.up {k k' : Core} {call : Option Call} (h : Core.Step k call k') (hup : k.phase = .up) :
    k'.phase = .up := by
  cases h with
  | phase _ _ hne => exact absurd hup hne
  | syn _ ho => cases ho.symm.trans hup
  | hello => rfl
  | refuse _ ho => cases ho.symm.trans hup
  | _ => exact hup

theorem Core.Step.params {k k' : Core} {call : Option Call} (h : Core.Step k call k') : k'.params = k.params := by
  cases h <;> rfl

theorem Core.Step.sentTotal_le {k k' : Core} {call : Option Call} (h : Core.Step k call k') :
    k.sentTotal ≤ k'.sentTotal := by
  cases h
  case sendData => exact Nat.le_add_right _ _
  all_goals exact Nat.le_refl _

section
variable {c c' : Conn} {call : Option Call}

theorem waitSYN_core {t : Turn} {now : Nat} (hp : c.phase = .syn) :
    Core.Step c.core (some (.next t)) (c.waitSYN t now).core := by
  have hup : c.core.phase ≠ .up := by show c.phase ≠ _; rw [hp]; exact fun h => by cases h
  have hab : (hpl : (Call.next t).plain = true) → Core.Step c.core (some (.next t)) c.abort.core := fun hpl =>
    .phase .abortW _ hup (fun h => by cases h) (fun _ => rfl) (fun x hx => by cases hx; exact hpl)
  have hst : (hpl : (Call.next t).plain = true) → Core.Step c.core (some (.next t)) c.core := fun hpl =>
    .phase c.phase _ hup hup id (fun x hx => by cases hx; exact hpl)
  unfold Conn.waitSYN
  cases t with
  | again => exact hst rfl
  | incomplete => exact hst rfl
  | notExist => exact hst rfl
  | corrupt => exact hab rfl
  | badRoll => exact hab rfl
  | ioError => exact hab rfl
  | frame f =>
    dsimp only
    (repeat' split)
    · exact .refuse f hp
    · exact .refuse f hp
    · exact .refuse f hp
    · rename_i htyp _ _ _ _
      exact .hello f hp (by simpa using htyp)

theorem handStep_core {a : HandAct} (h : c.handStep a = some (c', call)) : Core.Step c.core call c'.core := by
  have hnot : c.core.phase ≠ .up := (Conn.handStep_some h).not_up
  cases Conn.handStep_some h with
  | openW ok hp =>
    refine .phase (if ok then .opened else .failed) _ hnot ?_ ?_ (fun x hx => by cases hx; rfl)
    · cases ok <;> exact fun h => by cases h
    · intro hf
      change c.phase.failing = true at hf
      rw [hp] at hf
      cases hf
  | syn ok hp =>
    cases ok
    · exact .syn false hp
    · exact .syn true hp
  | turn t now hp => exact waitSYN_core hp
  | giveUp => exact .phase .abortW none hnot (fun h => by cases h) (fun _ => rfl) (fun x hx => by cases hx)
  | closeW => exact .phase .abortR _ hnot (fun h => by cases h) (fun _ => rfl) (fun x hx => by cases hx; rfl)
  | closeR => exact .phase .failed _ hnot (fun h => by cases h) (fun _ => rfl) (fun x hx => by cases hx; rfl)

/-- **`emit` either refuses a frame after the close, or stamps it and appends it.** -/
theorem emit_cases (typ : FrameType) (payload : List UInt8) (ok : Bool) (h1 : typ ≠ frameFIN) (h2 : typ ≠ frameError) :
    c.emit typ payload ok = (c, none, false) ∨
      c.sendClosed = false ∧ c.emit typ payload ok = (c.stamp typ payload,
        some (.append (c.core.frame typ payload) (c.stamp typ payload).sentData ok), ok) := by
  unfold Conn.emit
  cases hc : c.sendClosed with
  | false => exact Or.inr ⟨rfl, by simp; rfl⟩
  | true => exact Or.inl (by simp [h1, h2])

theorem stamp_of_ne {typ : FrameType} (payload : List UInt8) (h : typ ≠ frameDATA) :
    c.stamp typ payload = { c with sendSeq := c.sendSeq + 1 } := by
  unfold Conn.stamp; rw [if_neg h]

/-- **What a step of an acknowledgement does**: it reads or drops a value, or emits the one it has. -/
theorem ackStep_cases (due : UInt64 → Bool) (p : AckPc) (ok : Bool) :
    ∃ c₁ p' call, c.ackStep due p ok = (c₁, p', call) ∧
      ((call = none ∧ (∃ n, c₁ = { c with lastAckSent := n }) ∧
          ∀ q ∈ p', q.value ⊆ c.recvData :: p.value) ∨
        ∃ v, p.value = [v] ∧ c.sendClosed = false ∧ c₁ = { c with sendSeq := c.sendSeq + 1 } ∧
          call = some (.append (c.core.frame frameACK (encodeUint64 v)) c.sentData ok) ∧ ∀ q ∈ p', q.value = []) := by
  cases p with
  | load => exact ⟨_, _, _, rfl, Or.inl ⟨rfl, ⟨c.lastAckSent, rfl⟩, fun q hq => by cases hq; simp [AckPc.value]⟩⟩
  | due rd =>
    refine ⟨_, _, _, rfl, Or.inl ⟨rfl, ⟨c.lastAckSent, rfl⟩, fun q hq => ?_⟩⟩
    split at hq <;> cases hq
    simp [AckPc.value]
  | note rd => exact ⟨_, _, _, rfl, Or.inl ⟨rfl, ⟨_, rfl⟩, fun q hq => by cases hq⟩⟩
  | emit rd =>
    unfold Conn.ackStep
    dsimp only
    rcases emit_cases (c := c) frameACK (encodeUint64 rd) ok (by decide) (by decide) with he | ⟨hc, he⟩
    · rw [he]
      exact ⟨_, _, _, rfl, Or.inl ⟨rfl, ⟨c.lastAckSent, rfl⟩, fun q hq => by cases hq⟩⟩
    · rw [he, stamp_of_ne _ (by decide)]
      refine ⟨_, _, _, rfl, Or.inr ⟨rd, rfl, hc, rfl, rfl, fun q hq => ?_⟩⟩
      split at hq <;> cases hq
      rfl

/-- The calls a step of an acknowledgement leads to, once its value is one of the endpoint's. -/
theorem ackStep_core {due : UInt64 → Bool} {p : AckPc} {ok : Bool} {c₁ : Conn} {p' : Option AckPc} {call : Option Call}
    (h : c.ackStep due p ok = (c₁, p', call)) (hup : c.phase = .up) {l : List UInt64} {b : List UInt8} {c₂ : Conn}
    (hp : p.value ⊆ c.core.acks) (hl : ∀ v ∈ l, v ∈ c.core.acks ∨ ∃ q ∈ p', v ∈ q.value)
    (hb : b = c.rd.held ∨ b = []) (hc : c₂.core = { c₁.core with acks := l, held := b }) :
    Core.Step c.core call c₂.core := by
  obtain ⟨_, _, _, h', hcase⟩ := ackStep_cases (c := c) due p ok
  rw [h] at h'
  cases h'
  rcases hcase with ⟨rfl, ⟨n, rfl⟩, hq⟩ | ⟨v, hv, hcl, rfl, rfl, hq⟩
  · refine (Core.Step.acks l b hup (fun v hv => ?_) hb).congr hc
    rcases hl v hv with hold | ⟨q, hq', hvq⟩
    · exact List.mem_cons_of_mem _ hold
    · rcases List.mem_cons.1 (hq q hq' hvq) with rfl | hin
      · exact List.mem_cons_self
      · exact List.mem_cons_of_mem _ (hp hin)
  · refine (Core.Step.sendAck v ok l b hup hcl (hp (by rw [hv]; exact List.mem_cons_self)) (fun w hw => ?_) hb).congr hc
    rcases hl w hw with hold | ⟨q, hq', hwq⟩
    · exact hold
    · rw [hq q hq'] at hwq; cases hwq

/-- A step that changes nothing the core keeps. -/
theorem step_quiet (h : c'.core = c.core) : Core.Step c.core none c'.core := Core.Step.quiet.congr h

theorem readReturn_taken (r : ReadResult) (hh : c.rd.held = r.bytes) : (c.readReturn r).taken = c.taken := by
  show (c.reads ++ [r]).flatMap ReadResult.bytes ++ [] = c.reads.flatMap ReadResult.bytes ++ c.rd.held
  rw [hh, List.append_nil, List.flatMap_append, List.flatMap_singleton]

theorem readReturn_core (r : ReadResult) (hh : c.rd.held = r.bytes) (hr : r ≠ .eof) :
    (c.readReturn r).core = { c.core with acks := c.mnt.value, held := [] } := by
  apply Core.ext <;> try rfl
  · exact readReturn_taken r hh
  · show decide (.eof ∈ c.reads ++ [r]) = decide (.eof ∈ c.reads)
    have hne : ¬ ReadResult.eof = r := fun h => hr h.symm
    simp [hne]

/-- A `Read` that moves on with what it holds. -/
theorem core_rd {p : ReadPc} (sig : Bool) (hh : p.held = c.rd.held) (hv : p.value = c.rd.value) :
    ({ c with rd := p, dataSig := sig } : Conn).core = c.core := by
  apply Core.ext <;> try rfl
  · show c.returned ++ p.held = c.returned ++ c.rd.held
    rw [hh]
  · exact hh
  · show p.value ++ c.mnt.value = c.rd.value ++ c.mnt.value
    rw [hv]

theorem readCheck_core {n : Nat} (hup : c.phase = .up) (hrd : c.rd = .check n) :
    Core.Step c.core none (c.readCheck n).core := by
  have hheld : c.rd.held = [] := by rw [hrd]; rfl
  have hval : c.rd.value = [] := by rw [hrd]; rfl
  have hacks : c.mnt.value = c.core.acks := by
    show _ = c.rd.value ++ c.mnt.value
    rw [hval, List.nil_append]
  unfold Conn.readCheck
  split
  · rename_i hb
    refine (Core.Step.take n hup hb).congr ?_
    apply Core.ext <;> try rfl
    · show c.returned ++ c.recvBuf.take n = c.taken ++ c.recvBuf.take n
      rw [Conn.taken, hheld, List.append_nil]
    · exact hacks
  · rename_i hb
    split
    · refine step_quiet ?_
      rw [readReturn_core _ hheld (fun h => by cases h), hacks, ← hheld]
      rfl
    · split
      · rename_i heof
        refine (Core.Step.eof hup (Classical.not_not.1 hb) heof hheld).congr ?_
        apply Core.ext <;> try rfl
        · exact readReturn_taken .eof hheld
        · exact hheld.symm
        · show decide (ReadResult.eof ∈ c.reads ++ [.eof]) = true
          simp
        · exact hacks
      · exact step_quiet (core_rd c.dataSig hheld.symm hval.symm)

theorem readStep_core {a : ReadAct} (hup : c.phase = .up) (h : c.readStep a = some (c', call)) :
    Core.Step c.core call c'.core := by
  have hack : ∀ {data : List UInt8} {p : AckPc}, c.rd = .ack data p → p.value ⊆ c.core.acks := by
    intro data p hrd
    show p.value ⊆ c.rd.value ++ c.mnt.value
    rw [hrd]
    exact List.subset_append_left _ _
  -- A parked `Read` returns with nothing taken.
  have hreturn : ∀ {n : Nat} {d : Option Nat} {e : ConnErr}, c.rd = .parked n d →
      Core.Step c.core none (c.readReturn (.err e)).core := by
    intro n d e hrd
    refine step_quiet ?_
    rw [readReturn_core _ (by rw [hrd]; rfl) (fun h => by cases h)]
    simp [Conn.core, hrd, ReadPc.value, ReadPc.held]
  cases Conn.readStep_some h with
  | call n hrd => exact step_quiet (core_rd _ (by rw [hrd]; rfl) (by rw [hrd]; rfl))
  | check n ok hrd => exact readCheck_core hup hrd
  | ack data p ok hrd hs =>
    rename_i c₁ q
    refine ackStep_core (l := q.value ++ c.mnt.value) (b := data) hs hup (hack hrd) (fun v hv => ?_)
      (Or.inl (by rw [hrd]; rfl)) ?_
    · rcases List.mem_append.1 hv with hv | hv
      · exact Or.inr ⟨q, rfl, hv⟩
      · exact Or.inl (List.mem_append_right _ hv)
    · obtain ⟨seq, last, rfl⟩ := Conn.ackStep_frame hs
      apply Core.ext <;> try rfl
      show c.returned ++ data = c.returned ++ c.rd.held
      rw [hrd]; rfl
  | acked data p ok hrd hs =>
    refine ackStep_core (l := c.mnt.value) (b := []) hs hup (hack hrd) (fun v hv => Or.inl (List.mem_append_right _ hv))
      (Or.inr rfl) ?_
    obtain ⟨seq, last, rfl⟩ := Conn.ackStep_frame hs
    rw [readReturn_core _ (by show c.rd.held = _; rw [hrd]; rfl) (fun h => by cases h)]
  | arm n ok hrd => exact step_quiet (core_rd _ (by rw [hrd]; rfl) (by rw [hrd]; rfl))
  | wake n d hrd => exact step_quiet (core_rd _ (by rw [hrd]; rfl) (by rw [hrd]; rfl))
  | timeout n d now hrd => exact hreturn hrd
  | closed n d hrd => exact hreturn hrd

theorem writeReturn_core (sent : List UInt8) (err : Option ConnErr) (hs : c.wr.sent = sent) :
    (c.writeReturn sent err).core = { c.core with wr := .idle } := by
  apply Core.ext <;> try rfl
  show (c.writes ++ [WriteResult.mk sent err]).flatMap WriteResult.sent ++ [] =
    c.writes.flatMap WriteResult.sent ++ c.wr.sent
  rw [hs, List.append_nil, List.flatMap_append, List.flatMap_singleton]

/-- A `Write` that moves on with what it has sent. -/
theorem core_wr {p : WritePc} (sig : Bool) (hs : p.sent = c.wr.sent) :
    ({ c with wr := p, flowSig := sig } : Conn).core = { c.core with wr := p } := by
  apply Core.ext <;> try rfl
  show c.writes.flatMap WriteResult.sent ++ p.sent = c.writes.flatMap WriteResult.sent ++ c.wr.sent
  rw [hs]

/-- The loop goes on with the bytes sent so far, or `Write` returns them. -/
theorem writeLoop_core (sent rest : List UInt8) : ∃ wr, (c.writeLoop sent rest).core =
    { c.core with wr := wr, written := c.writes.flatMap WriteResult.sent ++ sent } ∧ wr.waits = true ∧
      wr.rest ≠ some [] := by
  unfold Conn.writeLoop
  split
  · refine ⟨.idle, ?_, rfl, fun h => by cases h⟩
    apply Core.ext <;> try rfl
    show (c.writes ++ [WriteResult.mk sent none]).flatMap WriteResult.sent ++ [] = _
    rw [List.append_nil, List.flatMap_append, List.flatMap_singleton]
  · rename_i hr
    exact ⟨.window sent rest, rfl, rfl, fun h => hr (Option.some.inj h)⟩

theorem writeCheck_core {sent rest : List UInt8} {closed : Bool} {room : Int64} (hup : c.phase = .up)
    (hwr : c.wr = .errCheck sent rest closed room) :
    Core.Step c.core none (c.writeCheck sent rest closed room).core := by
  have hsent : c.wr.sent = sent := by rw [hwr]; rfl
  have hbusy : c.wr ≠ .idle := by rw [hwr]; exact fun h => by cases h
  unfold Conn.writeCheck
  split
  · exact (Core.Step.write .idle hup hbusy rfl (Or.inr fun h => by cases h)).congr (writeReturn_core sent _ hsent)
  · split
    · exact (Core.Step.write .idle hup hbusy rfl (Or.inr fun h => by cases h)).congr (writeReturn_core sent _ hsent)
    · rename_i hcl
      obtain rfl : closed = false := by simpa using hcl
      split
      · rename_i hroom
        exact (Core.Step.pass sent rest room hup hwr hroom).congr (core_wr c.flowSig hsent.symm)
      · refine (Core.Step.write (.arm sent rest) hup hbusy rfl (Or.inl ?_)).congr (core_wr c.flowSig hsent.symm)
        show _ = c.wr.rest
        rw [hwr]; rfl

theorem writeEmit_core {sent rest : List UInt8} {room : Int64} {ok : Bool} (hup : c.phase = .up)
    (hwr : c.wr = .emit sent rest room) :
    Core.Step c.core (c.writeEmit sent rest room ok).2 (c.writeEmit sent rest room ok).1.core := by
  have hsent : c.wr.sent = sent := by rw [hwr]; rfl
  have hbusy : c.wr ≠ .idle := by rw [hwr]; exact fun h => by cases h
  unfold Conn.writeEmit
  dsimp only
  rcases emit_cases (c := c) frameDATA (c.core.chunk rest room) ok (by decide) (by decide) with he | ⟨hcl, he⟩
  · change c.emit frameDATA (rest.take (chunkLen rest.length room c.params.maxFrame)) ok = _ at he
    rw [he]
    exact (Core.Step.write .idle hup hbusy rfl (Or.inr fun h => by cases h)).congr (writeReturn_core sent _ hsent)
  · have hstamp : c.stamp frameDATA (c.core.chunk rest room) =
        { c with sendSeq := c.sendSeq + 1, sentData := c.sentData + .ofNat (c.core.chunk rest room).length,
                 sentTotal := c.sentTotal + (c.core.chunk rest room).length } := by
      unfold Conn.stamp; rw [if_pos rfl]
    rw [hstamp] at he
    change c.emit frameDATA (rest.take (chunkLen rest.length room c.params.maxFrame)) ok = _ at he
    rw [he]
    cases ok with
    | false =>
      refine (Core.Step.sendData sent rest room false .idle hup hcl hwr rfl (fun h => by cases h)).congr ?_
      exact writeReturn_core sent _ hsent
    | true =>
      obtain ⟨wr, hk, hw, hr⟩ := writeLoop_core
        (c := { c with sendSeq := c.sendSeq + 1, sentData := c.sentData + .ofNat (c.core.chunk rest room).length,
                       sentTotal := c.sentTotal + (c.core.chunk rest room).length })
        (sent ++ rest.take (chunkLen rest.length room c.params.maxFrame))
        (rest.drop (chunkLen rest.length room c.params.maxFrame))
      refine (Core.Step.sendData sent rest room true wr hup hcl hwr hw hr).congr (hk.trans ?_)
      apply Core.ext <;> try rfl
      show c.writes.flatMap WriteResult.sent ++ (sent ++ c.core.chunk rest room) = c.written ++ c.core.chunk rest room
      rw [Conn.written, hsent, List.append_assoc]

theorem writeStep_core {a : WriteAct} (hup : c.phase = .up) (h : c.writeStep a = some (c', call)) :
    Core.Step c.core call c'.core := by
  have hstop : ∀ {sent rest : List UInt8} {d : Option Nat} {err : Option ConnErr}, c.wr = .parked sent rest d →
      Core.Step c.core none (c.writeReturn sent err).core := by
    intro sent rest d err hwr
    refine (Core.Step.write .idle hup ?_ rfl (Or.inr fun h => by cases h)).congr (writeReturn_core _ _ ?_)
    · show c.wr ≠ .idle
      rw [hwr]; exact fun h => by cases h
    · rw [hwr]; rfl
  cases Conn.writeStep_some h with
  | call p hwr =>
    obtain ⟨wr, hk, hw, hr⟩ := writeLoop_core (c := { c with raced := c.raced || c.clo.active }) [] p
    refine (Core.Step.writeCall wr hup hwr hw hr).congr (hk.trans ?_)
    apply Core.ext <;> try rfl
    show c.writes.flatMap WriteResult.sent ++ [] = c.writes.flatMap WriteResult.sent ++ c.wr.sent
    rw [hwr]; rfl
  | window sent rest ok hwr => exact (Core.Step.measure sent rest hup hwr).congr (core_wr c.flowSig (by rw [hwr]; rfl))
  | errCheck sent rest closed room ok hwr => exact writeCheck_core hup hwr
  | emit sent rest room ok hwr hs =>
    have hk : Core.Step c.core (c.writeEmit sent rest room ok).2 (c.writeEmit sent rest room ok).1.core :=
      writeEmit_core hup hwr
    rw [hs] at hk
    exact hk
  | arm sent rest ok hwr =>
    have hbusy : c.wr ≠ .idle := by rw [hwr]; exact fun h => by cases h
    refine (Core.Step.write (.parked sent rest c.wrDdl) hup hbusy rfl (Or.inl ?_)).congr
      (core_wr c.flowSig (by rw [hwr]; rfl))
    show _ = c.wr.rest
    rw [hwr]; rfl
  | wake sent rest d hwr =>
    have hbusy : c.wr ≠ .idle := by rw [hwr]; exact fun h => by cases h
    refine (Core.Step.write (.window sent rest) hup hbusy rfl (Or.inl ?_)).congr (core_wr false (by rw [hwr]; rfl))
    show _ = c.wr.rest
    rw [hwr]; rfl
  | timeout sent rest d now hwr => exact hstop hwr
  | closed sent rest d hwr => exact hstop hwr

theorem closeStep_core {a : CloseAct} (hup : c.phase = .up) (h : c.closeStep a = some (c', call)) :
    Core.Step c.core call c'.core := by
  have hlate : ∀ {p clo : ClosePc} {call : Option Call}, c.clo = p → p.late = true → clo.late = true →
      (∀ x ∈ call, x.plain = true) → Core.Step c.core call { c.core with clo := clo } := by
    intro p clo call hclo h1 h2 h3
    subst hclo
    exact .closeLate _ _ hup h1 h2 h3
  cases Conn.closeStep_some h with
  | call hclo => exact Core.Step.close hup hclo
  | fin ok hclo =>
    have he : c.emit frameFIN [] ok = (c.stamp frameFIN [], some (.append (c.core.frame frameFIN [])
        (c.stamp frameFIN []).sentData ok), ok) := by
      unfold Conn.emit; rw [if_neg (by simp)]; rfl
    rw [he, stamp_of_ne [] (by decide)]
    exact Core.Step.sendFin ok hup hclo
  | setClosed ok hclo => exact Core.Step.closeSet hup hclo
  | closeCh ok hclo => exact hlate hclo rfl rfl (fun x hx => by cases hx)
  | waitRecv ok hclo => exact hlate hclo rfl rfl (fun x hx => by cases hx)
  | closeW ok hclo => exact hlate hclo rfl rfl (fun x hx => by cases hx; rfl)
  | closeR ok hclo => exact hlate hclo rfl rfl (fun x hx => by cases hx; rfl)
  | markDead ok hclo => exact hlate hclo rfl rfl (fun x hx => by cases hx)

theorem failStep_core {p : FailPc} {c₁ : Conn} {q : Option FailPc} (h : c.failStep p = (c₁, q)) :
    c₁.core = c.core ∧ c₁.rd = c.rd := by
  cases p <;> cases h <;> exact ⟨rfl, rfl⟩

theorem dispatch_core {f : Frame} (hup : c.phase = .up) (hr : c.rcv = .dispatch f) :
    Core.Step c.core none (c.dispatch f).core := by
  have hhand : c.core.hand = some f := by show c.rcv.hand = _; rw [hr]; rfl
  have hreap : c.core.reaping = none := by show c.rcv.reaping = _; rw [hr]; rfl
  unfold Conn.dispatch
  split
  · rename_i ht
    refine (Core.Step.data f hup hhand ht).congr ?_
    apply Core.ext <;> try rfl
    exact hreap.symm
  rename_i hdata
  split
  · rename_i ht
    split
    · rename_i hv
      refine (Core.Step.other f hup hhand hdata (by rw [ht]; decide) (fun _ => hv)).congr ?_
      apply Core.ext <;> try rfl
      exact hreap.symm
    · rename_i v hv
      exact Core.Step.ack f v hup hhand ht hv
  rename_i hack
  split
  · rename_i ht
    refine (Core.Step.fin f hup hhand ht).congr ?_
    apply Core.ext <;> try rfl
    exact hreap.symm
  rename_i hfin
  split
  all_goals
    refine (Core.Step.other f hup hhand hdata hfin (fun ht => absurd ht hack)).congr ?_
    apply Core.ext <;> try rfl
    exact hreap.symm

theorem received_core {t : Turn} {now : Nat} (hup : c.phase = .up) (hr : c.rcv = .next) :
    Core.Step c.core (some (.next t)) (c.received t now).core := by
  have hhand : c.core.hand = none := by show c.rcv.hand = _; rw [hr]; rfl
  have hreap : c.core.reaping = none := by show c.rcv.reaping = _; rw [hr]; rfl
  cases t with
  | again => exact .next .again hup rfl
  | frame f =>
    refine (Core.Step.frame f hup hhand).congr ?_
    apply Core.ext <;> try rfl
    exact hreap.symm
  | incomplete | notExist | corrupt | badRoll | ioError =>
    refine (Core.Step.next _ hup rfl).congr ?_
    apply Core.ext <;> try rfl
    · exact hhand.symm
    · exact hreap.symm

/-- A step of `recvLoop` with no frame in hand before it or after it. -/
theorem core_rcv {c₁ : Conn} {p : RecvPc} (hk : c₁.core = c.core) (hh : p.hand = c.rcv.hand)
    (hr : p.reaping = c.rcv.reaping) : ({ c₁ with rcv := p } : Conn).core = c.core := by
  have hset : ({ c₁ with rcv := p } : Conn).core = { c₁.core with hand := p.hand, reaping := p.reaping } := rfl
  rw [hset, hk, hh, hr]
  rfl

theorem recvStep_core {a : RecvAct} (hup : c.phase = .up) (h : c.recvStep a = some (c', call)) :
    Core.Step c.core call c'.core := by
  have hquiet : ∀ (c₁ : Conn) {p q : RecvPc}, c.rcv = p → c₁.core = c.core → q.hand = p.hand → q.reaping = p.reaping →
      Core.Step c.core none ({ c₁ with rcv := q } : Conn).core := by
    intro c₁ p q hr hk hh hreap
    subst hr
    exact step_quiet (core_rcv hk hh hreap)
  cases Conn.recvStep_some h with
  | stop hr => exact hquiet { c with recvDone := true } hr rfl rfl rfl
  | top hr => exact hquiet c hr rfl rfl rfl
  | next t now hr => exact received_core hup hr
  | dispatch f hr => exact dispatch_core hup hr
  | sigData hr => exact hquiet { c with dataSig := true } hr rfl rfl rfl
  | sigFlow hr => exact hquiet { c with flowSig := true } hr rfl rfl rfl
  | fail p hr hf => exact hquiet _ hr (failStep_core hf).1 rfl rfl
  | failed p hr hf =>
    rename_i c₁
    exact hquiet { c₁ with recvDone := true } hr (failStep_core hf).1 rfl rfl
  | poll hr => exact hquiet c hr rfl rfl rfl
  | polled hr => exact hquiet { c with recvDone := true } hr rfl rfl rfl
  | reap ack hr =>
    refine (Core.Step.reap ack hup (by show c.rcv.reaping = _; rw [hr]; rfl)).congr ?_
    apply Core.ext <;> try rfl
    show none = c.rcv.hand
    rw [hr]; rfl

theorem maintStep_core {a : MaintAct} (hup : c.phase = .up) (h : c.maintStep a = some (c', call)) :
    Core.Step c.core call c'.core := by
  -- A move of the loop that drops its acknowledgement, if it had one.
  have hdrop : ∀ {c₁ : Conn} {p : MaintPc}, c₁.core = c.core → c₁.rd = c.rd → p.value = [] →
      Core.Step c.core none ({ c₁ with mnt := p } : Conn).core := by
    intro c₁ p hk hrd hp
    refine (Core.Step.acks (c.rd.value ++ []) c.rd.held hup (fun v hv => ?_) (Or.inl rfl)).congr ?_
    · rw [List.append_nil] at hv
      exact List.mem_cons_of_mem _ (List.mem_append_left _ hv)
    · have hset : ({ c₁ with mnt := p } : Conn).core = { c₁.core with acks := c₁.rd.value ++ p.value } := rfl
      rw [hset, hk, hrd, hp]
      rfl
  have hack : ∀ {p : AckPc}, c.mnt = .ack p → p.value ⊆ c.core.acks := by
    intro p hm
    show p.value ⊆ c.rd.value ++ c.mnt.value
    rw [hm]
    exact List.subset_append_right _ _
  cases Conn.maintStep_some h with
  | tick now =>
    refine hdrop rfl rfl ?_
    split <;> rfl
  | stop => exact hdrop rfl rfl rfl
  | ack p ok now hm hs =>
    rename_i c₁ q
    refine ackStep_core (l := c.rd.value ++ q.value) (b := c.rd.held) hs hup (hack hm) (fun v hv => ?_) (Or.inl rfl) ?_
    · rcases List.mem_append.1 hv with hv | hv
      · exact Or.inl (List.mem_append_left _ hv)
      · exact Or.inr ⟨q, rfl, hv⟩
    · obtain ⟨seq, last, rfl⟩ := Conn.ackStep_frame hs
      rfl
  | acked p ok now hm hs =>
    refine ackStep_core (l := c.rd.value ++ []) (b := c.rd.held) hs hup (hack hm) (fun v hv => Or.inl ?_)
      (Or.inl rfl) ?_
    · rw [List.append_nil] at hv
      exact List.mem_append_left _ hv
    · obtain ⟨seq, last, rfl⟩ := Conn.ackStep_frame hs
      rfl
  | beat ok now hm =>
    rcases emit_cases (c := c) frameHeartbeat (encodeUint64 (.ofNat now)) ok (by decide) (by decide) with he | ⟨hcl, he⟩
    · rw [he]
      exact hdrop rfl rfl rfl
    · rw [he, stamp_of_ne _ (by decide)]
      refine (Core.Step.sendBeat (.ofNat now) ok hup hcl).congr ?_
      apply Core.ext <;> try rfl
      show c.rd.value ++ MaintPc.value .wait = c.rd.value ++ c.mnt.value
      rw [hm]; rfl
  | fail p ok now hm hf => exact hdrop (failStep_core hf).1 (failStep_core hf).2 rfl
  | failed p ok now hm hf => exact hdrop (failStep_core hf).1 (failStep_core hf).2 rfl

theorem deadlineStep_core {a : DeadlineAct} (h : c.deadlineStep a = some (c', call)) :
    Core.Step c.core call c'.core := by
  unfold Conn.deadlineStep at h
  (repeat' split at h) <;> cases h <;> exact step_quiet rfl

/-- **Every step of a `Conn` is one of the core's.** -/
theorem step_core {a : Act} (h : c.step a = some (c', call)) : Core.Step c.core call c'.core := by
  cases Conn.step_some h with
  | hand hs => exact handStep_core hs
  | read hup hs => exact readStep_core hup hs
  | write hup hs => exact writeStep_core hup hs
  | close hup hs => exact closeStep_core hup hs
  | recv hup hs => exact recvStep_core hup hs
  | maint hup hs => exact maintStep_core hup hs
  | deadline hup hs => exact deadlineStep_core hs

end

end Fstun
end Ccb
