import Ccb.Window
/-!
# EndOfStream — the FIN of a direction and the end a Read meets

`Close` emits its FIN in one critical section and sets `sendClosed` in another.  A `Write` that has passed its checks
may emit between the two; in every run in which none does, the FIN closes the direction (`fin_closes_direction`).

On the receiving side `Read` looks at the buffer, then at `recvErr`, then at `recvEOF`.  Once a FIN has been dispatched
every `Read` called later drains the buffer and then returns the end of stream, as long as no error is recorded
(`eof_stable`); `maintLoop` records one when the peer, which has nothing left to send, has been silent for long enough.
-/
namespace Ccb
namespace Fstun

/-! ## What the goroutines leave alone -/

/-- The fields of the receive side. -/
def Conn.inbound (c : Conn) :
    ReadPc × List ReadResult × List UInt8 × UInt64 × UInt64 × RecvPc × Bool × Option ConnErr × MaintPc :=
  (c.rd, c.reads, c.recvBuf, c.recvData, c.lastAckSent, c.rcv, c.recvEOF, c.recvErr, c.mnt)

section
variable {c c' : Conn} {call : Option Call}

/-- **Who moves the receive side**: a `Read`, `recvLoop` or `maintLoop`. -/
theorem step_inbound {a : Act} (h : c.step a = some (c', call)) :
    (∃ b, a = .read b ∧ c.readStep b = some (c', call)) ∨ (∃ b, a = .recv b ∧ c.recvStep b = some (c', call)) ∨
      (∃ b, a = .maint b ∧ c.maintStep b = some (c', call)) ∨ c'.inbound = c.inbound := by
  cases Conn.step_some h with
  | hand hs => exact .inr (.inr (.inr (by rw [(Conn.handStep_some hs).frame]; rfl)))
  | read _ hs => exact .inl ⟨_, rfl, hs⟩
  | write _ hs => exact .inr (.inr (.inr (by rw [(Conn.writeStep_some hs).frame]; rfl)))
  | close _ hs => exact .inr (.inr (.inr (by rw [(Conn.closeStep_some hs).frame]; rfl)))
  | recv _ hs => exact .inr (.inl ⟨_, rfl, hs⟩)
  | maint _ hs => exact .inr (.inr (.inl ⟨_, rfl, hs⟩))
  | deadline _ hs => exact .inr (.inr (.inr (by rw [(Conn.deadlineStep_frame hs).2]; rfl)))

/-- What a `Read` returns is what it held. -/
theorem readStep_reads {a : ReadAct} (h : c.readStep a = some (c', call)) :
    c'.reads = c.reads ∨ ∃ r, c'.reads = c.reads ++ [r] ∧ r.bytes = c.rd.held := by
  cases Conn.readStep_some h with
  | check n ok hrd =>
    unfold Conn.readCheck
    (repeat' split) <;> first | exact .inl rfl | exact .inr ⟨_, rfl, by rw [hrd]; rfl⟩
  | ack data p ok hrd hs =>
    obtain ⟨seq, last, rfl⟩ := Conn.ackStep_frame hs
    exact .inl rfl
  | acked data p ok hrd hs =>
    obtain ⟨seq, last, rfl⟩ := Conn.ackStep_frame hs
    exact .inr ⟨.data data, rfl, by rw [hrd]; rfl⟩
  | timeout n d now hrd => exact .inr ⟨.err .timeout, rfl, by rw [hrd]; rfl⟩
  | closed n d hrd => exact .inr ⟨.err .closed, rfl, by rw [hrd]; rfl⟩
  | call | arm | wake => exact .inl rfl

/-- The fields of the receive side that `maintLoop` does not write. -/
def Conn.reading (c : Conn) : ReadPc × List ReadResult × List UInt8 × RecvPc × Bool :=
  (c.rd, c.reads, c.recvBuf, c.rcv, c.recvEOF)

theorem maintStep_reading {a : MaintAct} (h : c.maintStep a = some (c', call)) : c'.reading = c.reading := by
  rw [(Conn.maintStep_some h).frame]
  rfl

/-- The fields of the receive side that `recvLoop` does not write. -/
def Conn.consuming (c : Conn) : ReadPc × List ReadResult × UInt64 × UInt64 × MaintPc :=
  (c.rd, c.reads, c.recvData, c.lastAckSent, c.mnt)

theorem recvStep_consuming {a : RecvAct} (h : c.recvStep a = some (c', call)) : c'.consuming = c.consuming := by
  rw [(Conn.recvStep_some h).frame]
  rfl

/-- **A step adds at most one result to the Reads**, the bytes of which the `Read` held. -/
theorem step_reads {a : Act} (h : c.step a = some (c', call)) :
    c'.reads = c.reads ∨ ∃ r, c'.reads = c.reads ++ [r] ∧ r.bytes = c.rd.held := by
  rcases step_inbound h with ⟨b, -, hb⟩ | ⟨b, -, hb⟩ | ⟨b, -, hb⟩ | hk
  · exact readStep_reads hb
  · exact .inl (congrArg (·.2.1) (recvStep_consuming hb))
  · exact .inl (congrArg (·.2.1) (maintStep_reading hb))
  · exact .inl (congrArg (·.2.1) hk)

/-! ## The FIN -/

/-- The frame an endpoint appends, if it emits one of type `typ`. -/
theorem emit_typ {typ : FrameType} {payload : List UInt8} {ok ok' : Bool} {f : Frame} {e : UInt64}
    (h : (c.emit typ payload ok).2.1 = some (.append f e ok')) : f.typ = typ := by
  unfold Conn.emit at h
  split at h
  · cases h
  · cases h; rfl

theorem ackStep_typ {due : UInt64 → Bool} {p : AckPc} {ok ok' : Bool} {c₁ : Conn} {p' : Option AckPc} {f : Frame}
    {e : UInt64} (h : c.ackStep due p ok = (c₁, p', some (.append f e ok'))) : f.typ = frameACK := by
  have h : (c.ackStep due p ok).2.2 = some (.append f e ok') := congrArg (·.2.2) h
  cases p with
  | emit rd => exact emit_typ h
  | load | due rd | note rd => cases h

/-- The step is a `Write` that emits while a `Close` is between its FIN and `sendClosed`. -/
def Conn.emitsPastFin (c : Conn) : Act → Bool
  | .write (.go _) => decide (c.clo = .setClosed) && (match c.wr with | .emit .. => true | _ => false)
  | _ => false

/-- **Only a `Write` appends DATA.** -/
theorem step_data {a : Act} {f : Frame} {e : UInt64} {ok : Bool} (h : c.step a = some (c', some (.append f e ok)))
    (ht : f.typ = frameDATA) (hg : c.emitsPastFin a = false) : c.clo ≠ .setClosed := by
  have hne : ∀ {typ : FrameType}, f.typ = typ → typ ≠ frameDATA → c.clo ≠ .setClosed :=
    fun h hn => absurd (h.symm.trans ht) hn
  cases Conn.step_some h with
  | hand hs =>
    cases Conn.handStep_some hs
    exact hne rfl (show frameSYN ≠ frameDATA by decide)
  | read _ hs =>
    cases Conn.readStep_some hs with
    | ack data p ok hrd hs | acked data p ok hrd hs => exact hne (ackStep_typ hs) (by decide)
  | write _ hs =>
    cases Conn.writeStep_some hs with
    | emit sent rest room ok hwr =>
      intro hclo
      simp [Conn.emitsPastFin, hclo, hwr] at hg
  | close _ hs =>
    generalize hcall : some (Call.append f e ok) = call at hs
    cases Conn.closeStep_some hs with
    | fin => exact hne (emit_typ hcall.symm) (by decide)
    | _ => cases hcall
  | recv _ hs => cases Conn.recvStep_some hs
  | maint _ hs =>
    generalize hcall : some (Call.append f e ok) = call at hs
    cases Conn.maintStep_some hs with
    | ack p ok now hm hs | acked p ok now hm hs =>
      subst hcall
      exact hne (ackStep_typ hs) (by decide)
    | beat => exact hne (emit_typ hcall.symm) (by decide)
    | _ => cases hcall
  | deadline _ hs => cases (Conn.deadlineStep_frame hs).1

end

/-- The endpoint as if no `Write` had overlapped its `Close`. -/
def Core.alone (k : Core) : Core := { k with raced := false, wr := .idle }

section
variable {S R S' R' : Core} {D E D' E' : Fifo} {call : Option Call}

/-- A move of the sender that appends no DATA past its FIN keeps the direction ended as by a lone `Close`. -/
theorem Ended.sender_alone (h : Ended S.alone R D) (hpos : D.pos ≤ D.log.length) (hs : Core.Step S call S')
    (hm : Fifo.Moved D E call D' E')
    (hg : ∀ f e ok, call = some (.append f e ok) → f.typ = frameDATA → S.clo ≠ .setClosed) : Ended S'.alone R D' := by
  have hsame : S'.clo = S.clo → S.alone.clo ≠ .idle ∧ S.alone.clo ≠ .fin → S'.alone.clo ≠ .idle ∧
      S'.alone.clo ≠ .fin := by
    intro h1
    show S.clo ≠ _ ∧ S.clo ≠ _ → S'.clo ≠ _ ∧ S'.clo ≠ _
    rw [h1]
    exact id
  have hclosed : S'.clo = S.clo → S'.sendClosed = S.sendClosed → S'.alone.clo.late = true →
      S'.alone.sendClosed = true := by
    intro h1 h2
    show S'.clo.late = true → S'.sendClosed = true
    rw [h1, h2]
    exact h.closed
  cases hs.closing hm with
  | control f e ok hd hf h1 h2 =>
    exact h.log hpos f ok (fun ht => absurd ht hf) (fun _ _ => Frame.data_of_ne hd) (hsame h1) (hclosed h1 h2)
      (fun _ _ => rfl) rfl
  | fin f e ok hf hclo h1 =>
    have hset : S'.clo ≠ .idle ∧ S'.clo ≠ .fin := by
      rw [h1]
      decide
    refine h.log hpos f ok (fun _ => hset) (fun _ _ => Frame.data_of_ne (by rw [hf]; decide)) (fun _ => hset) ?_
      (fun _ _ => rfl) rfl
    show S'.clo.late = true → _
    rw [h1]
    exact fun hl => by cases hl
  | data f e ok hf hcl hwr h1 h2 =>
    refine h.log hpos f ok (fun ht => by cases hf.symm.trans ht) (fun _ hfin => ?_) (hsame h1) (hclosed h1 h2)
      (fun _ _ => rfl) rfl
    -- With a FIN in the log the Close is past it, and before the flag that stops every `emit`.
    obtain ⟨hidle, hnot⟩ := h.fin hfin
    have hset := hg f e ok rfl hf
    have hlate : S.clo.late = true := by
      cases hclo : S.clo with
      | idle => exact absurd hclo hidle
      | fin => exact absurd hclo hnot
      | setClosed => exact absurd hclo hset
      | _ => rfl
    rw [show S.sendClosed = true from h.closed hlate] at hcl
    cases hcl
  | keep h1 h2 => exact h.keep (hsame h1) (hclosed h1 h2) (fun _ _ => rfl) id
  | close hclo h1 =>
    refine h.keep (fun hc => absurd hclo hc.1) ?_ (fun _ _ => rfl) id
    show S'.clo.late = true → _
    rw [h1]
    exact fun hl => by cases hl
  | late hl hcl =>
    exact h.keep (fun _ => (ClosePc.of_late hl).1) (fun _ => hcl h.closed) (fun _ _ => rfl) id

end

/-- No bytes after an end of stream. -/
def EofLast (c : Conn) : Prop := ∀ pre post, c.reads = pre ++ .eof :: post → post.flatMap ReadResult.bytes = []

theorem EofLast.step {c c' : Conn} {a : Act} {call : Option Call} (h : EofLast c) (hs : c.step a = some (c', call))
    (hheld : .eof ∈ c.reads → c.rd.held = []) : EofLast c' := by
  intro pre post hr
  rcases step_reads hs with hk | ⟨r, hk, hb⟩
  · exact h pre post (hk ▸ hr)
  · rw [hk] at hr
    -- The end of stream is the new result, or an earlier one.
    rcases List.eq_nil_or_concat post with rfl | ⟨post, q, rfl⟩
    · rfl
    · rw [List.concat_eq_append, ← List.cons_append, ← List.append_assoc] at hr
      obtain ⟨hpre, hq⟩ := List.append_inj' hr rfl
      cases hq
      rw [List.concat_eq_append, List.flatMap_append, h pre post hpre, List.flatMap_singleton, hb,
        hheld (hpre ▸ List.mem_append_right _ List.mem_cons_self)]
      rfl

/-- **What the FIN of the direction from `S` to `R` closes**: no DATA frame follows it, what the Writes reported
precedes it, and the Reads have returned all of that before an end of stream. -/
structure FinCloses (S R : Conn) (D : Fifo) : Prop where
  last     : ∀ (i j : Nat) (f g : Frame), i < j → D.log[i]? = some f → f.typ = frameFIN → D.log[j]? = some g →
    g.typ ≠ frameDATA
  precedes : ∀ n, Finned (D.log.take n) → dataOf (D.log.take n) = S.written
  complete : ∀ pre post, R.reads = pre ++ .eof :: post → pre.flatMap ReadResult.bytes = S.written

/-- The direction from `S` to `R` in a run without a `Write` that emits past the FIN. -/
structure EndInv (S R : Conn) (D E : Fifo) : Prop where
  pipe  : PipeInv S.core R.core D E
  ended : Ended S.core.alone R.core D
  last  : EofLast R

section
variable {S R S' R' : Conn} {D E D' E' : Fifo} {a : Act} {call : Option Call}

theorem EndInv.held (h : EndInv S R D E) (he : .eof ∈ R.reads) : R.rd.held = [] :=
  ((h.ended.atEOF (decide_eq_true he)).2 rfl).2

theorem EndInv.sender (h : EndInv S R D E) (hg : S.emitsPastFin a = false) (hs : S.step a = some (S', call))
    (hm : Fifo.Moved D E call D' E') : EndInv S' R D' E' := by
  refine ⟨h.pipe.sender (step_core hs) hm, ?_, h.last⟩
  refine h.ended.sender_alone h.pipe.stream.pos_le (step_core hs) hm (fun f e ok hc ht => ?_)
  rw [hc] at hs
  exact step_data hs ht hg

theorem EndInv.receiver (h : EndInv S R D E) (hs : R.step a = some (R', call)) (hm : Fifo.Moved E D call E' D') :
    EndInv S R' D' E' :=
  ⟨h.pipe.receiver (step_core hs) hm, h.ended.receiver (h.pipe.stream.congr rfl) (step_core hs) hm,
    h.last.step hs h.held⟩

theorem EndInv.closes (h : EndInv S R D E) : FinCloses S R D := by
  refine ⟨fun i j f g hij hf ht hg hd => ?_, fun n hn => ?_, fun pre post hr => ?_⟩
  · -- A DATA frame carries a byte, and nothing past the FIN does.
    have hfin : Finned (D.log.take (i + 1)) := by
      refine ⟨f, ?_, ht⟩
      rw [List.take_add_one, hf]
      exact List.mem_append_right _ (List.mem_singleton.2 rfl)
    have hnil := h.ended.after rfl (i + 1) hfin
    have hmem : g ∈ D.log.drop (i + 1) := by
      refine List.mem_of_getElem? (i := j - (i + 1)) ?_
      rw [List.getElem?_drop, show i + 1 + (j - (i + 1)) = j by omega]
      exact hg
    have hpos := (h.pipe.flow.chunks g (List.mem_of_getElem? hg) hd).1
    have hempty : g.data = [] := List.flatMap_eq_nil_iff.1 hnil g hmem
    rw [Frame.data_of_eq hd] at hempty
    rw [hempty] at hpos
    cases hpos
  · have hnil := h.ended.after rfl n hn
    have hsent : dataOf D.log = S.written := h.pipe.stream.sent
    rw [← hsent]
    conv => rhs; rw [← List.take_append_drop n D.log, dataOf_append, hnil, List.append_nil]
  · have he : .eof ∈ R.reads := hr ▸ List.mem_append_right _ List.mem_cons_self
    have hall : R.returned ++ R.rd.held = S.written :=
      h.ended.all (h.pipe.stream.congr rfl) (decide_eq_true he) rfl
    rw [h.held he, List.append_nil] at hall
    rw [← hall, Conn.returned, hr, List.flatMap_append, List.flatMap_cons, h.last pre post hr, List.append_nil]
    exact (List.append_nil _).symm

end

theorem EndInv.start (p : Role → Params) (idle : Role → Nat) (r : Role) :
    EndInv ((Pipe.start p idle).conn r) ((Pipe.start p idle).conn r.peer) ((Pipe.start p idle).dir r)
      ((Pipe.start p idle).dir r.peer) where
  pipe  := .start p idle r
  ended := (PipeInv.start p idle r).ended
  last  := fun pre post h => by simp [Pipe.start] at h

/-- No `Write` emits while a `Close` of its endpoint is between its FIN and `sendClosed`, whatever carries the
frames. -/
def FinLast {T : Transport} (s : Pipe T) (l : Label T) : Prop := (s.conn l.role).emitsPastFin l.act = false

instance {T : Transport} (s : Pipe T) (l : Label T) : Decidable (FinLast s l) := inferInstanceAs (Decidable (_ = false))

/-- **The FIN closes the direction**, whichever way a `Write`, a `Close`, the loops and the acknowledgements interleave
otherwise, and whichever appends fail. -/
theorem fin_closes_direction (p : Role → Params) (idle : Role → Nat) (ls : List (Label fifo)) (s : Pipe fifo)
    (hm : Machine.Meets Pipe.step FinLast (Pipe.start p idle) ls)
    (hr : Machine.run Pipe.step (Pipe.start p idle) ls = some s) (r : Role) :
    FinCloses (s.conn r) (s.conn r.peer) (s.dir r) := by
  have hinv := Machine.inv_of_meets
    (I := fun s => ∀ r, EndInv (s.conn r) (s.conn r.peer) (s.dir r) (s.dir r.peer)) ?_ ls _ s
    (EndInv.start p idle) hm hr
  · exact (hinv r).closes
  · intro s l t h hg hs
    exact Pipe.inv_fifo (G := fun c a => c.emitsPastFin a = false) (fun h hg hs hm => h.sender hg hs hm)
      (fun h _ hs hm => h.receiver hs hm) s l t h hg hs

/-- Consecutive steps of one endpoint. -/
def stepsOf (r : Role) (as : List Act) : List (Label fifo) := as.map (fun a => ⟨r, a, ()⟩)

/-- Both handshakes. -/
def introductions : List (Label fifo) :=
  stepsOf .initiator [.hand (.openW true), .hand (.syn true)] ++
    stepsOf .acceptor [.hand (.openW true), .hand (.syn true), .hand (.turn (.frame narrow.syn) 0), .recv .go] ++
    stepsOf .initiator [.hand (.turn (.frame narrow.syn) 0), .recv .go]

/-- A `Write` that has passed its checks when `Close` is called. -/
def closeDuringWrite : List (Label fifo) :=
  stepsOf .initiator [.write (.call [7]), .write (.go true), .write (.go true), .close .call]

/-- The acceptor's `recvLoop` dispatches a frame. -/
def dispatches (f : Frame) : List (Label fifo) :=
  stepsOf .acceptor [.recv (.turn (.frame f) 0), .recv .go, .recv .go, .recv .go]

def readsByte : List (Label fifo) :=
  stepsOf .acceptor [.read (.call 1), .read (.go true), .read (.go true), .read (.go true), .read (.go true),
    .read (.go true)]

def readsEnd : List (Label fifo) := stepsOf .acceptor [.read (.call 1), .read (.go true)]

/-- The DATA frame, the FIN and the flag, in this order. -/
def finAfterWrite : List (Label fifo) :=
  introductions ++ closeDuringWrite ++ stepsOf .initiator [.write (.go true), .close (.go true), .close (.go true)] ++
    dispatches ⟨frameDATA, 0, 1, 0, [7]⟩ ++ dispatches ⟨frameFIN, 0, 2, 1, []⟩ ++ readsByte ++ readsEnd

/-- The FIN before the DATA frame. -/
def finBeforeWrite : List (Label fifo) :=
  introductions ++ closeDuringWrite ++ stepsOf .initiator [.close (.go true), .write (.go true)] ++
    dispatches ⟨frameFIN, 0, 1, 0, []⟩ ++ readsEnd ++ dispatches ⟨frameDATA, 0, 2, 0, [7]⟩ ++ readsByte

theorem fin_closes_direction_overlapped :
    (Machine.run Pipe.step (Pipe.start (fun _ => narrow) (fun _ => 0)) finAfterWrite).map
        (fun s => ((s.conn .initiator).raced, (s.conn .acceptor).reads)) = some (true, [.data [7], .eof]) ∧
      ∀ s, Machine.run Pipe.step (Pipe.start (fun _ => narrow) (fun _ => 0)) finAfterWrite = some s →
        FinCloses (s.conn .initiator) (s.conn .acceptor) (s.dir .initiator) :=
  ⟨by decide +kernel, fun s hs => fin_closes_direction (fun _ => narrow) (fun _ => 0) finAfterWrite s
    (by decide +kernel)
    hs .initiator⟩

/-- **A `Write` that emits between the FIN and the flag is reported as written after the end of stream.** -/
theorem data_after_fin :
    ∃ s, Machine.run Pipe.step (Pipe.start (fun _ => narrow) (fun _ => 0)) finBeforeWrite = some s ∧
      (s.dir .initiator).log.map Frame.typ = [frameSYN, frameFIN, frameDATA] ∧
      (s.conn .initiator).writes = [⟨[7], none⟩] ∧ (s.conn .acceptor).reads = [.eof, .data [7]] ∧
      ¬ FinCloses (s.conn .initiator) (s.conn .acceptor) (s.dir .initiator) := by
  obtain ⟨s, hs⟩ : ∃ s, Machine.run Pipe.step (Pipe.start (fun _ => narrow) (fun _ => 0)) finBeforeWrite = some s :=
    Option.isSome_iff_exists.1 (by decide +kernel)
  have hstate : (Machine.run Pipe.step (Pipe.start (fun _ => narrow) (fun _ => 0)) finBeforeWrite).map
      (fun s => ((s.dir .initiator).log.map Frame.typ, (s.conn .initiator).writes, (s.conn .acceptor).reads)) =
        some ([frameSYN, frameFIN, frameDATA], [⟨[7], none⟩], [.eof, .data [7]]) := by decide +kernel
  rw [hs] at hstate
  simp only [Option.map_some, Option.some.injEq, Prod.mk.injEq] at hstate
  obtain ⟨hlog, hw, hr⟩ := hstate
  refine ⟨s, hs, hlog, hw, hr, fun hfin => ?_⟩
  -- Nothing had been returned at the end of stream.
  have hnil := hfin.complete [] [.data [7]] hr
  have hlen := congrArg List.length hnil
  rw [Conn.written, hw] at hlen
  cases hlen

/-! ## The end of stream at a `Read`

One endpoint by itself, with whatever frames its reader returns. -/

/-- A step of an endpoint, whatever its call finds. -/
def Conn.move (c : Conn) (a : Act) : Option Conn := (c.step a).map Prod.fst

/-- No ERROR frame and no corrupt frame is received; a ROLL that names no segment is one. -/
def Undisturbed : Act → Prop
  | .recv (.turn .corrupt _) | .recv (.turn .badRoll _) => False
  | .recv (.turn (.frame f) _) => f.typ ≠ frameError
  | _ => True

/-- No file operation of the reader fails in a way it does not wait out. -/
def Legible : Act → Prop
  | .recv (.turn .ioError _) => False
  | _ => True

/-- No DATA frame is received after a FIN. -/
def Orderly (c : Conn) : Act → Prop
  | .recv (.turn (.frame f) _) => c.recvEOF = true → f.typ ≠ frameDATA
  | _ => True

/-- No tick finds the peer silent for longer than `idleTimeout`. -/
def Timely (c : Conn) : Act → Prop
  | .maint (.tick now) => now - c.lastRecv ≤ c.idleTimeout
  | _ => True

instance : DecidablePred Undisturbed
  | .recv (.turn .corrupt _) | .recv (.turn .badRoll _) => .isFalse id
  | .recv (.turn (.frame f) _) => inferInstanceAs (Decidable (f.typ ≠ frameError))
  | .recv (.turn .again _) | .recv (.turn .incomplete _) | .recv (.turn .notExist _) | .recv (.turn .ioError _)
  | .recv .go
  | .recv .stop | .hand _ | .read _ | .write _ | .close _ | .maint _ | .deadline _ => .isTrue trivial

instance : DecidablePred Legible
  | .recv (.turn .ioError _) => .isFalse id
  | .recv (.turn .corrupt _) | .recv (.turn .badRoll _) | .recv (.turn (.frame _) _) | .recv (.turn .again _)
  | .recv (.turn .incomplete _) | .recv (.turn .notExist _) | .recv .go | .recv .stop | .hand _ | .read _ | .write _
  | .close _ | .maint _ | .deadline _ => .isTrue trivial

instance (c : Conn) : DecidablePred (Orderly c)
  | .recv (.turn (.frame f) _) => inferInstanceAs (Decidable (c.recvEOF = true → f.typ ≠ frameDATA))
  | .recv (.turn .corrupt _) | .recv (.turn .badRoll _) | .recv (.turn .again _) | .recv (.turn .incomplete _)
  | .recv (.turn .notExist _) | .recv (.turn .ioError _) | .recv .go | .recv .stop | .hand _ | .read _ | .write _
  | .close _ | .maint _ | .deadline _ => .isTrue trivial

instance (c : Conn) : DecidablePred (Timely c)
  | .maint (.tick now) => inferInstanceAs (Decidable (now - c.lastRecv ≤ c.idleTimeout))
  | .maint .stop | .maint (.go _ _) | .hand _ | .read _ | .write _ | .close _ | .recv _ | .deadline _ => .isTrue trivial

/-- No error is recorded or on its way. -/
structure Quiet (c : Conn) : Prop where
  err  : c.recvErr = none
  mnt  : ∀ p, c.mnt ≠ .fail p
  rcv  : ∀ p, c.rcv ≠ .fail p
  hand : ∀ f, c.rcv = .dispatch f → f.typ ≠ frameError ∧ (c.recvEOF = true → f.typ ≠ frameDATA)

section
variable {c c' : Conn} {call : Option Call}

/-- The fields an error goes through on its way to `recvErr`. -/
def Conn.outcome (c : Conn) : Option ConnErr × MaintPc × RecvPc × Bool := (c.recvErr, c.mnt, c.rcv, c.recvEOF)

theorem Quiet.congr (h : Quiet c) (hk : c'.outcome = c.outcome) : Quiet c' := by
  simp only [Conn.outcome, Prod.mk.injEq] at hk
  obtain ⟨h1, h2, h3, h4⟩ := hk
  exact ⟨by rw [h1]; exact h.err, by rw [h2]; exact h.mnt, by rw [h3]; exact h.rcv, by rw [h3, h4]; exact h.hand⟩

theorem readStep_outcome {a : ReadAct} (h : c.readStep a = some (c', call)) : c'.outcome = c.outcome := by
  rw [(Conn.readStep_some h).frame]
  rfl

theorem Quiet.recv {a : RecvAct} (h : Quiet c) (hu : Undisturbed (.recv a)) (hl : Legible (.recv a))
    (ho : Orderly c (.recv a)) (hs : c.recvStep a = some (c', call)) : Quiet c' := by
  have hmove : ∀ {p : RecvPc}, p.hand = none → (∀ q, p ≠ .fail q) →
      ∀ {c₁ : Conn}, c₁.recvErr = c.recvErr → c₁.mnt = c.mnt → c₁.rcv = p → Quiet c₁ := by
    intro p hh hp c₁ h1 h2 h3
    refine ⟨by rw [h1]; exact h.err, by rw [h2]; exact h.mnt, by rw [h3]; exact hp, fun f hf => ?_⟩
    rw [h3] at hf
    rw [hf] at hh
    cases hh
  cases Conn.recvStep_some hs with
  | next t now hr =>
    cases t with
    | again => exact h
    | frame f => exact ⟨h.err, h.mnt, (fun _ h => by cases h), fun g hg => by cases hg; exact ⟨hu, ho⟩⟩
    | incomplete | notExist => exact hmove (p := .poll) rfl (fun _ h => by cases h) rfl rfl rfl
    | corrupt | badRoll => exact hu.elim
    | ioError => exact hl.elim
  | dispatch f hr =>
    obtain ⟨hne, -⟩ := h.hand f hr
    unfold Conn.dispatch
    split
    · exact hmove (p := .sigData) rfl (fun _ h => by cases h) rfl rfl rfl
    · split
      · split
        · exact hmove (p := .top) rfl (fun _ h => by cases h) rfl rfl rfl
        · exact hmove (p := .reap _) rfl (fun _ h => by cases h) rfl rfl rfl
      · split
        · exact hmove (p := .sigData) rfl (fun _ h => by cases h) rfl rfl rfl
        · exact hmove (p := .top) rfl (fun _ h => by cases h) rfl rfl rfl
  | fail p hr | failed p hr => exact absurd hr (h.rcv p)
  | stop | polled => exact hmove (p := .done) rfl (fun _ h => by cases h) rfl rfl rfl
  | top => exact hmove (p := .next) rfl (fun _ h => by cases h) rfl rfl rfl
  | reap => exact hmove (p := .sigFlow) rfl (fun _ h => by cases h) rfl rfl rfl
  | sigData | sigFlow | poll => exact hmove (p := .top) rfl (fun _ h => by cases h) rfl rfl rfl

theorem Quiet.maint {a : MaintAct} (h : Quiet c) (ht : Timely c (.maint a)) (hs : c.maintStep a = some (c', call)) :
    Quiet c' := by
  have hmove : ∀ (seq last : UInt64) {p : MaintPc}, (∀ q, p ≠ .fail q) →
      Quiet { c with sendSeq := seq, lastAckSent := last, mnt := p } := fun _ _ _ hp => ⟨h.err, hp, h.rcv, h.hand⟩
  cases Conn.maintStep_some hs with
  | tick now =>
    rw [if_neg (Nat.not_lt.2 ht)]
    exact hmove _ _ (fun _ h => by cases h)
  | stop => exact hmove _ _ (fun _ h => by cases h)
  | ack p ok now hm hs | acked p ok now hm hs =>
    obtain ⟨seq, last, rfl⟩ := Conn.ackStep_frame hs
    exact hmove seq last (fun _ h => by cases h)
  | beat ok now =>
    obtain ⟨seq, he⟩ := c.emit_frame (encodeUint64 (.ofNat now)) ok (show frameHeartbeat ≠ frameDATA by decide)
    rw [he]
    exact hmove seq _ (fun _ h => by cases h)
  | fail p ok now hm | failed p ok now hm => exact absurd hm (h.mnt p)

/-- **No error is recorded in a run without an idle timeout.** -/
theorem Quiet.step {a : Act} (h : Quiet c) (hu : Undisturbed a) (hl : Legible a) (ho : Orderly c a) (ht : Timely c a)
    (hs : c.step a = some (c', call)) : Quiet c' := by
  rcases step_inbound hs with ⟨b, -, hb⟩ | ⟨b, rfl, hb⟩ | ⟨b, rfl, hb⟩ | hk
  · exact h.congr (readStep_outcome hb)
  · exact h.recv hu hl ho hb
  · exact h.maint ht hb
  · simp only [Conn.inbound, Prod.mk.injEq] at hk
    exact h.congr (by simp only [Conn.outcome, hk])

end

/-- **What the Reads after `c₀` have returned in `c`**: pieces `ds` of the buffer of `c₀`, from its start, and after all
of it `k` times the end of stream; none of them waits. -/
structure Drains (c₀ c : Conn) (ds : List (List UInt8)) (k : Nat) : Prop where
  reads : c.reads = c₀.reads ++ (ds.map ReadResult.data ++ List.replicate k .eof)
  bytes : ds.flatten ++ (c.rd.held ++ c.recvBuf) = c₀.recvBuf
  after : 0 < k → c.recvBuf = [] ∧ ∀ data p, c.rd ≠ .ack data p
  runs  : (∀ n, c.rd ≠ .arm n) ∧ ∀ n ddl, c.rd ≠ .parked n ddl

section
variable {c₀ c c' : Conn} {call : Option Call} {ds : List (List UInt8)} {k : Nat}

theorem Drains.congr (h : Drains c₀ c ds k) (hr : c'.rd = c.rd) (hs : c'.reads = c.reads)
    (hb : c'.recvBuf = c.recvBuf) : Drains c₀ c' ds k :=
  ⟨by rw [hs]; exact h.reads, by rw [hr, hb]; exact h.bytes, by rw [hr, hb]; exact h.after, by rw [hr]; exact h.runs⟩

theorem Drains.start (hrd : c₀.rd = .idle) : Drains c₀ c₀ [] 0 := by
  refine ⟨by simp, by simp [hrd, ReadPc.held], fun h => absurd h (Nat.lt_irrefl 0), ?_⟩
  rw [hrd]
  exact ⟨(fun _ h => by cases h), (fun _ _ h => by cases h)⟩

/-- The critical section of a `Read`: a piece of the buffer, or the end of stream. -/
theorem Drains.check (h : Drains c₀ c ds k) (hq : Quiet c) (he : c.recvEOF = true) {n : Nat} (hrd : c.rd = .check n) :
    ∃ k', Drains c₀ (c.readCheck n) ds k' := by
  have hheld : c.rd.held = [] := by rw [hrd]; rfl
  have hbytes := h.bytes
  rw [hheld, List.nil_append] at hbytes
  unfold Conn.readCheck
  split
  · rename_i hne
    refine ⟨k, h.reads, ?_, fun hk => absurd (h.after hk).1 hne, (fun _ h => by cases h), (fun _ _ h => by cases h)⟩
    show ds.flatten ++ (c.recvBuf.take n ++ c.recvBuf.drop n) = _
    rw [List.take_append_drop]
    exact hbytes
  · rename_i hnil
    have hnil : c.recvBuf = [] := by simpa using hnil
    rw [hq.err]
    refine ⟨k + 1, ?_, ?_, fun _ => ⟨hnil, fun _ _ h => by cases h⟩, (fun _ h => by cases h), (fun _ _ h => by cases h)⟩
    · show c.reads ++ [ReadResult.eof] = _
      rw [h.reads, List.replicate_succ', List.append_assoc, List.append_assoc]
    · exact hbytes

theorem Drains.read {a : ReadAct} (h : Drains c₀ c ds k) (hq : Quiet c) (he : c.recvEOF = true)
    (hs : c.readStep a = some (c', call)) : ∃ ds' k', Drains c₀ c' ds' k' := by
  -- A Read that holds a piece runs before the first end of stream.
  have hzero : ∀ {data : List UInt8} {p : AckPc}, c.rd = .ack data p → k = 0 := fun hrd =>
    Nat.eq_zero_of_not_pos (fun hpos => (h.after hpos).2 _ _ hrd)
  have hbytes := h.bytes
  have hreads := h.reads
  cases Conn.readStep_some hs with
  | call n hrd =>
    rw [hrd] at hbytes
    exact ⟨ds, k, hreads, hbytes, fun hk => ⟨(h.after hk).1, fun _ _ h => by cases h⟩, (fun _ h => by cases h),
      (fun _ _ h => by cases h)⟩
  | check n ok hrd =>
    obtain ⟨k', hk'⟩ := h.check hq he hrd
    exact ⟨ds, k', hk'⟩
  | ack data p ok hrd hs =>
    obtain ⟨seq, last, rfl⟩ := Conn.ackStep_frame hs
    obtain rfl := hzero hrd
    rw [hrd] at hbytes
    exact ⟨ds, 0, hreads, hbytes, fun hpos => absurd hpos (Nat.lt_irrefl 0), (fun _ h => by cases h),
      (fun _ _ h => by cases h)⟩
  | acked data p ok hrd hs =>
    obtain ⟨seq, last, rfl⟩ := Conn.ackStep_frame hs
    obtain rfl := hzero hrd
    rw [hrd] at hbytes
    refine ⟨ds ++ [data], 0, ?_, ?_, fun hpos => absurd hpos (Nat.lt_irrefl 0), (fun _ h => by cases h),
      (fun _ _ h => by cases h)⟩
    · show c.reads ++ [ReadResult.data data] = _
      simp [hreads]
    · show (ds ++ [data]).flatten ++ ([] ++ c.recvBuf) = _
      rw [List.flatten_append, List.flatten_singleton, List.nil_append, List.append_assoc]
      exact hbytes
  | arm n ok hrd => exact absurd hrd (h.runs.1 n)
  | wake n d hrd => exact absurd hrd (h.runs.2 n d)
  | timeout n d now hrd => exact absurd hrd (h.runs.2 n (some d))
  | closed n d hrd => exact absurd hrd (h.runs.2 n d)

/-- After a FIN `recvLoop` adds nothing to the buffer. -/
theorem recvStep_buffer {a : RecvAct} (hq : Quiet c) (he : c.recvEOF = true) (hs : c.recvStep a = some (c', call)) :
    c'.recvBuf = c.recvBuf ∧ c'.recvEOF = true := by
  cases Conn.recvStep_some hs with
  | next t now => cases t <;> exact ⟨rfl, he⟩
  | dispatch f hr =>
    have hne := (hq.hand f hr).2 he
    unfold Conn.dispatch
    rw [if_neg hne]
    (repeat' split) <;> first | exact ⟨rfl, he⟩ | exact ⟨rfl, rfl⟩
  | fail p hr | failed p hr => exact absurd hr (hq.rcv p)
  | stop | top | sigData | sigFlow | poll | polled | reap => exact ⟨rfl, he⟩

/-- **A step of a quiet endpoint drains the buffer further, or repeats the end of stream.** -/
theorem Drains.step {a : Act} (h : Drains c₀ c ds k) (hq : Quiet c) (he : c.recvEOF = true)
    (hs : c.step a = some (c', call)) : (∃ ds' k', Drains c₀ c' ds' k') ∧ c'.recvEOF = true := by
  rcases step_inbound hs with ⟨b, -, hb⟩ | ⟨b, -, hb⟩ | ⟨b, -, hb⟩ | hk
  · exact ⟨h.read hq he hb, (congrArg (·.2.2.2) (readStep_outcome hb)).trans he⟩
  · have hk := recvStep_consuming hb
    simp only [Conn.consuming, Prod.mk.injEq] at hk
    obtain ⟨h3, h4⟩ := recvStep_buffer hq he hb
    exact ⟨⟨ds, k, h.congr hk.1 hk.2.1 h3⟩, h4⟩
  · have hk := maintStep_reading hb
    simp only [Conn.reading, Prod.mk.injEq] at hk
    exact ⟨⟨ds, k, h.congr hk.1 hk.2.1 hk.2.2.1⟩, hk.2.2.2.2.trans he⟩
  · simp only [Conn.inbound, Prod.mk.injEq] at hk
    exact ⟨⟨ds, k, h.congr hk.1 hk.2.1 hk.2.2.1⟩, hk.2.2.2.2.2.2.1.trans he⟩

end

/-- **The end of stream is stable**: from any state after a FIN has been dispatched and with no `Read` in progress, the
Reads return the rest of the buffer and then only the end of stream. -/
theorem eof_stable (p : Params) (idle : Nat) (ls ls' : List Act) (c c' : Conn)
    (hm : Machine.Meets Conn.move (fun c a => Undisturbed a ∧ Legible a ∧ Orderly c a ∧ Timely c a)
      { params := p, idleTimeout := idle } (ls ++ ls'))
    (hc : Machine.run Conn.move { params := p, idleTimeout := idle } ls = some c)
    (hc' : Machine.run Conn.move c ls' = some c') (heof : c.recvEOF = true) (hrd : c.rd = .idle) :
    ∃ ds k, Drains c c' ds k := by
  obtain ⟨hm, hm'⟩ := hm.of_append ls hc
  have hmove : ∀ {c c' : Conn} {a : Act}, c.move a = some c' → ∃ call, c.step a = some (c', call) := by
    intro c c' a h
    obtain ⟨⟨c₁, call⟩, hs, rfl⟩ := Option.map_eq_some_iff.1 h
    exact ⟨call, hs⟩
  have hquiet : Quiet c := by
    refine Machine.inv_of_meets (I := Quiet) ?_ ls _ c ?_ hm hc
    · rintro c a c' h ⟨hu, hl, ho, ht⟩ hs
      obtain ⟨call, hs⟩ := hmove hs
      exact h.step hu hl ho ht hs
    · exact ⟨rfl, (fun _ h => by cases h), (fun _ h => by cases h), (fun _ h => by cases h)⟩
  have hinv := Machine.inv_of_meets (I := fun c' => Quiet c' ∧ c'.recvEOF = true ∧ ∃ ds k, Drains c c' ds k) ?_ ls' c c'
    ⟨hquiet, heof, [], 0, .start hrd⟩ hm' hc'
  · exact hinv.2.2
  · rintro c₁ a c₂ ⟨hq, he, ds, k, hd⟩ ⟨hu, hl, ho, ht⟩ hs
    obtain ⟨call, hs⟩ := hmove hs
    obtain ⟨h1, h2⟩ := hd.step hq he hs
    exact ⟨hq.step hu hl ho ht hs, h2, h1⟩

/-- A handshake, a byte and a FIN. -/
def byteAndFin : List Act :=
  [.hand (.openW true), .hand (.syn true), .hand (.turn (.frame narrow.syn) 0), .recv .go,
   .recv (.turn (.frame ⟨frameDATA, 0, 1, 0, [7]⟩) 0), .recv .go, .recv .go, .recv .go,
   .recv (.turn (.frame ⟨frameFIN, 0, 2, 1, []⟩) 0), .recv .go]

/-- Two Reads: the byte, and the end of stream. -/
def drainAll : List Act :=
  [.read (.call 1), .read (.go true), .read (.go true), .read (.go true), .read (.go true), .read (.go true),
   .read (.call 1), .read (.go true)]

/-- A tick at `now`, and a `Read` after it. -/
def readAfterTick (now : Nat) : List Act :=
  [.maint (.tick now), .maint (.go true now), .read (.call 1), .read (.go true)]

theorem eof_stable_ticked :
    ∃ c c', Machine.run Conn.move { params := narrow, idleTimeout := 5 } byteAndFin = some c ∧
      Machine.run Conn.move c (drainAll ++ readAfterTick 5) = some c' ∧ ∃ ds k, Drains c c' ds k := by
  obtain ⟨c, hc⟩ : ∃ c, Machine.run Conn.move { params := narrow, idleTimeout := 5 } byteAndFin = some c := ⟨_, rfl⟩
  obtain ⟨c', hc'⟩ : ∃ c', Machine.run Conn.move { params := narrow, idleTimeout := 5 }
      (byteAndFin ++ (drainAll ++ readAfterTick 5)) = some c' := ⟨_, rfl⟩
  have hend : (Machine.run Conn.move { params := narrow, idleTimeout := 5 } byteAndFin).map
      (fun c => (c.recvEOF, c.rd)) = some (true, .idle) := by decide +kernel
  rw [Machine.run_append, hc] at hc'
  rw [hc] at hend
  simp only [Option.map_some, Option.some.injEq, Prod.mk.injEq] at hend
  exact ⟨c, c', hc, hc', eof_stable narrow 5 byteAndFin (drainAll ++ readAfterTick 5) c c' (by decide +kernel) hc hc'
    hend.1 hend.2⟩

/-- **An idle timeout after the end of stream takes its place.** -/
theorem idle_timeout_after_eof :
    (∀ a ∈ byteAndFin ++ (drainAll ++ readAfterTick 6), Undisturbed a ∧ Legible a ∧ a ≠ .close .call) ∧
      Machine.Meets Conn.move Orderly { params := narrow, idleTimeout := 5 }
        (byteAndFin ++ (drainAll ++ readAfterTick 6)) ∧
      (Machine.run Conn.move { params := narrow, idleTimeout := 5 } (byteAndFin ++ (drainAll ++ readAfterTick 6))).map
        Conn.reads = some [.data [7], .eof, .err .idle] := by
  refine ⟨?_, ?_, ?_⟩ <;> decide +kernel

end Fstun
end Ccb
