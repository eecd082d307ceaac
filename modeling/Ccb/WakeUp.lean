import Ccb.Window
/-!
# WakeUp — what a parked `Read` or `Write` waits for

`Read` and `waitSendWindow` look at the state under a mutex, release it and then wait on a one-slot channel.  Whoever
changes what they look at signals the channel afterwards, so that a parked one always has a token waiting, or the signal
of the goroutine that made the change is still to come (`no_lost_wakeup`).

`Signals` keeps of a `Conn` what this is about, and `Signals.Step` lists what a step does to it.  A `Watched` endpoint
also says which `SetDeadline` calls have changed a deadline since its timer was armed.
-/
namespace Ccb
namespace Fstun

open Machine (run)

/-- Past the check that found nothing to read. -/
def ReadPc.asleep : ReadPc → Bool
  | .arm _ | .parked _ _ => true
  | _ => false

/-- Past the checks of `waitSendWindow`. -/
def WritePc.asleep : WritePc → Bool
  | .arm _ _ | .parked _ _ _ => true
  | _ => false

/-- With no room in the window when it looked. -/
def WritePc.short : WritePc → Bool
  | .errCheck _ _ _ room => decide (¬ 0 < room)
  | .arm _ _ | .parked _ _ _ => true
  | _ => false

/-- `recvLoop` has changed something and not signalled it yet. -/
def RecvPc.owes : RecvPc → Bool
  | .sigData | .reap _ | .sigFlow | .fail .sigData | .fail .sigFlow => true
  | _ => false

/-- Between the ACK that moved `peerAck` and its signal. -/
def RecvPc.freeing : RecvPc → Bool
  | .reap _ | .sigFlow => true
  | _ => false

def MaintPc.owes : MaintPc → Bool
  | .fail .sigData | .fail .sigFlow => true
  | _ => false

/-- The errors `recvLoop` fails with; `maintLoop`'s is `idle`. -/
def ConnErr.received : ConnErr → Bool
  | .peer _ | .reader _ => true
  | _ => false

@[ext] structure Signals where
  rd      : ReadPc
  wr      : WritePc
  rcv     : RecvPc
  mnt     : MaintPc
  setters : List SetPc
  recvBuf : List UInt8
  recvEOF : Bool
  recvErr : Option ConnErr
  room    : Int64
  dataSig : Bool
  flowSig : Bool

def Conn.signals (c : Conn) : Signals :=
  { rd := c.rd, wr := c.wr, rcv := c.rcv, mnt := c.mnt, setters := c.setters, recvBuf := c.recvBuf,
    recvEOF := c.recvEOF, recvErr := c.recvErr, room := c.room, dataSig := c.dataSig, flowSig := c.flowSig }

/-- Who moves: the reader, the writer, a caller of `SetDeadline`, or any other goroutine. -/
inductive Who where
  | read
  | write
  | deadline
  | other

def Act.who : Act → Who
  | .read _     => .read
  | .write _    => .write
  | .deadline _ => .deadline
  | .hand _ | .close _ | .recv _ | .maint _ => .other

/-- **What a step of an endpoint may do to what its waits depend on.** -/
inductive Signals.Step (g : Signals) : Who → Signals → Prop
  | quiet : Step g .other g
  -- Read
  | read (p : ReadPc) : p.asleep = false → Step g .read { g with rd := p }
  | take (p : ReadPc) (buf : List UInt8) : p.asleep = false → Step g .read { g with rd := p, recvBuf := buf }
  | sleep (n : Nat) : g.recvBuf = [] → g.recvErr = none → g.recvEOF = false → Step g .read { g with rd := .arm n }
  | park (n : Nat) (d : Option Nat) : g.rd = .arm n → Step g .read { g with rd := .parked n d }
  | woken (p : ReadPc) : p.asleep = false → Step g .read { g with rd := p, dataSig := false }
  -- Write
  | write (p : WritePc) (room : Int64) : p.short = false → Step g .write { g with wr := p, room := room }
  | measure (sent rest : List UInt8) (closed : Bool) : Step g .write { g with wr := .errCheck sent rest closed g.room }
  | full (sent rest : List UInt8) : g.wr.short = true → g.recvErr = none → Step g .write { g with wr := .arm sent rest }
  | parkW (sent rest : List UInt8) (d : Option Nat) :
      g.wr = .arm sent rest → Step g .write { g with wr := .parked sent rest d }
  | wokenW (p : WritePc) : p.short = false → Step g .write { g with wr := p, flowSig := false }
  -- recvLoop
  | recv (p : RecvPc) : g.rcv.owes = false → p.owes = false → (∀ e, p = .fail (.set e) → e.received = true) →
      Step g .other { g with rcv := p }
  | data (buf : List UInt8) (eof : Bool) :
      g.rcv.owes = false → Step g .other { g with recvBuf := buf, recvEOF := eof, rcv := .sigData }
  | ack (room : Int64) (v : UInt64) : g.rcv.owes = false → Step g .other { g with room := room, rcv := .reap v }
  | reap (v : UInt64) : g.rcv = .reap v → Step g .other { g with rcv := .sigFlow }
  | sigData : g.rcv = .sigData → Step g .other { g with dataSig := true, rcv := .top }
  | sigFlow : g.rcv = .sigFlow → Step g .other { g with flowSig := true, rcv := .top }
  | recvFails (e : ConnErr) : g.rcv = .fail (.set e) →
      Step g .other { g with recvErr := some (g.recvErr.getD e), rcv := .fail .sigData }
  | recvFailsData : g.rcv = .fail .sigData → Step g .other { g with dataSig := true, rcv := .fail .sigFlow }
  | recvFailsFlow : g.rcv = .fail .sigFlow → Step g .other { g with flowSig := true, rcv := .fail .dead }
  -- maintLoop
  | maint (p : MaintPc) : g.mnt.owes = false → p.owes = false → (∀ e, p = .fail (.set e) → e.received = false) →
      Step g .other { g with mnt := p }
  | maintFails (e : ConnErr) : g.mnt = .fail (.set e) →
      Step g .other { g with recvErr := some (g.recvErr.getD e), mnt := .fail .sigData }
  | maintFailsData : g.mnt = .fail .sigData → Step g .other { g with dataSig := true, mnt := .fail .sigFlow }
  | maintFailsFlow : g.mnt = .fail .sigFlow → Step g .other { g with flowSig := true, mnt := .fail .dead }
  -- SetDeadline
  | set : Step g .deadline { g with setters := g.setters ++ [.sigData] }
  | wakeData (k : Nat) :
      g.setters[k]? = some .sigData → Step g .deadline { g with dataSig := true, setters := g.setters.set k .sigFlow }
  | wakeFlow (k : Nat) :
      g.setters[k]? = some .sigFlow → Step g .deadline { g with flowSig := true, setters := g.setters.eraseIdx k }

/-! ## Steps of a `Conn` -/

section
variable {c c' : Conn} {call : Option Call}

theorem Signals.Step.congr {g g₁ g' : Signals} {w : Who} (h : Signals.Step g w g₁) (he : g' = g₁) :
    Signals.Step g w g' := he ▸ h

theorem handStep_signals {a : HandAct} (h : c.handStep a = some (c', call)) : c'.signals = c.signals := by
  rw [(Conn.handStep_some h).frame]
  rfl

theorem readCheck_signals (n : Nat) : Signals.Step c.signals .read (c.readCheck n).signals := by
  unfold Conn.readCheck
  split
  · exact .take _ _ rfl
  · rename_i hb
    split
    · exact .read .idle rfl
    · rename_i he
      split
      · exact .read .idle rfl
      · rename_i heof
        exact .sleep n (Classical.not_not.1 hb) he ((Bool.not_eq_true _).mp heof)

theorem readStep_signals {a : ReadAct} (h : c.readStep a = some (c', call)) :
    Signals.Step c.signals .read c'.signals := by
  cases Conn.readStep_some h with
  | call n => exact .read (.check n) rfl
  | check n => exact readCheck_signals n
  | ack data p ok hrd hs =>
    obtain ⟨seq, last, rfl⟩ := Conn.ackStep_frame hs
    exact .read (.ack data _) rfl
  | acked data p ok hrd hs =>
    obtain ⟨seq, last, rfl⟩ := Conn.ackStep_frame hs
    exact .read .idle rfl
  | arm n ok hrd => exact .park _ _ hrd
  | wake => exact .woken _ rfl
  | timeout | closed => exact .read .idle rfl

theorem writeLoop_signals (sent rest : List UInt8) :
    ∃ p : WritePc, p.short = false ∧ (c.writeLoop sent rest).signals = { c.signals with wr := p } := by
  unfold Conn.writeLoop
  split
  · exact ⟨.idle, rfl, rfl⟩
  · exact ⟨.window sent rest, rfl, rfl⟩

theorem writeEmit_signals (sent rest : List UInt8) (room : Int64) (ok : Bool) :
    Signals.Step c.signals .write (c.writeEmit sent rest room ok).1.signals := by
  unfold Conn.writeEmit
  dsimp only
  obtain ⟨seq, data, total, he⟩ := c.emit_data_frame (rest.take (chunkLen rest.length room c.params.maxFrame)) ok
  split
  all_goals
    rename_i hemit
    rw [hemit] at he
    cases he
  · obtain ⟨p, hp, hl⟩ := writeLoop_signals (c := { c with sendSeq := seq, sentData := data, sentTotal := total })
      (sent ++ rest.take (chunkLen rest.length room c.params.maxFrame))
      (rest.drop (chunkLen rest.length room c.params.maxFrame))
    exact (Signals.Step.write p _ hp).congr hl
  · exact .write .idle _ rfl

theorem writeCheck_signals {sent rest : List UInt8} {closed : Bool} {room : Int64}
    (hwr : c.wr = .errCheck sent rest closed room) :
    Signals.Step c.signals .write (c.writeCheck sent rest closed room).signals := by
  unfold Conn.writeCheck
  split
  · exact .write .idle c.room rfl
  · rename_i he
    split
    · exact .write .idle c.room rfl
    · split
      · exact .write (.emit sent rest room) c.room rfl
      · rename_i hroom
        refine .full sent rest ?_ he
        show c.wr.short = true
        rw [hwr]
        exact decide_eq_true hroom

theorem writeStep_signals {a : WriteAct} (h : c.writeStep a = some (c', call)) :
    Signals.Step c.signals .write c'.signals := by
  cases Conn.writeStep_some h with
  | call p =>
    obtain ⟨q, hq, hl⟩ := writeLoop_signals (c := { c with raced := c.raced || c.clo.active }) [] p
    exact (Signals.Step.write q c.room hq).congr hl
  | window => exact .measure _ _ _
  | errCheck sent rest closed room ok hwr => exact writeCheck_signals hwr
  | emit sent rest room ok hwr hs =>
    have hk := writeEmit_signals (c := c) sent rest room ok
    rw [hs] at hk
    exact hk
  | arm sent rest ok hwr => exact .parkW _ _ _ hwr
  | wake => exact .wokenW _ rfl
  | timeout | closed => exact .write .idle c.room rfl

theorem closeStep_signals {a : CloseAct} (h : c.closeStep a = some (c', call)) : c'.signals = c.signals := by
  rw [(Conn.closeStep_some h).frame]
  rfl

theorem dispatch_signals {f : Frame} (hr : c.rcv = .dispatch f) :
    Signals.Step c.signals .other (c.dispatch f).signals := by
  have howes : c.signals.rcv.owes = false := by
    show c.rcv.owes = false
    rw [hr]
    rfl
  unfold Conn.dispatch
  split
  · exact .data _ c.recvEOF howes
  split
  · split
    · exact .recv .top howes rfl (fun e h => by cases h)
    · exact .ack _ _ howes
  split
  · exact .data c.recvBuf true howes
  split
  · exact .recv _ howes rfl (fun e h => by cases h; rfl)
  · exact .recv .top howes rfl (fun e h => by cases h)

theorem recvStep_signals {a : RecvAct} (h : c.recvStep a = some (c', call)) :
    Signals.Step c.signals .other c'.signals := by
  have howes : ∀ p, c.rcv = p → p.owes = false → c.signals.rcv.owes = false := by
    rintro p rfl hp
    exact hp
  cases Conn.recvStep_some h with
  | stop hr => exact .recv .done (howes _ hr rfl) rfl (fun e h => by cases h)
  | top hr => exact .recv .next (howes _ hr rfl) rfl (fun e h => by cases h)
  | next t now hr =>
    have ho := howes _ hr rfl
    cases t with
    | again => exact .quiet
    | frame f => exact .recv (.dispatch f) ho rfl (fun e h => by cases h)
    | incomplete | notExist => exact .recv .poll ho rfl (fun e h => by cases h)
    | corrupt | badRoll | ioError => exact .recv _ ho rfl (fun e h => by cases h; rfl)
  | dispatch f hr => exact dispatch_signals hr
  | sigData hr => exact .sigData hr
  | sigFlow hr => exact .sigFlow hr
  | fail p hr hf =>
    cases p with
    | set e => cases hf; exact .recvFails e hr
    | sigData => cases hf; exact .recvFailsData hr
    | sigFlow => cases hf; exact .recvFailsFlow hr
    | dead => cases hf
  | failed p hr hf =>
    cases p with
    | dead => cases hf; exact .recv .done (howes _ hr rfl) rfl (fun e h => by cases h)
    | set | sigData | sigFlow => cases hf
  | poll hr => exact .recv .top (howes _ hr rfl) rfl (fun e h => by cases h)
  | polled hr => exact .recv .done (howes _ hr rfl) rfl (fun e h => by cases h)
  | reap ack hr => exact .reap _ hr

theorem maintStep_signals {a : MaintAct} (h : c.maintStep a = some (c', call)) :
    Signals.Step c.signals .other c'.signals := by
  have howes : ∀ p, c.mnt = p → p.owes = false → c.signals.mnt.owes = false := by
    rintro p rfl hp
    exact hp
  cases Conn.maintStep_some h with
  | tick now hm =>
    refine .maint _ (howes _ hm rfl) ?_ ?_
    · split <;> rfl
    · intro e he
      split at he <;> cases he
      rfl
  | stop hm => exact .maint .done (howes _ hm rfl) rfl (fun e h => by cases h)
  | ack p ok now hm hs =>
    obtain ⟨seq, last, rfl⟩ := Conn.ackStep_frame hs
    exact .maint (.ack _) (howes _ hm rfl) rfl (fun e h => by cases h)
  | acked p ok now hm hs =>
    obtain ⟨seq, last, rfl⟩ := Conn.ackStep_frame hs
    exact .maint .beat (howes _ hm rfl) rfl (fun e h => by cases h)
  | beat ok now hm =>
    obtain ⟨seq, he⟩ := c.emit_frame (encodeUint64 (.ofNat now)) ok (show frameHeartbeat ≠ frameDATA by decide)
    rw [he]
    exact .maint .wait (howes _ hm rfl) rfl (fun e h => by cases h)
  | fail p ok now hm hf =>
    cases p with
    | set e => cases hf; exact .maintFails e hm
    | sigData => cases hf; exact .maintFailsData hm
    | sigFlow => cases hf; exact .maintFailsFlow hm
    | dead => cases hf
  | failed p ok now hm hf =>
    cases p with
    | dead => cases hf; exact .maint .done (howes _ hm rfl) rfl (fun e h => by cases h)
    | set | sigData | sigFlow => cases hf

theorem deadlineStep_signals {a : DeadlineAct} (h : c.deadlineStep a = some (c', call)) :
    Signals.Step c.signals .deadline c'.signals := by
  unfold Conn.deadlineStep at h
  split at h
  · cases h
    exact .set
  · split at h
    · cases h
    · rename_i hk
      cases h
      exact .wakeData _ hk
    · rename_i hk
      cases h
      exact .wakeFlow _ hk

/-- **Every step of a `Conn` is one of these.** -/
theorem step_signals {a : Act} (h : c.step a = some (c', call)) : Signals.Step c.signals a.who c'.signals := by
  cases Conn.step_some h with
  | hand hs => exact Signals.Step.quiet.congr (handStep_signals hs)
  | read _ hs => exact readStep_signals hs
  | write _ hs => exact writeStep_signals hs
  | close _ hs => exact Signals.Step.quiet.congr (closeStep_signals hs)
  | recv _ hs => exact recvStep_signals hs
  | maint _ hs => exact maintStep_signals hs
  | deadline _ hs => exact deadlineStep_signals hs

end

/-! ## Tokens and signals to come -/

/-- The goroutine that fails with `e` is at this point of its `failRecv`. -/
def Signals.failing (g : Signals) (e : ConnErr) (p : FailPc) : Prop :=
  if e.received then g.rcv = .fail p else g.mnt = .fail p

/-- **Whatever a sleeping `Read` or `Write` would not have gone to sleep on, its channel has a token or the goroutine
that changed it has still to signal it.** -/
structure Signals.Inv (g : Signals) : Prop where
  data     : g.rd.asleep = true → g.recvBuf ≠ [] ∨ g.recvEOF = true → g.dataSig = true ∨ g.rcv = .sigData
  readErr  : g.rd.asleep = true → ∀ e, g.recvErr = some e → g.dataSig = true ∨ g.failing e .sigData
  room     : g.wr.short = true → 0 < g.room → g.flowSig = true ∨ g.rcv.freeing = true
  writeErr : g.wr.asleep = true → ∀ e, g.recvErr = some e →
    g.flowSig = true ∨ g.failing e .sigData ∨ g.failing e .sigFlow
  recvErr  : ∀ e, g.rcv = .fail (.set e) → e.received = true
  maintErr : ∀ e, g.mnt = .fail (.set e) → e.received = false

section
variable {g g' : Signals} {w : Who} {e : ConnErr} {p : FailPc}

theorem WritePc.short_of_asleep {p : WritePc} (h : p.asleep = true) : p.short = true := by
  cases p <;> first | rfl | cases h

theorem RecvPc.freeing_of_owes {p : RecvPc} (h : p.owes = false) : p.freeing = false := by
  cases p <;> first | rfl | cases h

theorem Signals.Inv.data_step (hi : g.Inv) (hs : Signals.Step g w g') :
    g'.rd.asleep = true → g'.recvBuf ≠ [] ∨ g'.recvEOF = true → g'.dataSig = true ∨ g'.rcv = .sigData := by
  -- the loop moves from a place that is not the signal
  have htoken : g.rcv ≠ .sigData → g.rd.asleep = true → g.recvBuf ≠ [] ∨ g.recvEOF = true → g.dataSig = true := by
    intro hn hw hc
    rcases hi.data hw hc with h | h
    · exact h
    · exact absurd h hn
  have howes : g.rcv.owes = false → g.rcv ≠ .sigData := by
    intro ho h
    rw [h] at ho
    cases ho
  cases hs with
  | quiet | write | measure | full | parkW | wokenW | maint | maintFails | maintFailsFlow | set | wakeFlow =>
    exact hi.data
  | read p hp | take p buf hp | woken p hp => exact fun hw => absurd hw (by rw [hp]; exact Bool.false_ne_true)
  | sleep n hbuf _ heof =>
    rintro - (h | h)
    · exact absurd hbuf h
    · rw [heof] at h; cases h
  | park n d hrd => exact fun _ => hi.data (by rw [hrd]; rfl)
  | recv p ho => exact fun hw hc => Or.inl (htoken (howes ho) hw hc)
  | ack room v ho => exact fun hw hc => Or.inl (htoken (howes ho) hw hc)
  | data buf eof => exact fun _ _ => Or.inr rfl
  | reap v hr => exact fun hw hc => Or.inl (htoken (by rw [hr]; exact fun h => by cases h) hw hc)
  | sigFlow hr | recvFails e hr | recvFailsFlow hr =>
    exact fun hw hc => Or.inl (htoken (by rw [hr]; exact fun h => by cases h) hw hc)
  | sigData | recvFailsData | maintFailsData | wakeData => exact fun _ _ => Or.inl rfl

/-- `recvLoop` moves from a place that is not the one in question. -/
theorem Signals.failing_rcv (q : RecvPc) (hr : g.rcv ≠ .fail p) (h : g.failing e p) :
    ({ g with rcv := q } : Signals).failing e p := by
  unfold Signals.failing at h ⊢
  split at h
  · exact absurd h hr
  · rename_i he
    rw [if_neg he]
    exact h

/-- `maintLoop` moves from a place that is not the one in question. -/
theorem Signals.failing_mnt (q : MaintPc) (hm : g.mnt ≠ .fail p) (h : g.failing e p) :
    ({ g with mnt := q } : Signals).failing e p := by
  unfold Signals.failing at h ⊢
  split at h
  · rename_i he
    rw [if_pos he]
    exact h
  · exact absurd h hm

theorem RecvPc.ne_fail {q : RecvPc} (ho : q.owes = false) (hp : p = .sigData ∨ p = .sigFlow) : q ≠ .fail p := by
  rintro rfl
  rcases hp with rfl | rfl <;> cases ho

theorem MaintPc.ne_fail {q : MaintPc} (ho : q.owes = false) (hp : p = .sigData ∨ p = .sigFlow) : q ≠ .fail p := by
  rintro rfl
  rcases hp with rfl | rfl <;> cases ho

/-- After a `failRecv` has set `recvErr`, its own error is signalled next and the other's as before. -/
theorem Signals.failing_recvFails {e₀ : ConnErr} (h₀ : e₀.received = true) (h : some (g.recvErr.getD e₀) = some e) :
    ({ g with recvErr := some (g.recvErr.getD e₀), rcv := .fail .sigData } : Signals).failing e .sigData ∨
      e.received = false ∧ g.recvErr = some e := by
  cases hr : e.received with
  | true => exact Or.inl (by unfold Signals.failing; rw [if_pos hr])
  | false =>
    refine Or.inr ⟨rfl, ?_⟩
    cases hg : g.recvErr with
    | none =>
      rw [hg] at h
      cases h
      exact absurd (h₀.symm.trans hr) (by decide)
    | some e₁ =>
      rw [hg] at h
      exact h

theorem Signals.failing_maintFails {e₀ : ConnErr} (h₀ : e₀.received = false) (h : some (g.recvErr.getD e₀) = some e) :
    ({ g with recvErr := some (g.recvErr.getD e₀), mnt := .fail .sigData } : Signals).failing e .sigData ∨
      e.received = true ∧ g.recvErr = some e := by
  cases hr : e.received with
  | false => exact Or.inl (by unfold Signals.failing; rw [if_neg (by rw [hr]; exact Bool.false_ne_true)])
  | true =>
    refine Or.inr ⟨rfl, ?_⟩
    cases hg : g.recvErr with
    | none =>
      rw [hg] at h
      cases h
      exact absurd (h₀.symm.trans hr) (by decide)
    | some e₁ =>
      rw [hg] at h
      exact h

/-- The first of its two signals is out, the second comes next. -/
theorem Signals.failing_recvFailsData (h : g.failing e .sigData ∨ g.failing e .sigFlow) :
    ({ g with dataSig := true, rcv := .fail .sigFlow } : Signals).failing e .sigData ∨
      ({ g with dataSig := true, rcv := .fail .sigFlow } : Signals).failing e .sigFlow := by
  unfold Signals.failing at h ⊢
  split
  · exact Or.inr rfl
  · rename_i hrec
    rwa [if_neg hrec, if_neg hrec] at h

theorem Signals.failing_maintFailsData (h : g.failing e .sigData ∨ g.failing e .sigFlow) :
    ({ g with dataSig := true, mnt := .fail .sigFlow } : Signals).failing e .sigData ∨
      ({ g with dataSig := true, mnt := .fail .sigFlow } : Signals).failing e .sigFlow := by
  unfold Signals.failing at h ⊢
  split
  · rename_i hrec
    rwa [if_pos hrec, if_pos hrec] at h
  · exact Or.inr rfl

theorem Signals.Inv.readErr_step (hi : g.Inv) (hs : Signals.Step g w g') :
    g'.rd.asleep = true → ∀ e, g'.recvErr = some e → g'.dataSig = true ∨ g'.failing e .sigData := by
  have hrcv : ∀ q, g.rcv ≠ .fail .sigData → g.rd.asleep = true → ∀ e, g.recvErr = some e →
      g.dataSig = true ∨ ({ g with rcv := q } : Signals).failing e .sigData := fun q hq hw e he =>
    (hi.readErr hw e he).imp id (Signals.failing_rcv q hq)
  have hmnt : ∀ q, g.mnt ≠ .fail .sigData → g.rd.asleep = true → ∀ e, g.recvErr = some e →
      g.dataSig = true ∨ ({ g with mnt := q } : Signals).failing e .sigData := fun q hq hw e he =>
    (hi.readErr hw e he).imp id (Signals.failing_mnt q hq)
  cases hs with
  | quiet | write | measure | full | parkW | wokenW | set | wakeFlow => exact hi.readErr
  | read p hp | take p buf hp | woken p hp => exact fun hw => absurd hw (by rw [hp]; exact Bool.false_ne_true)
  | sleep n _ herr _ =>
    intro _ e he
    exact absurd (herr.symm.trans he) (fun h => by cases h)
  | park n d hrd => exact fun _ => hi.readErr (by rw [hrd]; rfl)
  | recv q ho | data buf eof ho | ack room v ho => exact hrcv _ (RecvPc.ne_fail ho (Or.inl rfl))
  | reap v hr | sigFlow hr | recvFailsFlow hr => exact hrcv _ (by rw [hr]; exact fun h => by cases h)
  | maint q ho => exact hmnt q (MaintPc.ne_fail ho (Or.inl rfl))
  | maintFailsFlow hm => exact hmnt _ (by rw [hm]; exact fun h => by cases h)
  | sigData | recvFailsData | maintFailsData | wakeData => exact fun _ _ _ => Or.inl rfl
  | recvFails e₀ hr =>
    intro hw e he
    rcases Signals.failing_recvFails (hi.recvErr e₀ hr) he with hf | ⟨-, hg⟩
    · exact Or.inr hf
    · exact hrcv _ (by rw [hr]; exact fun h => by cases h) hw e hg
  | maintFails e₀ hm =>
    intro hw e he
    rcases Signals.failing_maintFails (hi.maintErr e₀ hm) he with hf | ⟨-, hg⟩
    · exact Or.inr hf
    · exact hmnt _ (by rw [hm]; exact fun h => by cases h) hw e hg

theorem Signals.Inv.writeErr_step (hi : g.Inv) (hs : Signals.Step g w g') :
    g'.wr.asleep = true → ∀ e, g'.recvErr = some e →
      g'.flowSig = true ∨ g'.failing e .sigData ∨ g'.failing e .sigFlow := by
  have hrcv : ∀ q, g.rcv ≠ .fail .sigData → g.rcv ≠ .fail .sigFlow → g.wr.asleep = true → ∀ e, g.recvErr = some e →
      g.flowSig = true ∨ ({ g with rcv := q } : Signals).failing e .sigData ∨
        ({ g with rcv := q } : Signals).failing e .sigFlow := fun q h1 h2 hw e he =>
    (hi.writeErr hw e he).imp id (Or.imp (Signals.failing_rcv q h1) (Signals.failing_rcv q h2))
  have hmnt : ∀ q, g.mnt ≠ .fail .sigData → g.mnt ≠ .fail .sigFlow → g.wr.asleep = true → ∀ e, g.recvErr = some e →
      g.flowSig = true ∨ ({ g with mnt := q } : Signals).failing e .sigData ∨
        ({ g with mnt := q } : Signals).failing e .sigFlow := fun q h1 h2 hw e he =>
    (hi.writeErr hw e he).imp id (Or.imp (Signals.failing_mnt q h1) (Signals.failing_mnt q h2))
  -- a `Write` that has room or is on its way is not asleep
  have hawake : ∀ {q : WritePc}, q.short = false → q.asleep = true → False := by
    intro q hq hw
    rw [WritePc.short_of_asleep hw] at hq
    cases hq
  cases hs with
  | quiet | read | take | sleep | park | woken | set | wakeData => exact hi.writeErr
  | write q room hq | wokenW q hq => exact fun hw => absurd hw (hawake hq)
  | measure => exact fun hw => by cases hw
  | full sent rest _ herr =>
    intro _ e he
    exact absurd (herr.symm.trans he) (fun h => by cases h)
  | parkW sent rest d hwr => exact fun _ => hi.writeErr (by rw [hwr]; rfl)
  | recv q ho | data buf eof ho | ack room v ho =>
    exact hrcv _ (RecvPc.ne_fail ho (Or.inl rfl)) (RecvPc.ne_fail ho (Or.inr rfl))
  | reap v hr | sigData hr =>
    exact hrcv _ (by rw [hr]; exact fun h => by cases h) (by rw [hr]; exact fun h => by cases h)
  | maint q ho => exact hmnt q (MaintPc.ne_fail ho (Or.inl rfl)) (MaintPc.ne_fail ho (Or.inr rfl))
  | sigFlow | recvFailsFlow | maintFailsFlow | wakeFlow => exact fun _ _ _ => Or.inl rfl
  | recvFails e₀ hr =>
    intro hw e he
    rcases Signals.failing_recvFails (hi.recvErr e₀ hr) he with hf | ⟨-, hg⟩
    · exact Or.inr (Or.inl hf)
    · exact hrcv _ (by rw [hr]; exact fun h => by cases h) (by rw [hr]; exact fun h => by cases h) hw e hg
  | maintFails e₀ hm =>
    intro hw e he
    rcases Signals.failing_maintFails (hi.maintErr e₀ hm) he with hf | ⟨-, hg⟩
    · exact Or.inr (Or.inl hf)
    · exact hmnt _ (by rw [hm]; exact fun h => by cases h) (by rw [hm]; exact fun h => by cases h) hw e hg
  | recvFailsData => exact fun hw e he => (hi.writeErr hw e he).imp id Signals.failing_recvFailsData
  | maintFailsData => exact fun hw e he => (hi.writeErr hw e he).imp id Signals.failing_maintFailsData

theorem Signals.Inv.room_step (hi : g.Inv) (hs : Signals.Step g w g') :
    g'.wr.short = true → 0 < g'.room → g'.flowSig = true ∨ g'.rcv.freeing = true := by
  have htoken : g.rcv.freeing = false → g.wr.short = true → 0 < g.room → g.flowSig = true := by
    intro hf hw hr
    rcases hi.room hw hr with h | h
    · exact h
    · rw [hf] at h; cases h
  cases hs with
  | quiet | read | take | sleep | park | woken | maint | maintFails | maintFailsData | set | wakeData => exact hi.room
  | write q room hq | wokenW q hq => exact fun hw => absurd hw (by rw [hq]; exact Bool.false_ne_true)
  | measure sent rest closed =>
    -- the room it goes by is the room there is
    intro hw hr
    exact absurd hr (of_decide_eq_true hw)
  | full sent rest hwr _ => exact fun _ => hi.room hwr
  | parkW sent rest d hwr => exact fun _ => hi.room (by rw [hwr]; rfl)
  | recv q ho | data buf eof ho => exact fun hw hr => Or.inl (htoken (RecvPc.freeing_of_owes ho) hw hr)
  | ack | reap => exact fun _ _ => Or.inr rfl
  | sigData hr | recvFails e hr | recvFailsData hr => exact fun hw h => Or.inl (htoken (by rw [hr]; rfl) hw h)
  | sigFlow | recvFailsFlow | maintFailsFlow | wakeFlow => exact fun _ _ => Or.inl rfl

theorem Signals.Inv.step (hi : g.Inv) (hs : Signals.Step g w g') : g'.Inv := by
  refine ⟨hi.data_step hs, hi.readErr_step hs, hi.room_step hs, hi.writeErr_step hs, ?_, ?_⟩
  · cases hs with
    | recv q _ _ hq => exact hq
    | data | ack | reap | sigData | sigFlow | recvFails | recvFailsData | recvFailsFlow => exact fun e h => by cases h
    | _ => exact hi.recvErr
  · cases hs with
    | maint q _ _ hq => exact hq
    | maintFails | maintFailsData | maintFailsFlow => exact fun e h => by cases h
    | _ => exact hi.maintErr

theorem Signals.Inv.start (p : Params) (idle : Nat) : ({ params := p, idleTimeout := idle } : Conn).signals.Inv :=
  ⟨fun h => (by cases h), fun h => (by cases h), fun h => (by cases h), fun h => (by cases h), fun e h => (by cases h),
    fun e h => (by cases h)⟩

end

/-! ## Deadlines -/

/-- What a `SetDeadline` call in its `wake` has changed: the read deadline since `Read` armed its timer, the write
deadline since `Write` armed its. -/
structure Mark where
  read  : Bool
  write : Bool
  deriving DecidableEq

/-- An endpoint with the marks of the calls in `setters`, and whether the deadlines have been set since the timers were
armed. -/
structure Watched where
  conn    : Conn
  marks   : List Mark
  rdMoved : Bool
  wrMoved : Bool
  deriving DecidableEq

namespace Watched

def start (p : Params) (idle : Nat) : Watched := ⟨{ params := p, idleTimeout := idle }, [], false, false⟩

/-- The history after a step to `c`. -/
def after (w : Watched) (c : Conn) : Act → Watched
  | .read _ =>
    match w.conn.rd with
    | .arm _ => { w with conn := c, marks := w.marks.map (fun m => { m with read := false }), rdMoved := false }
    | _ => { w with conn := c }
  | .write _ =>
    match w.conn.wr with
    | .arm _ _ => { w with conn := c, marks := w.marks.map (fun m => { m with write := false }), wrMoved := false }
    | _ => { w with conn := c }
  | .deadline (.set read write _) =>
    ⟨c, w.marks ++ [⟨read, write⟩], w.rdMoved || read, w.wrMoved || write⟩
  | .deadline (.sig k) =>
    match w.conn.setters[k]? with
    | some .sigFlow => { w with conn := c, marks := w.marks.eraseIdx k }
    | _ => { w with conn := c }
  | .hand _ | .close _ | .recv _ | .maint _ => { w with conn := c }

def step (w : Watched) (a : Act) : Option Watched := (w.conn.step a).map (fun p => w.after p.1 a)

/-- A call that has changed the read deadline since `Read` armed its timer has still to signal `Read`. -/
def NudgesRead (w : Watched) : Prop :=
  ∃ (k : Nat) (m : Mark), w.marks[k]? = some m ∧ m.read = true ∧ w.conn.setters[k]? = some .sigData

/-- A call that has changed the write deadline since `Write` armed its timer is still in its `wake`; the signal to
`Write` is the last it makes. -/
def NudgesWrite (w : Watched) : Prop :=
  ∃ (k : Nat) (m : Mark) (pc : SetPc), w.marks[k]? = some m ∧ m.write = true ∧ w.conn.setters[k]? = some pc

structure Inv (w : Watched) : Prop where
  signals : w.conn.signals.Inv
  length  : w.marks.length = w.conn.setters.length
  read    : ∀ n d, w.conn.rd = .parked n d → w.rdMoved = true → w.conn.dataSig = true ∨ w.NudgesRead
  write   : ∀ sent rest d, w.conn.wr = .parked sent rest d → w.wrMoved = true → w.conn.flowSig = true ∨ w.NudgesWrite
  up      : w.conn.rd ≠ .idle ∨ w.conn.wr ≠ .idle → w.conn.phase = .up

end Watched

section
variable {g g' : Signals}

theorem Signals.Step.of_read (hs : Signals.Step g .read g') :
    (∀ n d, g'.rd = .parked n d → g.rd = .arm n) ∧ g'.wr = g.wr ∧ g'.flowSig = g.flowSig ∧ g'.setters = g.setters := by
  cases hs with
  | read p hp | take p buf hp | woken p hp =>
    refine ⟨fun n d h => ?_, rfl, rfl, rfl⟩
    obtain rfl : p = .parked n d := h
    cases hp
  | sleep n => exact ⟨fun n d h => (by cases h), rfl, rfl, rfl⟩
  | park n d hrd => exact ⟨fun n' d' h => (by cases h; exact hrd), rfl, rfl, rfl⟩

theorem Signals.Step.of_write (hs : Signals.Step g .write g') :
    (∀ sent rest d, g'.wr = .parked sent rest d → g.wr = .arm sent rest) ∧ g'.rd = g.rd ∧ g'.dataSig = g.dataSig ∧
      g'.setters = g.setters := by
  cases hs with
  | write p room hp | wokenW p hp =>
    refine ⟨fun sent rest d h => ?_, rfl, rfl, rfl⟩
    obtain rfl : p = .parked sent rest d := h
    cases hp
  | measure | full => exact ⟨fun _ _ d h => (by cases h), rfl, rfl, rfl⟩
  | parkW sent rest d hwr => exact ⟨fun _ _ d' h => (by cases h; exact hwr), rfl, rfl, rfl⟩

theorem Signals.Step.of_other (hs : Signals.Step g .other g') :
    g'.rd = g.rd ∧ g'.wr = g.wr ∧ g'.setters = g.setters ∧ (g.dataSig = true → g'.dataSig = true) ∧
      (g.flowSig = true → g'.flowSig = true) := by
  cases hs with
  | sigData | recvFailsData | maintFailsData => exact ⟨rfl, rfl, rfl, fun _ => rfl, id⟩
  | sigFlow | recvFailsFlow | maintFailsFlow => exact ⟨rfl, rfl, rfl, id, fun _ => rfl⟩
  | quiet | recv | data | ack | reap | recvFails | maint | maintFails => exact ⟨rfl, rfl, rfl, id, id⟩

end

namespace Watched

section
variable {w : Watched} {c : Conn} {call : Option Call}

/-- Before the handshake is done nobody reads or writes. -/
theorem step_down {c c' : Conn} {a : Act} (h : c.step a = some (c', call)) (hdown : c.phase ≠ .up) :
    c'.rd = c.rd ∧ c'.wr = c.wr := by
  obtain ⟨b, hs⟩ := Conn.step_not_up h hdown
  rw [hs.frame]
  exact ⟨rfl, rfl⟩

theorem step_deadline {c c' : Conn} {a : DeadlineAct} (h : c.step (.deadline a) = some (c', call)) :
    c.deadlineStep a = some (c', call) := by
  cases Conn.step_some h with
  | deadline _ hs => exact hs

theorem Inv.up_step {c' : Conn} {a : Act} (hi : w.Inv) (h : w.conn.step a = some (c', call)) :
    c'.rd ≠ .idle ∨ c'.wr ≠ .idle → c'.phase = .up := by
  by_cases hup : w.conn.phase = .up
  · exact fun _ => (step_core h).up hup
  · obtain ⟨hrd, hwr⟩ := step_down h hup
    rw [hrd, hwr]
    exact fun hb => absurd (hi.up hb) hup

/-- Marks are kept through the steps of the loops, of `Close` and of the handshake. -/
theorem Inv.other (hi : w.Inv) (hs : Signals.Step w.conn.signals .other c.signals)
    (hup : c.rd ≠ .idle ∨ c.wr ≠ .idle → c.phase = .up) : ({ w with conn := c } : Watched).Inv := by
  obtain ⟨hrd, hwr, hset, hd, hf⟩ := hs.of_other
  change c.rd = w.conn.rd at hrd
  change c.wr = w.conn.wr at hwr
  change c.setters = w.conn.setters at hset
  refine ⟨hi.signals.step hs, hi.length.trans (congrArg List.length hset).symm, fun n d h hm => ?_,
    fun sent rest d h hm => ?_, hup⟩
  · refine (hi.read n d (hrd.symm.trans h) hm).imp hd ?_
    rintro ⟨k, m, hk, hm, hpc⟩
    exact ⟨k, m, hk, hm, (congrArg (·[k]?) hset).trans hpc⟩
  · refine (hi.write sent rest d (hwr.symm.trans h) hm).imp hf ?_
    rintro ⟨k, m, pc, hk, hm, hpc⟩
    exact ⟨k, m, pc, hk, hm, (congrArg (·[k]?) hset).trans hpc⟩

theorem Inv.reader (hi : w.Inv) (hs : Signals.Step w.conn.signals .read c.signals)
    (hup : c.rd ≠ .idle ∨ c.wr ≠ .idle → c.phase = .up) (a : ReadAct) : (w.after c (.read a)).Inv := by
  obtain ⟨hrd, hwr, hf, hset⟩ := hs.of_read
  change c.wr = w.conn.wr at hwr
  change c.flowSig = w.conn.flowSig at hf
  change c.setters = w.conn.setters at hset
  simp only [after]
  split
  · -- the timer is armed now
    refine ⟨hi.signals.step hs, ?_, fun n d h hm => (by cases hm), fun sent rest d h hm => ?_, hup⟩
    · rw [List.length_map, hi.length, hset]
    · rcases hi.write sent rest d (hwr.symm.trans h) hm with h | ⟨k, m, pc, hk, hm, hpc⟩
      · exact Or.inl (hf.trans h)
      · refine Or.inr ⟨k, { m with read := false }, pc, ?_, hm, (congrArg (·[k]?) hset).trans hpc⟩
        rw [List.getElem?_map, hk]
        rfl
  · rename_i hnot
    refine ⟨hi.signals.step hs, hi.length.trans (congrArg List.length hset).symm, fun n d h => ?_,
      fun sent rest d h hm => ?_, hup⟩
    · exact absurd (hrd n d h) (hnot n)
    · refine (hi.write sent rest d (hwr.symm.trans h) hm).imp hf.trans ?_
      rintro ⟨k, m, pc, hk, hm, hpc⟩
      exact ⟨k, m, pc, hk, hm, (congrArg (·[k]?) hset).trans hpc⟩

theorem Inv.writer (hi : w.Inv) (hs : Signals.Step w.conn.signals .write c.signals)
    (hup : c.rd ≠ .idle ∨ c.wr ≠ .idle → c.phase = .up) (a : WriteAct) : (w.after c (.write a)).Inv := by
  obtain ⟨hwr, hrd, hd, hset⟩ := hs.of_write
  change c.rd = w.conn.rd at hrd
  change c.dataSig = w.conn.dataSig at hd
  change c.setters = w.conn.setters at hset
  simp only [after]
  split
  · refine ⟨hi.signals.step hs, ?_, fun n d h hm => ?_, fun sent rest d h hm => (by cases hm), hup⟩
    · rw [List.length_map, hi.length, hset]
    · rcases hi.read n d (hrd.symm.trans h) hm with h | ⟨k, m, hk, hm, hpc⟩
      · exact Or.inl (hd.trans h)
      · refine Or.inr ⟨k, { m with write := false }, ?_, hm, (congrArg (·[k]?) hset).trans hpc⟩
        rw [List.getElem?_map, hk]
        rfl
  · rename_i hnot
    refine ⟨hi.signals.step hs, hi.length.trans (congrArg List.length hset).symm, fun n d h hm => ?_,
      fun sent rest d h => ?_, hup⟩
    · refine (hi.read n d (hrd.symm.trans h) hm).imp hd.trans ?_
      rintro ⟨k, m, hk, hm, hpc⟩
      exact ⟨k, m, hk, hm, (congrArg (·[k]?) hset).trans hpc⟩
    · exact absurd (hwr sent rest d h) (hnot sent rest)

/-- A new call has its mark, and both its signals to make. -/
theorem Inv.set (hi : w.Inv) (read write : Bool) (t : Option Nat)
    (h : w.conn.deadlineStep (.set read write t) = some (c, call)) :
    (w.after c (.deadline (.set read write t))).Inv := by
  have hs := deadlineStep_signals h
  cases h
  have hlast : ∀ {α : Type} (l : List α) (x : α) (n : Nat), n = l.length → (l ++ [x])[n]? = some x := by
    rintro α l x n rfl
    exact List.getElem?_concat_length
  refine ⟨hi.signals.step hs, ?_, fun n d h hm => ?_, fun sent rest d h hm => ?_, hi.up⟩
  · show (w.marks ++ _).length = (w.conn.setters ++ _).length
    rw [List.length_append, List.length_append, hi.length]
    rfl
  · rcases Bool.or_eq_true_iff.1 hm with hm | hm
    · refine (hi.read n d h hm).imp id ?_
      rintro ⟨k, m, hk, hm, hpc⟩
      exact ⟨k, m, getElem?_concat_left hk, hm, getElem?_concat_left hpc⟩
    · exact Or.inr ⟨w.marks.length, _, List.getElem?_concat_length, hm, hlast _ _ _ hi.length⟩
  · rcases Bool.or_eq_true_iff.1 hm with hm | hm
    · refine (hi.write sent rest d h hm).imp id ?_
      rintro ⟨k, m, pc, hk, hm, hpc⟩
      exact ⟨k, m, pc, getElem?_concat_left hk, hm, getElem?_concat_left hpc⟩
    · exact Or.inr ⟨w.marks.length, _, _, List.getElem?_concat_length, hm, hlast _ _ _ hi.length⟩

/-- A call that has signalled `Read` has left it a token, and one that has signalled `Write` too is gone. -/
theorem Inv.sig (hi : w.Inv) (k : Nat) (h : w.conn.deadlineStep (.sig k) = some (c, call)) :
    (w.after c (.deadline (.sig k))).Inv := by
  have hs := deadlineStep_signals h
  simp only [Conn.deadlineStep] at h
  simp only [after]
  split at h
  · cases h
  · rename_i hk
    cases h
    rw [hk]
    refine ⟨hi.signals.step hs, hi.length.trans List.length_set.symm, fun _ _ _ _ => Or.inl rfl,
      fun sent rest d h hm => ?_, hi.up⟩
    refine (hi.write sent rest d h hm).imp id ?_
    rintro ⟨j, m, pc, hj, hm, hpc⟩
    by_cases hjk : k = j
    · subst hjk
      exact ⟨k, m, .sigFlow, hj, hm, List.getElem?_set_self (List.getElem?_eq_some_iff.1 hk).1⟩
    · exact ⟨j, m, pc, hj, hm, (List.getElem?_set_ne hjk).trans hpc⟩
  · rename_i hk
    cases h
    rw [hk]
    have hklt := (List.getElem?_eq_some_iff.1 hk).1
    refine ⟨hi.signals.step hs, ?_, fun n d h hm => ?_, fun _ _ _ _ _ => Or.inl rfl, hi.up⟩
    · show (w.marks.eraseIdx k).length = (w.conn.setters.eraseIdx k).length
      rw [List.length_eraseIdx_of_lt hklt, List.length_eraseIdx_of_lt (hi.length ▸ hklt), hi.length]
    · refine (hi.read n d h hm).imp id ?_
      rintro ⟨j, m, hj, hm, hpc⟩
      -- the call in question is another one, and moves up if it was behind
      have hjk : j ≠ k := by
        rintro rfl
        cases hk.symm.trans hpc
      by_cases hlt : j < k
      · exact ⟨j, m, (List.getElem?_eraseIdx_of_lt hlt).trans hj, hm, (List.getElem?_eraseIdx_of_lt hlt).trans hpc⟩
      · have hge : k ≤ j - 1 := by omega
        have hsucc : j - 1 + 1 = j := by omega
        refine ⟨j - 1, m, ?_, hm, ?_⟩
        · rw [List.getElem?_eraseIdx_of_ge hge, hsucc]
          exact hj
        · show (w.conn.setters.eraseIdx k)[j - 1]? = _
          rw [List.getElem?_eraseIdx_of_ge hge, hsucc]
          exact hpc

theorem Inv.step {w' : Watched} {a : Act} (hi : w.Inv) (h : w.step a = some w') : w'.Inv := by
  obtain ⟨⟨c, call⟩, hc, rfl⟩ := Option.map_eq_some_iff.1 h
  have hs := step_signals hc
  have hup := hi.up_step hc
  cases a with
  | hand a | close a | recv a | maint a => exact hi.other hs hup
  | read a => exact hi.reader hs hup a
  | write a => exact hi.writer hs hup a
  | deadline a =>
    cases a with
    | set read write t => exact hi.set read write t (step_deadline hc)
    | sig k => exact hi.sig k (step_deadline hc)

theorem Inv.start (p : Params) (idle : Nat) : (start p idle).Inv :=
  ⟨Signals.Inv.start p idle, rfl, fun _ _ h => (by cases h), fun _ _ _ h => (by cases h),
    fun h => (by rcases h with h | h <;> exact absurd rfl h)⟩

end

/-- What is due to a parked `Read` or `Write`. -/
structure NoLostWakeup (w : Watched) : Prop where
  /-- Data or the end of the stream wakes a `Read`, -/
  data        : ∀ n d, w.conn.rd = .parked n d → w.conn.recvBuf ≠ [] ∨ w.conn.recvEOF = true →
    w.conn.dataSig = true ∨ w.conn.rcv = .sigData
  /-- an error does, `recvLoop`'s or `maintLoop`'s, -/
  readErr     : ∀ n d e, w.conn.rd = .parked n d → w.conn.recvErr = some e →
    w.conn.dataSig = true ∨ w.conn.signals.failing e .sigData
  /-- and a new read deadline. -/
  readDdl     : ∀ n d, w.conn.rd = .parked n d → w.rdMoved = true → w.conn.dataSig = true ∨ w.NudgesRead
  /-- Room in the window wakes a `Write`, -/
  room        : ∀ sent rest d, w.conn.wr = .parked sent rest d → 0 < w.conn.room →
    w.conn.flowSig = true ∨ (∃ v, w.conn.rcv = .reap v) ∨ w.conn.rcv = .sigFlow
  /-- an error does, -/
  writeErr    : ∀ sent rest d e, w.conn.wr = .parked sent rest d → w.conn.recvErr = some e →
    w.conn.flowSig = true ∨ w.conn.signals.failing e .sigData ∨ w.conn.signals.failing e .sigFlow
  /-- and a new write deadline. -/
  writeDdl    : ∀ sent rest d, w.conn.wr = .parked sent rest d → w.wrMoved = true →
    w.conn.flowSig = true ∨ w.NudgesWrite
  /-- After `Close` has closed `closed` both can return, -/
  closedRead  : ∀ n d, w.conn.rd = .parked n d → w.conn.closed = true →
    w.conn.step (.read .closed) = some (w.conn.readReturn (.err .closed), none)
  closedWrite : ∀ sent rest d, w.conn.wr = .parked sent rest d → w.conn.closed = true →
    w.conn.step (.write .closed) = some (w.conn.writeReturn sent (some .closed), none)

theorem Inv.noLostWakeup {w : Watched} (hi : w.Inv) : NoLostWakeup w where
  data n d hrd := hi.signals.data (by show w.conn.rd.asleep = true; rw [hrd]; rfl)
  readErr n d e hrd := hi.signals.readErr (by show w.conn.rd.asleep = true; rw [hrd]; rfl) e
  readDdl := hi.read
  room sent rest d hwr hroom := by
    refine (hi.signals.room (by show w.conn.wr.short = true; rw [hwr]; rfl) hroom).imp id (fun hf => ?_)
    change w.conn.rcv.freeing = true at hf
    cases hr : w.conn.rcv with
    | reap v => exact Or.inl ⟨v, rfl⟩
    | sigFlow => exact Or.inr rfl
    | top | next | dispatch | sigData | fail | poll | done => rw [hr] at hf; cases hf
  writeErr sent rest d e hwr := hi.signals.writeErr (by show w.conn.wr.asleep = true; rw [hwr]; rfl) e
  writeDdl := hi.write
  closedRead n d hrd hcl := by
    have hup : w.conn.phase = .up := hi.up (Or.inl (by rw [hrd]; exact fun h => by cases h))
    simp only [Conn.step, hup, Conn.readStep, hrd, hcl, if_true]
  closedWrite sent rest d hwr hcl := by
    have hup : w.conn.phase = .up := hi.up (Or.inr (by rw [hwr]; exact fun h => by cases h))
    simp only [Conn.step, hup, Conn.writeStep, hwr, hcl, if_true]

end Watched

/-- **No wake-up is lost**, in any run of an endpoint, whatever its reader returns and its appends do. -/
theorem no_lost_wakeup (p : Params) (idle : Nat) (as : List Act) (w : Watched)
    (hr : run Watched.step (Watched.start p idle) as = some w) : w.NoLostWakeup :=
  (Machine.inv_of_step (fun _ _ _ hi h => hi.step h) as _ w (Watched.Inv.start p idle) hr).noLostWakeup

/-- A `Read` parks with no deadline; one is set, and a byte arrives. -/
def parkedRead : List Act :=
  [.hand (.openW true), .hand (.syn true), .hand (.turn (.frame narrow.syn) 0), .read (.call 1), .read (.go true),
   .read (.go true), .deadline (.set true false (some 9)), .recv .go, .recv
     (.turn (.frame ⟨frameDATA, 0, 1, 0, [7]⟩) 0),
   .recv .go]

theorem no_lost_wakeup_parked :
    ∃ w, run Watched.step (Watched.start narrow 5) parkedRead = some w ∧ w.conn.rd = .parked 1 none ∧
      w.conn.recvBuf = [7] ∧ w.rdMoved = true ∧ w.conn.dataSig = false ∧ w.NoLostWakeup :=
  ⟨_, rfl, rfl, rfl, rfl, rfl, no_lost_wakeup narrow 5 parkedRead _ rfl⟩

end Fstun
end Ccb
