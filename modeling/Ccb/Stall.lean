import Ccb.EndOfStream
/-!
# Stall — a drained reader and a full window

The reader acknowledges on the data path when it has consumed a quarter of *its own* window since its last
acknowledgement; the writer waits for a window of its own.  Without ticks of `maintLoop` these are the only
acknowledgements.  When a quarter of the reader's window fits into the writer's, a reader that has returned every byte
sent has acknowledged enough of them to leave the writer room (`no_stall`); when it does not, the writer may wait for an
acknowledgement that is not due (`quarter_window_stalls`).
-/
namespace Ccb
namespace Fstun

/-- **Nothing is under way from `r` or to it, its peer has returned every byte of the log, and it has no room.** -/
structure Stalled (s : Pipe fifo) (r : Role) : Prop where
  dispatched : ∀ q, (s.dir q).pos = (s.dir q).log.length ∧ (s.conn q).rcv.hand = none
  drained    : (s.conn r.peer).returned = dataOf (s.dir r).log
  full       : (s.conn r).room = 0

/-! ## What a step leaves and what it adds -/

section
variable {k k' : Core} {call : Option Call}

theorem Core.Step.taken_le (h : Core.Step k call k') : k.taken.length ≤ k'.taken.length := by
  cases h
  case take n _ _ => simp
  all_goals exact Nat.le_refl _

/-- When no append fails, every byte counted as sent is reported as written. -/
theorem Core.Step.written_length (h : Core.Step k call k') (hok : ∀ f e ok, call = some (.append f e ok) → ok = true)
    (hk : k.sentTotal = k.written.length) : k'.sentTotal = k'.written.length := by
  cases h
  case sendData sent rest room ok wr _ _ _ _ _ =>
    cases hok _ _ _ rfl
    show k.sentTotal + _ = (k.written ++ _).length
    rw [List.length_append, hk]
  all_goals exact hk

end

/-- What a call of the other side leaves of a direction's log. -/
theorem Fifo.Moved.out_log {out inp out' inp' : Fifo} {call : Option Call} (h : Moved out inp call out' inp') :
    out'.pos = out.pos ∧ out.log <+: out'.log := by
  cases h
  case sent f e => exact ⟨rfl, List.prefix_append _ _⟩
  all_goals exact ⟨rfl, List.prefix_refl _⟩

theorem Fifo.Moved.inp_log {out inp out' inp' : Fifo} {call : Option Call} (h : Moved out inp call out' inp') :
    inp'.log = inp.log := by
  cases h <;> rfl

/-! ## The writer's side -/

/-- The acknowledgements returned to `S` are in its `peerAck`, the one in hand apart. -/
structure Heard (S : Core) (E : Fifo) : Prop where
  early : S.phase ≠ .up → S.sentTotal = 0
  acks  : S.phase.failing = false → ∀ f ∈ E.log.take E.pos, f.typ = frameACK →
    ∀ v, decodeUint64 f.payload = some v → v ≤ S.peerAck ∨ S.hand = some f

section
variable {S S' : Core} {D E D' E' : Fifo} {call : Option Call}

theorem Heard.keep (h : Heard S E) (hp : S'.phase = S.phase) (ht : S.phase = .up ∨ S'.sentTotal = S.sentTotal)
    (ha : S'.peerAck = S.peerAck) (hh : S'.hand = S.hand) : Heard S' E := by
  refine ⟨fun hup => ?_, by rw [hp, ha, hh]; exact h.acks⟩
  rw [hp] at hup
  rcases ht with ht | ht
  · exact absurd ht hup
  · rw [ht]; exact h.early hup

/-- The frame in hand is dispatched: an acknowledgement raises `peerAck`, another frame is none. -/
theorem Heard.dispatch (h : Heard S E) {f : Frame} (hf : S.hand = some f) (hp : S'.phase = S.phase)
    (hup : S.phase = .up) (ha : S.peerAck ≤ S'.peerAck)
    (hv : f.typ = frameACK → ∀ v, decodeUint64 f.payload = some v → v ≤ S'.peerAck) : Heard S' E := by
  refine ⟨fun hne => absurd (hp.trans hup) hne, fun hfail g hg ht v hd => Or.inl ?_⟩
  rw [hp] at hfail
  rcases h.acks hfail g hg ht v hd with hle | hhand
  · exact UInt64.le_trans hle ha
  · rw [hf] at hhand
    cases hhand
    exact hv ht v hd

/-- One more frame is returned. -/
theorem Heard.next (h : Heard S E) {f : Frame} (hat : E.log[E.pos]? = some f)
    (hearly : S'.phase ≠ .up → S'.sentTotal = 0) (hp : S'.phase.failing = false → S.phase.failing = false)
    (ha : S'.peerAck = S.peerAck) (hnone : S.hand = none)
    (hf : S'.phase.failing = false → f.typ = frameACK → S'.hand = some f) : Heard S' { E with pos := E.pos + 1 } := by
  refine ⟨hearly, fun hfail g hg ht v hd => ?_⟩
  change g ∈ E.log.take (E.pos + 1) at hg
  rw [List.take_add_one, hat] at hg
  rcases List.mem_append.1 hg with hg | hg
  · rcases h.acks (hp hfail) g hg ht v hd with hle | hhand
    · rw [ha]; exact Or.inl hle
    · rw [hnone] at hhand; cases hhand
  · cases List.mem_singleton.1 hg
    exact Or.inr (hf hfail ht)

theorem Heard.sender (h : Heard S E) (hbefore : S.phase ≠ .up → S.hand = none) (hs : Core.Step S call S')
    (hm : Fifo.Moved D E call D' E') : Heard S' E' := by
  cases hs with
  | phase ph _ hup hph hfail hpl =>
    obtain ⟨-, rfl⟩ := hm.still (fun x hx => Or.inl (hpl x hx))
    refine ⟨fun _ => h.early hup, fun hf => h.acks ?_⟩
    cases hS : S.phase.failing with
    | false => rfl
    | true => rw [hfail hS] at hf; cases hf
  | syn ok hp =>
    obtain ⟨-, rfl⟩ := hm.append
    have hup : S.phase ≠ .up := by rw [hp]; exact fun h => by cases h
    exact ⟨fun _ => h.early hup, fun _ => h.acks (by rw [hp]; rfl)⟩
  | hello f hp hf =>
    obtain ⟨-, hat, rfl⟩ := hm.frame
    have hup : S.phase ≠ .up := by rw [hp]; exact fun h => by cases h
    refine h.next hat (fun hne => absurd rfl hne) (fun _ => by rw [hp]; rfl) rfl (hbefore hup) (fun _ ht => ?_)
    rw [hf] at ht
    cases ht
  | refuse f hp =>
    obtain ⟨-, hat, rfl⟩ := hm.frame
    have hup : S.phase ≠ .up := by rw [hp]; exact fun h => by cases h
    exact h.next hat (fun _ => h.early hup) (fun hf => by cases hf) rfl (hbefore hup) (fun hf => by cases hf)
  | frame f hup hn =>
    obtain ⟨-, hat, rfl⟩ := hm.frame
    exact h.next hat (fun hne => absurd hup hne) id rfl hn (fun _ _ => rfl)
  | data f hup hn hf =>
    obtain ⟨-, rfl⟩ := hm.still (fun x hx => by cases hx)
    exact h.dispatch hn rfl hup (UInt64.le_refl _) (fun ht => by rw [hf] at ht; cases ht)
  | fin f hup hn hf =>
    obtain ⟨-, rfl⟩ := hm.still (fun x hx => by cases hx)
    exact h.dispatch hn rfl hup (UInt64.le_refl _) (fun ht => by rw [hf] at ht; cases ht)
  | other f hup hn _ _ hnone =>
    obtain ⟨-, rfl⟩ := hm.still (fun x hx => by cases hx)
    exact h.dispatch hn rfl hup (UInt64.le_refl _) (fun ht v hv => by rw [hnone ht] at hv; cases hv)
  | ack f v hup hn hf hv =>
    obtain ⟨-, rfl⟩ := hm.still (fun x hx => by cases hx)
    refine h.dispatch hn rfl hup ?_ (fun _ w hw => ?_)
    · show S.peerAck ≤ if S.peerAck < v then v else S.peerAck
      split
      · rename_i hlt; exact UInt64.le_of_lt hlt
      · exact UInt64.le_refl _
    · rw [hv] at hw
      cases hw
      show v ≤ if S.peerAck < v then v else S.peerAck
      split
      · exact UInt64.le_refl _
      · rename_i hge; exact UInt64.not_lt.1 hge
  | sendData _ _ _ _ _ hup =>
    obtain ⟨-, rfl⟩ := hm.append
    exact h.keep rfl (Or.inl hup) rfl rfl
  | sendAck | sendBeat | sendFin =>
    obtain ⟨-, rfl⟩ := hm.append
    exact h.keep rfl (Or.inr rfl) rfl rfl
  | closeLate _ _ _ _ _ hpl =>
    obtain ⟨-, rfl⟩ := hm.still (fun x hx => Or.inl (hpl x hx))
    exact h.keep rfl (Or.inr rfl) rfl rfl
  | next t _ hpl =>
    obtain ⟨-, rfl⟩ := hm.still (fun x hx => by cases hx; exact Or.inl hpl)
    exact h
  | reap v =>
    obtain ⟨-, rfl⟩ := hm.still (fun x hx => by cases hx; exact Or.inr ⟨v, rfl⟩)
    exact h.keep rfl (Or.inr rfl) rfl rfl
  | quiet | take | eof | acks | write | writeCall | measure | pass | close | closeSet =>
    obtain ⟨-, rfl⟩ := hm.still (fun x hx => by cases hx)
    exact h.keep rfl (Or.inr rfl) rfl rfl

/-- The reader's own frames do not change what has been returned to the writer. -/
theorem Heard.receiver (h : Heard S E) (hpos : E.pos ≤ E.log.length) (hm : Fifo.Moved E D call E' D') : Heard S E' := by
  obtain ⟨hp, t, ht⟩ := hm.out_log
  refine ⟨h.early, ?_⟩
  rw [hp, ← ht, List.take_append_of_le_length hpos]
  exact h.acks

end

/-! ## The reader's side -/

/-- Acknowledgement `v` is in the log. -/
def Fifo.Acks (E : Fifo) (v : UInt64) : Prop := ∃ f ∈ E.log, f.typ = frameACK ∧ decodeUint64 f.payload = some v

/-- `maybeAck` has nothing to send: less than a quarter of the window, or nothing, since the last acknowledgement. -/
def Conn.AckSettled (c : Conn) : Prop :=
  c.recvData - c.lastAckSent < c.params.window / 4 ∨ c.recvData = c.lastAckSent

/-- The acknowledgements of a reader without ticks: the last one recorded was sent, a `Read` that is acknowledging goes
by the current count, and between Reads nothing is due. -/
structure AckRule (c : Conn) (E : Fifo) : Prop where
  wait    : c.mnt = .wait ∨ c.mnt = .done
  known   : c.lastAckSent = 0 ∨ E.Acks c.lastAckSent
  le      : c.lastAckSent ≤ c.recvData
  pc      : ∀ data p, c.rd = .ack data p →
    p = .load ∨ p = .due c.recvData ∨ p = .emit c.recvData ∨ (p = .note c.recvData ∧ E.Acks c.recvData)
  settled : c.rd.held = [] → c.AckSettled

/-- A tick of `maintLoop`. -/
def Act.ticks : Act → Bool
  | .maint (.tick _) => true
  | _ => false

/-- The step is a `Read` whose acknowledgement is refused, its send side being closed. -/
def Conn.ackRefused (c : Conn) : Act → Bool
  | .read (.go _) => (match c.rd with | .ack _ (.emit _) => c.sendClosed | _ => false)
  | _ => false

section
variable {c c' : Conn} {D E D' E' : Fifo} {call : Option Call}

theorem Fifo.Acks.mono {v : UInt64} (h : E.Acks v) (hp : E.log <+: E'.log) : E'.Acks v := by
  obtain ⟨f, hf, h2⟩ := h
  exact ⟨f, hp.subset hf, h2⟩

theorem AckRule.congr (h : AckRule c E) (hp : E.log <+: E'.log) (hpar : c'.params = c.params) (hrd : c'.rd = c.rd)
    (hd : c'.recvData = c.recvData) (hl : c'.lastAckSent = c.lastAckSent) (hm : c'.mnt = .wait ∨ c'.mnt = .done) :
    AckRule c' E' := by
  refine ⟨hm, ?_, by rw [hl, hd]; exact h.le, ?_, ?_⟩
  · rw [hl]; exact h.known.imp id (·.mono hp)
  · intro data p hpc
    rw [hrd] at hpc
    rw [hd]
    rcases h.pc data p hpc with h1 | h1 | h1 | ⟨h1, h2⟩
    · exact .inl h1
    · exact .inr (.inl h1)
    · exact .inr (.inr (.inl h1))
    · exact .inr (.inr (.inr ⟨h1, h2.mono hp⟩))
  · unfold Conn.AckSettled
    rw [hrd, hd, hl, hpar]; exact h.settled

/-- A `Read` that is not acknowledging afterwards, where the counters stand. -/
theorem AckRule.leave (h : AckRule c E) (hp : E.log <+: E'.log) {p : ReadPc} (hpc : ∀ data q, p ≠ .ack data q)
    (hpar : c'.params = c.params) (hrd : c'.rd = p) (hd : c'.recvData = c.recvData)
    (hl : c'.lastAckSent = c.lastAckSent) (hm : c'.mnt = c.mnt) (hs : c.AckSettled) : AckRule c' E' := by
  refine ⟨by rw [hm]; exact h.wait, ?_, by rw [hl, hd]; exact h.le, fun data q hq => ?_, fun _ => ?_⟩
  · rw [hl]; exact h.known.imp id (·.mono hp)
  · rw [hrd] at hq; exact absurd hq (hpc data q)
  · unfold Conn.AckSettled
    rw [hd, hl, hpar]; exact hs

theorem AckRule.check (h : AckRule c E) {n : Nat} (hrd : c.rd = .check n)
    (hle : c.recvData ≤ (c.readCheck n).recvData) :
    AckRule (c.readCheck n) E := by
  have hset : c.AckSettled := h.settled (by rw [hrd]; rfl)
  unfold Conn.readCheck at hle ⊢
  split
  · rename_i hne
    rw [if_pos hne] at hle
    refine ⟨h.wait, h.known, UInt64.le_trans h.le hle, fun data p hp => ?_, fun hnil => ?_⟩
    · cases hp; exact .inl rfl
    · -- A `Read` into an empty buffer takes nothing.
      change c.recvBuf.take n = [] at hnil
      show c.recvData + UInt64.ofNat (c.recvBuf.take n).length - c.lastAckSent < c.params.window / 4 ∨
        c.recvData + UInt64.ofNat (c.recvBuf.take n).length = c.lastAckSent
      rw [hnil]
      simpa using (show c.recvData - c.lastAckSent < c.params.window / 4 ∨ c.recvData = c.lastAckSent from hset)
  · (repeat' split) <;> exact h.leave (List.prefix_refl _) (fun _ _ h => by cases h) rfl rfl rfl rfl rfl hset

theorem AckRule.ack (h : AckRule c E) {data : List UInt8} {p : AckPc} {ok : Bool} (hrd : c.rd = .ack data p)
    (hg : c.ackRefused (.read (.go ok)) = false) (hok : ∀ f e ok, call = some (.append f e ok) → ok = true) {c₁ : Conn}
    {q : Option AckPc} (hs : c.ackStep c.ackDue p ok = (c₁, q, call)) (hm : Fifo.Moved E D call E' D') :
    (∀ p', q = some p' → AckRule { c₁ with rd := .ack data p' } E') ∧
      (q = none → AckRule (c₁.readReturn (.data data)) E') := by
  have hpc := h.pc data p hrd
  cases p with
  | load =>
    cases hs
    obtain ⟨rfl, -⟩ := hm.still (fun x hx => by cases hx)
    refine ⟨fun p' hp' => ?_, (fun hq => by cases hq)⟩
    cases hp'
    refine ⟨h.wait, h.known, h.le, fun d q hq => ?_, fun hnil => h.settled (by rw [hrd]; exact hnil)⟩
    cases hq; exact .inr (.inl rfl)
  | due rd =>
    obtain rfl : rd = c.recvData := by
      rcases hpc with hpc | hpc | hpc | ⟨hpc, -⟩ <;> cases hpc; rfl
    cases hs
    obtain ⟨rfl, -⟩ := hm.still (fun x hx => by cases hx)
    refine ⟨fun p' hp' => ?_, fun hq => ?_⟩
    · split at hp' <;> cases hp'
      refine ⟨h.wait, h.known, h.le, fun d q hq => ?_, fun hnil => h.settled (by rw [hrd]; exact hnil)⟩
      cases hq; exact .inr (.inr (.inl rfl))
    · split at hq
      · cases hq
      · rename_i hdue
        have hlt : c.recvData - c.lastAckSent < c.params.window / 4 :=
          UInt64.not_le.1 (fun hle => hdue (decide_eq_true hle))
        exact h.leave (List.prefix_refl _) (p := .idle) (fun _ _ h => by cases h) rfl rfl rfl rfl rfl (.inl hlt)
  | emit rd =>
    obtain rfl : rd = c.recvData := by
      rcases hpc with hpc | hpc | hpc | ⟨hpc, -⟩ <;> cases hpc; rfl
    have hcl : c.sendClosed = false := by
      unfold Conn.ackRefused at hg
      rw [hrd] at hg
      exact hg
    have he : c.emit frameACK (encodeUint64 c.recvData) ok = (c.stamp frameACK (encodeUint64 c.recvData),
        some (.append (c.core.frame frameACK (encodeUint64 c.recvData))
          (c.stamp frameACK (encodeUint64 c.recvData)).sentData ok), ok) := by
      unfold Conn.emit
      rw [if_neg (by simp [hcl])]
      rfl
    simp only [Conn.ackStep] at hs
    rw [he] at hs
    cases hs
    cases hok _ _ _ rfl
    obtain ⟨rfl, -⟩ := hm.append
    have hpre : E.log <+: E.log ++ [c.core.frame frameACK (encodeUint64 c.recvData)] := List.prefix_append _ _
    have hsent : Fifo.Acks { E with log := E.log ++ [c.core.frame frameACK (encodeUint64 c.recvData)] } c.recvData :=
      ⟨_, List.mem_append_right _ (List.mem_singleton.2 rfl), rfl, decodeUint64_encode _⟩
    refine ⟨fun p' hp' => ?_, (fun hq => by cases hq)⟩
    cases hp'
    rw [stamp_of_ne _ (by decide)]
    refine ⟨h.wait, h.known.imp id (·.mono hpre), h.le, fun d q hq => ?_,
      fun hnil => h.settled (by rw [hrd]; exact hnil)⟩
    cases hq
    exact .inr (.inr (.inr ⟨rfl, hsent⟩))
  | note rd =>
    obtain ⟨rfl, hack⟩ : rd = c.recvData ∧ E.Acks c.recvData := by
      rcases hpc with hpc | hpc | hpc | ⟨hpc, hack⟩ <;> cases hpc
      exact ⟨rfl, hack⟩
    cases hs
    obtain ⟨rfl, -⟩ := hm.still (fun x hx => by cases hx)
    refine ⟨(fun p' hp' => by cases hp'), fun _ => ?_⟩
    have hlast : (if c.lastAckSent < c.recvData then c.recvData else c.lastAckSent) = c.recvData := by
      split
      · rfl
      · rename_i hnlt; exact UInt64.le_antisymm h.le (UInt64.not_lt.1 hnlt)
    rw [hlast]
    exact ⟨h.wait, .inr hack, UInt64.le_refl _, (fun d q hq => by cases hq), fun _ => .inr rfl⟩

theorem AckRule.read {a : ReadAct} (h : AckRule c E) (hg : c.ackRefused (.read a) = false)
    (hok : ∀ f e ok, call = some (.append f e ok) → ok = true) (hle : c.recvData ≤ c'.recvData)
    (hs : c.readStep a = some (c', call)) (hm : Fifo.Moved E D call E' D') : AckRule c' E' := by
  -- A `Read` at `q`, where it holds nothing, moves to `p` and appends nothing.
  have hmove : ∀ {c₁ : Conn} {q : ReadPc} (p : ReadPc), c.rd = q → q.held = [] → (∀ data q, p ≠ .ack data q) →
      c₁.params = c.params → c₁.rd = p → c₁.recvData = c.recvData → c₁.lastAckSent = c.lastAckSent → c₁.mnt = c.mnt →
      Fifo.Moved E D none E' D' → AckRule c₁ E' := by
    intro c₁ q p hq hheld hp h1 h2 h3 h4 h5 hm
    obtain ⟨rfl, -⟩ := hm.still (fun x hx => by cases hx)
    exact h.leave (List.prefix_refl _) hp h1 h2 h3 h4 h5 (h.settled (by rw [hq]; exact hheld))
  cases Conn.readStep_some hs with
  | call n hrd => exact hmove (.check n) hrd rfl (fun _ _ h => by cases h) rfl rfl rfl rfl rfl hm
  | check n ok hrd =>
    obtain ⟨rfl, -⟩ := hm.still (fun x hx => by cases hx)
    exact h.check hrd hle
  | ack data p ok hrd hst => exact (h.ack hrd hg hok hst hm).1 _ rfl
  | acked data p ok hrd hst => exact (h.ack hrd hg hok hst hm).2 rfl
  | arm n ok hrd => exact hmove (.parked n c.rdDdl) hrd rfl (fun _ _ h => by cases h) rfl rfl rfl rfl rfl hm
  | wake n d hrd => exact hmove (.check n) hrd rfl (fun _ _ h => by cases h) rfl rfl rfl rfl rfl hm
  | timeout n d now hrd => exact hmove .idle hrd rfl (fun _ _ h => by cases h) rfl rfl rfl rfl rfl hm
  | closed n d hrd => exact hmove .idle hrd rfl (fun _ _ h => by cases h) rfl rfl rfl rfl rfl hm

theorem AckRule.step {a : Act} (h : AckRule c E) (htick : a.ticks = false) (hg : c.ackRefused a = false)
    (hok : ∀ f e ok, call = some (.append f e ok) → ok = true) (hle : c.recvData ≤ c'.recvData)
    (hs : c.step a = some (c', call)) (hm : Fifo.Moved E D call E' D') : AckRule c' E' := by
  have hpar : c'.params = c.params := (step_core hs).params
  have hpre := hm.out_log.2
  rcases step_inbound hs with ⟨b, rfl, hb⟩ | ⟨b, rfl, hb⟩ | ⟨b, rfl, hb⟩ | hk
  · exact h.read hg hok hle hb hm
  · have hk := recvStep_consuming hb
    simp only [Conn.consuming, Prod.mk.injEq] at hk
    obtain ⟨h1, -, h3, h4, h5⟩ := hk
    exact h.congr hpre hpar h1 h3 h4 (by rw [h5]; exact h.wait)
  · -- Without a tick `maintLoop` can only stop.
    rcases h.wait with hw | hw
    · cases b with
      | tick now => cases htick
      | go ok now => simp [Conn.maintStep, hw] at hb
      | stop =>
        simp only [Conn.maintStep, hw] at hb
        split at hb <;> cases hb
        exact h.congr hpre rfl rfl rfl rfl (.inr rfl)
    · cases b <;> simp [Conn.maintStep, hw] at hb
  · simp only [Conn.inbound, Prod.mk.injEq] at hk
    obtain ⟨h1, -, -, h4, h5, -, -, -, h9⟩ := hk
    exact h.congr hpre hpar h1 h4 h5 (by rw [h9]; exact h.wait)

end

/-! ## Runs -/

/-- Every append succeeds. -/
def AppendsOk (c : Conn) (a : Act) : Prop :=
  match c.step a with
  | some (_, some (.append _ _ ok)) => ok = true
  | _ => True

instance (c : Conn) (a : Act) : Decidable (AppendsOk c a) :=
  match h : c.step a with
  | some (_, some (.append _ _ ok)) => decidable_of_iff (ok = true) (by rw [AppendsOk, h])
  | some (_, some (.openW _)) | some (_, some (.reap _)) | some (_, some .closeW) | some (_, some (.next _))
  | some (_, some .closeR) | some (_, none) | none => .isTrue (by rw [AppendsOk, h]; trivial)

/-- The acknowledgements come from the data path only, and each that is due there is appended. -/
def AckPath (s : Pipe fifo) (l : Label fifo) : Prop :=
  l.act.ticks = false ∧ AppendsOk (s.conn l.role) l.act ∧ (s.conn l.role).ackRefused l.act = false

instance (s : Pipe fifo) (l : Label fifo) : Decidable (AckPath s l) := inferInstanceAs (Decidable (_ ∧ _ ∧ _))

/-- The direction from `S` to `R` with the acknowledgements that come back. -/
structure StallInv (S R : Conn) (D E : Fifo) : Prop where
  pipe    : PipeInv S.core R.core D E
  back    : PipeInv R.core S.core E D
  heard   : Heard S.core E
  written : S.sentTotal = S.written.length
  rule    : S.sentTotal < UInt64.size → AckRule R E

section
variable {S R S' R' : Conn} {D E D' E' : Fifo} {a : Act} {call : Option Call}

/-- The counter of a reader is what it has taken, below `2 ^ 64`. -/
theorem PipeInv.recvData_toNat (h : PipeInv S.core R.core D E) (hsize : S.sentTotal < UInt64.size) :
    R.recvData.toNat = R.taken.length := by
  have hle : R.taken.length ≤ S.sentTotal := h.flow.taken_le h.stream
  have hd : R.recvData = .ofNat R.taken.length := h.flow.recvData
  rw [hd, UInt64.toNat_ofNat_of_lt' (by omega)]

theorem AppendsOk.appended {c c' : Conn} (h : AppendsOk c a) (hs : c.step a = some (c', call)) :
    ∀ f e ok, call = some (.append f e ok) → ok = true := by
  rintro f e ok rfl
  unfold AppendsOk at h
  rw [hs] at h
  exact h

theorem StallInv.sender (h : StallInv S R D E) (hok : AppendsOk S a) (hs : S.step a = some (S', call))
    (hm : Fifo.Moved D E call D' E') : StallInv S' R D' E' := by
  have hcore := step_core hs
  refine ⟨h.pipe.sender hcore hm, h.back.receiver hcore hm, ?_, hcore.written_length (hok.appended hs) h.written,
    fun hsize => ?_⟩
  · exact h.heard.sender (fun hup => (h.back.stream.before hup).2.2) hcore hm
  · have hle : S.sentTotal ≤ S'.sentTotal := hcore.sentTotal_le
    have hr := h.rule (by omega)
    exact hr.congr ⟨[], by rw [List.append_nil, hm.inp_log]⟩ rfl rfl rfl rfl hr.wait

theorem StallInv.receiver (h : StallInv S R D E) (htick : a.ticks = false) (hok : AppendsOk R a)
    (hg : R.ackRefused a = false) (hs : R.step a = some (R', call)) (hm : Fifo.Moved E D call E' D') :
    StallInv S R' D' E' := by
  have hcore := step_core hs
  have hpipe := h.pipe.receiver hcore hm
  refine ⟨hpipe, h.back.sender hcore hm, h.heard.receiver h.back.stream.pos_le hm, h.written, fun hsize => ?_⟩
  refine (h.rule hsize).step htick hg (hok.appended hs) (UInt64.le_iff_toNat_le.2 ?_) hs hm
  rw [h.pipe.recvData_toNat hsize, hpipe.recvData_toNat hsize]
  exact hcore.taken_le

/-- **A writer whose peer has returned every byte has room**, when a quarter of the peer's window fits into its own. -/
theorem StallInv.room_pos (h : StallInv S R D E) (hsize : S.sentTotal < UInt64.size)
    (hquarter : R.params.window / 4 ≤ S.params.window) (hall : E.pos = E.log.length) (hhand : S.rcv.hand = none)
    (hret : R.returned = dataOf D.log) : 0 < S.room.toInt := by
  have hwin := h.pipe.window
  have hroom : S.room.toInt = (S.params.window.toNat : Int) - (S.sentTotal - S.peerAck.toNat : Nat) := by
    show (S.params.window.toInt64 - (S.sentData - S.peerAck).toInt64).toInt = _
    rw [hwin.sentData]
    have hout := h.pipe.flow.window
    exact room_eq S.params.window_lt (by have := hwin.acked; have := hwin.taken; have := hwin.sent; omega) hout
  have hpos := S.params.window_pos
  by_cases hup : S.phase = .up
  case neg =>
    have h0 : S.sentTotal = 0 := h.heard.early hup
    omega
  -- The bytes taken are those returned, and all that were sent.
  have htaken : R.taken.length = S.sentTotal ∧ R.rd.held = [] := by
    have hsent : dataOf D.log = S.written := h.pipe.stream.sent
    have hle : R.taken.length ≤ S.sentTotal := h.pipe.flow.taken_le h.pipe.stream
    have hlen : R.taken.length = R.returned.length + R.rd.held.length := List.length_append
    rw [hret, hsent, ← h.written] at hlen
    exact ⟨by omega, List.length_eq_zero_iff.1 (by omega)⟩
  obtain ⟨htaken, hheld⟩ := htaken
  have hrule := h.rule hsize
  have hdata := h.pipe.recvData_toNat hsize
  -- Every acknowledgement sent has been heard.
  have hlast : R.lastAckSent ≤ S.peerAck := by
    rcases hrule.known with h0 | ⟨f, hf, ht, hv⟩
    · rw [h0]; exact UInt64.le_iff_toNat_le.2 (Nat.zero_le _)
    · have hfail : S.core.phase.failing = false := by show S.phase.failing = false; rw [hup]; rfl
      rcases h.heard.acks hfail f (by rw [hall, List.take_length]; exact hf) ht _ hv with hle | hin
      · exact hle
      · change S.rcv.hand = some f at hin
        rw [hhand] at hin; cases hin
  have hlast := UInt64.le_iff_toNat_le.1 hlast
  have hle := UInt64.le_iff_toNat_le.1 hrule.le
  rcases hrule.settled hheld with hlt | heq
  · have hlt := UInt64.lt_iff_toNat_lt.1 hlt
    have hq := UInt64.le_iff_toNat_le.1 hquarter
    rw [UInt64.toNat_sub_of_le _ _ hrule.le] at hlt
    omega
  · rw [heq] at hdata
    omega

end

theorem StallInv.start (p : Role → Params) (idle : Role → Nat) (r : Role) :
    StallInv ((Pipe.start p idle).conn r) ((Pipe.start p idle).conn r.peer) ((Pipe.start p idle).dir r)
      ((Pipe.start p idle).dir r.peer) where
  pipe    := .start p idle r
  back    := by have := PipeInv.start p idle r.peer; rwa [Role.peer_peer] at this
  heard   := ⟨fun _ => rfl, fun _ f hf => by cases hf⟩
  written := rfl
  rule    := fun _ => ⟨.inl rfl, .inl rfl, UInt64.le_refl _, (fun _ _ h => by cases h), fun _ => .inr rfl⟩

/-- **No timer-dependent stall**, for any two windows of which a quarter of the reader's fits into the writer's. -/
theorem no_stall (p : Role → Params) (idle : Role → Nat) (ls : List (Label fifo)) (s : Pipe fifo) (r : Role)
    (hquarter : (p r.peer).window / 4 ≤ (p r).window) (hm : Machine.Meets Pipe.step AckPath (Pipe.start p idle) ls)
    (hr : Machine.run Pipe.step (Pipe.start p idle) ls = some s) (hsize : (s.conn r).sentTotal < UInt64.size) :
    ¬ Stalled s r := by
  intro hst
  have hinv := Machine.inv_of_meets
    (I := fun s => (∀ r, StallInv (s.conn r) (s.conn r.peer) (s.dir r) (s.dir r.peer)) ∧ ∀ r, (s.conn r).params = p r)
    ?_ ls _ s ⟨StallInv.start p idle, fun _ => rfl⟩ hm hr
  · obtain ⟨hinv, hpar⟩ := hinv
    have hroom := (hinv r).room_pos hsize (by rw [hpar, hpar]; exact hquarter) (hst.dispatched r.peer).1
      (hst.dispatched r).2 hst.drained
    rw [hst.full] at hroom
    cases hroom
  · rintro s l t ⟨hinv, hpar⟩ ⟨htick, hok, hg⟩ hs
    refine ⟨?_, fun r => ?_⟩
    · exact Pipe.inv_fifo (G := fun c a => a.ticks = false ∧ AppendsOk c a ∧ c.ackRefused a = false)
        (fun h hg hs hm => h.sender hg.2.1 hs hm) (fun h hg hs hm => h.receiver hg.1 hg.2.1 hg.2.2 hs hm)
        s l t hinv ⟨htick, hok, hg⟩ hs
    · obtain ⟨c, call, hstep, hconn, -⟩ := Pipe.step_fifo hs
      rw [hconn]
      rcases Role.eq_or_peer r l.role with rfl | rfl
      · rw [upd_self]; exact (step_core hstep).params.trans (hpar _)
      · rw [upd_peer]; exact hpar _

/-! ## Two pairs of windows -/

theorem no_stall_firstRound :
    ∃ s, Machine.run Pipe.step (Pipe.start (fun _ => narrow) (fun _ => 0)) firstRound = some s ∧
      (s.conn .initiator).writes = [⟨[7], none⟩] ∧ ¬ Stalled s .initiator := by
  obtain ⟨s, hs⟩ : ∃ s, Machine.run Pipe.step (Pipe.start (fun _ => narrow) (fun _ => 0)) firstRound = some s :=
    Option.isSome_iff_exists.1 (by decide +kernel)
  have hstate : (Machine.run Pipe.step (Pipe.start (fun _ => narrow) (fun _ => 0)) firstRound).map
      (fun s => ((s.conn .initiator).sentTotal, (s.conn .initiator).writes)) = some (1, [⟨[7], none⟩]) := by
      decide +kernel
  rw [hs] at hstate
  simp only [Option.map_some, Option.some.injEq, Prod.mk.injEq] at hstate
  refine ⟨s, hs, hstate.2, no_stall (fun _ => narrow) (fun _ => 0) firstRound s .initiator (by decide)
    (by decide +kernel)
    hs ?_⟩
  rw [hstate.1]
  decide

/-- A reader with a window of 8 bytes acknowledges every second byte. -/
def broad : Params := ⟨1, 8, 1, one_segment_pos, by decide, by decide, one_frame_pos, one_frame_le⟩

/-- The initiator may have one byte outstanding. -/
def mixedWindows : Role → Params
  | .initiator => narrow
  | .acceptor  => broad

/-- Both handshakes, and one byte written and read. -/
def byteUnacked : List (Label fifo) :=
  stepsOf .initiator [.hand (.openW true), .hand (.syn true)] ++
    stepsOf .acceptor [.hand (.openW true), .hand (.syn true), .hand (.turn (.frame narrow.syn) 0), .recv .go] ++
    stepsOf .initiator [.hand (.turn (.frame broad.syn) 0), .recv .go, .write (.call [7]), .write (.go true),
      .write (.go true), .write (.go true)] ++
    dispatches ⟨frameDATA, 0, 1, 0, [7]⟩ ++
    stepsOf .acceptor [.read (.call 1), .read (.go true), .read (.go true), .read (.go true)]

/-- **A window smaller than a quarter of the peer's stalls**: the byte has been read and no acknowledgement is due. -/
theorem quarter_window_stalls :
    Machine.Meets Pipe.step AckPath (Pipe.start mixedWindows (fun _ => 0)) byteUnacked ∧
      ∃ s, Machine.run Pipe.step (Pipe.start mixedWindows (fun _ => 0)) byteUnacked = some s ∧
        Stalled s .initiator := by
  refine ⟨by decide +kernel, ?_⟩
  obtain ⟨s, hs⟩ : ∃ s, Machine.run Pipe.step (Pipe.start mixedWindows (fun _ => 0)) byteUnacked = some s :=
    Option.isSome_iff_exists.1 (by decide +kernel)
  have hinit : (Machine.run Pipe.step (Pipe.start mixedWindows (fun _ => 0)) byteUnacked).map
      (fun s => (s.dir .initiator, (s.conn .initiator).rcv.hand, (s.conn .initiator).room)) =
        some (⟨[narrow.syn, ⟨frameDATA, 0, 1, 0, [7]⟩], 2⟩, none, 0) := by decide +kernel
  have hacc : (Machine.run Pipe.step (Pipe.start mixedWindows (fun _ => 0)) byteUnacked).map
      (fun s => (s.dir .acceptor, (s.conn .acceptor).rcv.hand, (s.conn .acceptor).returned)) =
        some (⟨[broad.syn], 1⟩, none, [7]) := by decide +kernel
  rw [hs] at hinit hacc
  simp only [Option.map_some, Option.some.injEq, Prod.mk.injEq] at hinit hacc
  obtain ⟨hd, hh, hroom⟩ := hinit
  obtain ⟨he, hh', hret⟩ := hacc
  refine ⟨s, hs, fun q => ?_, ?_, hroom⟩
  · cases q
    · exact ⟨by rw [hd]; rfl, hh⟩
    · exact ⟨by rw [he]; rfl, hh'⟩
  · rw [hd]
    exact hret

end Fstun
end Ccb
