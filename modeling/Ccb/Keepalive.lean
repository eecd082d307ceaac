import Ccb.Codec
import Ccb.PipeRefine
import Ccb.Timed
/-!
# Keepalive — a peer that is alive is heard in time

`maintLoop` appends a heartbeat at every tick of its ticker and fails the pipe when no frame has come for `IdleTimeout`.
The time within which the next frame must be read is bounded by where the two endpoints and the direction between them
stand: no frame is unread, and the writer's next heartbeat is due; one is unread and cannot be seen yet; or it can be
seen, and the reader's next round of `next` is due.  Every step keeps these bounds (`Awaited`).
-/
namespace Ccb
namespace Fstun

open Machine (run)

/-! ## What is left to do -/

/-- The steps up to the next heartbeat, at most. -/
def MaintPc.left : MaintPc → Nat
  | .wait => 6
  | .ack .load => 5
  | .ack (.due _) => 4
  | .ack (.emit _) => 3
  | .ack (.note _) => 2
  | .beat => 1
  | .fail _ | .done => 0

/-- The steps up to the next round of `next`, at most. -/
def RecvPc.left : RecvPc → Nat
  | .dispatch _ => 5
  | .reap _ => 4
  | .sigData | .sigFlow | .poll => 3
  | .top => 2
  | .next => 1
  | .fail _ | .done => 0

/-- By when `maintLoop` has appended its next heartbeat. -/
def beatBy (slack : Nat) (c : Conn) (k : Clock) : Nat := k.mntDue + c.mnt.left * slack

/-- By when `recvLoop` has taken its next round of `next`. -/
def readBy (slack : Nat) (c : Conn) (k : Clock) : Nat := k.rcvDue + c.rcv.left * slack

/-- A step that is taken in time brings what is left no further off. -/
theorem in_time {now due slack m n : Nat} (h : now ≤ due + slack) (hn : n + 1 ≤ m) :
    now + n * slack ≤ due + m * slack := by
  have hmul := Nat.mul_le_mul_right slack hn
  rw [Nat.add_mul, Nat.one_mul] at hmul
  omega

theorem soon {now due slack m : Nat} (h : now ≤ due + slack) (hm : 0 < m) : now ≤ due + m * slack := by
  have := in_time (n := 0) h hm
  omega

/-! ## Endpoints that nobody closes -/

def Phase.rising : Phase → Bool
  | .down | .opened | .syn | .up => true
  | .abortW | .abortR | .failed  => false

/-- Nobody closes or gives up its handshake, no append of the handshake or of `maintLoop` fails, and the reader meets no
error. -/
def Act.calm : Act → Bool
  | .hand (.openW ok) | .hand (.syn ok) => ok
  | .hand .giveUp | .hand .go => false
  | .hand (.turn .ioError _) | .recv (.turn .ioError _) => false
  | .close _ => false
  | .maint (.go ok _) => ok
  | _ => true

def TimedAct.calm : TimedAct → Bool
  | .act _ a => a.calm
  | .reveal _ _ | .pass _ => true
  | .crash _ => false

/-- An endpoint that comes up and stays up, with its loops running in time. -/
structure Steady (rc : ResolvedConfig) (slack now : Nat) (c : Conn) (k : Clock) : Prop where
  phase   : c.phase.rising = true
  opened  : c.closed = false
  sends   : c.sendClosed = false
  fine    : c.recvErr = none
  mnt     : 0 < c.mnt.left
  rcv     : 0 < c.rcv.left
  hand    : ∀ f, c.rcv = .dispatch f → f.typ ≠ frameError
  asleep  : c.phase ≠ .up → c.rcv = .top ∧ c.mnt = .wait
  heard   : c.lastRecv ≤ now
  idle    : c.idleTimeout = ns rc.idleTimeout
  cur     : k.cur ≤ rc.pollMax
  ticks   : c.mnt = .wait → k.tick ≤ k.mntDue
  tick    : k.tick ≤ now + ns rc.heartbeat
  rcvSoon : k.rcvDue ≤ now + ns rc.pollMax
  synSoon : c.phase = .syn → k.rcvDue ≤ now + ns rc.pollInterval
  mntSoon : k.mntDue ≤ now + ns rc.heartbeat
  rcvDue  : c.phase = .syn ∨ c.phase = .up → now ≤ k.rcvDue + slack
  mntDue  : c.phase = .up → now ≤ k.mntDue + slack

/-- What a step of such an endpoint is to the direction it writes and the one it reads; `more` says that there is a
frame to see in the latter. -/
inductive Stir (rc : ResolvedConfig) (slack now : Nat) (more : Bool) (c c' : Conn) (k k' : Clock) (call : Option Call) :
    Prop
  | opens : c.phase = .down → c'.phase = .opened → call = some (.openW true) → Stir rc slack now more c c' k k' call
  | syn : c.phase = .opened → c'.phase = .syn → call = some (.append c.params.syn 0 true) →
      Stir rc slack now more c c' k k' call
  | waits : c.phase = .syn → c'.phase = .syn → c'.lastRecv = c.lastRecv → (∀ x ∈ call, x.plain = true) →
      (more = false ∨ k'.rcvDue = k.rcvDue) → Stir rc slack now more c c' k k' call
  | still : c.phase = .up → c'.phase = .up → c'.lastRecv = c.lastRecv → (∀ f, call ≠ some (.next (.frame f))) →
      ((∃ f e, call = some (.append f e true)) ∨ beatBy slack c' k' ≤ beatBy slack c k) →
      (more = false ∨ readBy slack c' k' ≤ readBy slack c k) → Stir rc slack now more c c' k k' call
  | frame (f : Frame) : call = some (.next (.frame f)) → more = true → c'.phase = .up → c'.lastRecv = now →
      readBy slack c' k' ≤ now + 5 * slack →
      ((c.phase = .up ∧ beatBy slack c' k' ≤ beatBy slack c k) ∨
        (c.phase = .syn ∧ beatBy slack c' k' ≤ now + ns rc.heartbeat + 6 * slack)) →
        Stir rc slack now more c c' k k' call

section
variable {rc : ResolvedConfig} {slack now : Nat} {more : Bool} {c c' : Conn} {k : Clock} {call : Option Call}

theorem Steady.pass {d : Nat} (h : Steady rc slack now c k) (hw : k.waits slack (now + d) c = true) :
    Steady rc slack (now + d) c k := by
  have hr : c.phase = .syn ∨ c.phase = .up → now + d ≤ k.rcvDue + slack := by
    rintro (hp | hp)
    · simpa [Clock.waits, hp] using hw
    · have hd : c.rcv ≠ .done := fun hd => by
        have := h.rcv
        rw [hd] at this
        cases this
      simp only [Clock.waits, hp, Bool.and_eq_true, Bool.or_eq_true, decide_eq_true_eq] at hw
      exact hw.1.resolve_left hd
  have hm : c.phase = .up → now + d ≤ k.mntDue + slack := by
    intro hp
    have hd : c.mnt ≠ .done := fun hd => by
      have := h.mnt
      rw [hd] at this
      cases this
    simp only [Clock.waits, hp, Bool.and_eq_true, Bool.or_eq_true, decide_eq_true_eq] at hw
    exact hw.2.resolve_left hd
  have h1 := h.heard
  have h2 := h.tick
  have h3 := h.rcvSoon
  have h4 := h.mntSoon
  exact { h with
    heard := by omega, tick := by omega, rcvSoon := by omega, mntSoon := by omega, rcvDue := hr, mntDue := hm
    synSoon := fun hp => by
      have := h.synSoon hp
      omega }

/-! ### Steps that touch neither loop -/

/-- The fields the loops go by. -/
def Conn.vitals (c : Conn) :
    Phase × Bool × Bool × Option ConnErr × MaintPc × RecvPc × Nat × Nat :=
  (c.phase, c.closed, c.sendClosed, c.recvErr, c.mnt, c.rcv, c.lastRecv, c.idleTimeout)

theorem Steady.of_vitals (h : Steady rc slack now c k) (hv : c'.vitals = c.vitals) : Steady rc slack now c' k := by
  simp only [Conn.vitals, Prod.mk.injEq] at hv
  obtain ⟨hp, hcl, hsc, he, hm, hr, hl, hi⟩ := hv
  exact ⟨hp ▸ h.phase, hcl.trans h.opened, hsc.trans h.sends, he.trans h.fine, hm ▸ h.mnt, hr ▸ h.rcv, hr ▸ h.hand,
    by rw [hp, hr, hm]; exact h.asleep, hl ▸ h.heard, hi.trans h.idle, h.cur, hm ▸ h.ticks, h.tick, h.rcvSoon,
    hp ▸ h.synSoon, h.mntSoon, hp ▸ h.rcvDue, hp ▸ h.mntDue⟩

theorem Sends.no_frame (h : Sends call) (f : Frame) : call ≠ some (.next (.frame f)) := by
  rintro rfl
  obtain ⟨_, _, _, hx⟩ := h _ rfl
  cases hx

/-- A step of a `Read`, a `Write` or a `SetDeadline`. -/
theorem Stir.aside (hup : c.phase = .up) (hv : c'.vitals = c.vitals) (hs : Sends call) :
    Stir rc slack now more c c' k k call := by
  simp only [Conn.vitals, Prod.mk.injEq] at hv
  obtain ⟨hp, -, -, -, hm, hr, hl, -⟩ := hv
  refine .still hup (hp.trans hup) hl hs.no_frame (.inr ?_) (.inr ?_)
  · rw [beatBy, hm]
    exact Nat.le_refl _
  · rw [readBy, hr]
    exact Nat.le_refl _

/-! ### The handshake -/

theorem Params.syn_decodes (p : Params) :
    decodeSynParams p.syn.payload = some ⟨protocolVersion, p.segmentSize, p.window, p.maxFrame⟩ :=
  decodeSynParams_encode _

/-- The peer's SYN is taken for one. -/
theorem waitSYN_syn (p : Params) : c.waitSYN (.frame p.syn) now = { c with phase := .up, lastRecv := now } := by
  unfold Conn.waitSYN
  dsimp only
  rw [if_neg (show ¬ p.syn.typ ≠ frameSYN from fun h => h rfl), p.syn_decodes]
  dsimp only
  rw [if_neg (by decide)]

/-- A step of the handshake that leaves it to go on. -/
theorem Steady.rise {p : Phase} {due : Nat} (h : Steady rc slack now c k) (hp : c.phase ≠ .up) (hph : p.rising = true)
    (hu : p ≠ .up) (hdue : p = .syn → now ≤ due + slack) (hsoon : due ≤ now + ns rc.pollInterval ∨ p ≠ .syn)
    (hmax : due ≤ now + ns rc.pollMax) : Steady rc slack now { c with phase := p } { k with rcvDue := due } :=
  ⟨hph, h.opened, h.sends, h.fine, h.mnt, h.rcv, h.hand, fun _ => h.asleep hp, h.heard, h.idle, h.cur, h.ticks, h.tick,
    hmax, fun hs => hsoon.resolve_right (fun hn => hn hs), h.mntSoon, fun hs => hdue (hs.resolve_right hu),
    fun hs => absurd hs hu⟩

/-- `newConn`. -/
theorem Steady.up (h : Steady rc slack now c k) :
    Steady rc slack now { c with phase := .up, lastRecv := now } (.up rc now) :=
  ⟨rfl, h.opened, h.sends, h.fine, h.mnt, h.rcv, h.hand, fun hn => absurd rfl hn, Nat.le_refl _, h.idle, rc.poll_le,
    fun _ => Nat.le_refl _, Nat.le_refl _, Nat.le_add_right _ _, (fun hs => by cases hs), Nat.le_refl _,
    fun _ => Nat.le_add_right _ _, fun _ => Nat.le_trans (Nat.le_add_right _ _) (Nat.le_add_right _ _)⟩

theorem Steady.hand_step {a : HandAct} (h : Steady rc slack now c k) (hcalm : (Act.hand a).calm = true)
    (hready : k.ready now more (.hand a) = true) (hs : c.HandStep a c' call)
    (hsyn : ∀ f, call = some (.next (.frame f)) → ∃ p : Params, f = p.syn) :
    Steady rc slack now c' (k.next rc now c c' (.hand a)) ∧
      Stir rc slack now more c c' k (k.next rc now c c' (.hand a)) call := by
  cases hs with
  | openW ok hp =>
    obtain rfl : ok = true := hcalm
    refine ⟨h.rise (by rw [hp]; decide) rfl (by decide) (fun hu => by cases hu) (.inr (by decide)) h.rcvSoon, ?_⟩
    exact .opens hp rfl rfl
  | syn ok hp =>
    obtain rfl : ok = true := hcalm
    refine ⟨h.rise (by rw [hp]; decide) rfl (by decide) (fun _ => Nat.le_add_right _ _) (.inl (Nat.le_add_right _ _))
      (Nat.le_add_right _ _), ?_⟩
    exact .syn hp rfl rfl
  | giveUp => cases hcalm
  | closeW => cases hcalm
  | closeR => cases hcalm
  | turn t n hp =>
    simp only [Clock.ready, Bool.and_eq_true, decide_eq_true_eq] at hready
    obtain ⟨⟨rfl, hdue⟩, hfits⟩ := hready
    have hne : c.phase ≠ .up := by rw [hp]; decide
    have hself : { c with phase := .syn } = c := by rw [← hp]
    have hmax := Nat.add_le_add_left (ns_le rc.poll_le) n
    cases t with
    | again =>
      have hk : k.next rc n c c (.hand (.turn .again n)) = k := if_neg hne
      rw [show c.waitSYN .again n = c from rfl, hk]
      exact ⟨h, .waits hp hp rfl (fun x hx => by cases hx; rfl) (.inr rfl)⟩
    | incomplete | notExist =>
      rw [show c.waitSYN _ n = c from rfl, show k.next rc n c c (.hand (.turn _ n)) = _ from if_neg hne]
      have hst := h.rise (p := .syn) hne rfl (by decide) (fun _ => by omega)
        (.inl (Nat.le_refl (n + ns rc.pollInterval))) hmax
      rw [hself] at hst
      exact ⟨hst, .waits hp hp rfl (fun x hx => by cases hx; rfl) (.inl (by simpa [Turn.fits] using hfits))⟩
    | corrupt | badRoll => cases hfits
    | ioError => cases hcalm
    | frame f =>
      obtain ⟨p, rfl⟩ := hsyn f rfl
      obtain ⟨hr, hm⟩ := h.asleep hne
      have hk : k.next rc n c { c with phase := .up, lastRecv := n } (.hand (.turn (.frame p.syn) n)) = .up rc n := rfl
      rw [waitSYN_syn, hk]
      refine ⟨h.up, .frame _ rfl hfits rfl rfl ?_ (.inr ⟨hp, ?_⟩)⟩
      · show n + c.rcv.left * slack ≤ _
        rw [hr, RecvPc.left]
        omega
      · show n + ns rc.heartbeat + c.mnt.left * slack ≤ _
        rw [hm]
        exact Nat.le_refl _

/-! ### recvLoop -/

/-- `recvLoop` takes a step towards its next round of `next`. -/
theorem Steady.towards {p : RecvPc} {cur : Int64} (h : Steady rc slack now c k) (hup : c.phase = .up)
    (hv : c'.vitals = { c with rcv := p }.vitals) (hp : 0 < p.left) (hless : p.left + 1 ≤ c.rcv.left)
    (hhand : ∀ f, p ≠ .dispatch f) (hcur : cur ≤ rc.pollMax) (hcall : ∀ f, call ≠ some (.next (.frame f))) :
    Steady rc slack now c' { k with rcvDue := now, cur := cur } ∧
      Stir rc slack now more c c' k { k with rcvDue := now, cur := cur } call := by
  have hst : Steady rc slack now { c with rcv := p } { k with rcvDue := now, cur := cur } :=
    ⟨h.phase, h.opened, h.sends, h.fine, h.mnt, hp, fun f hf => absurd hf (hhand f), fun hn => absurd hup hn, h.heard,
      h.idle, hcur, h.ticks, h.tick, Nat.le_add_right _ _, (fun hs => by cases hs.symm.trans hup), h.mntSoon,
      fun _ => Nat.le_add_right _ _, h.mntDue⟩
  refine ⟨hst.of_vitals hv, ?_⟩
  simp only [Conn.vitals, Prod.mk.injEq] at hv
  obtain ⟨hph, -, -, -, hm, hr, hl, -⟩ := hv
  refine .still hup (hph.trans hup) hl hcall (.inr ?_) (.inr ?_)
  · rw [beatBy, hm]
    exact Nat.le_refl _
  · rw [readBy, hr]
    exact in_time (h.rcvDue (.inr hup)) hless

theorem Steady.dispatch {f : Frame} (h : Steady rc slack now c k) (hr : c.rcv = .dispatch f) :
    ∃ p, (c.dispatch f).vitals = { c with rcv := p }.vitals ∧ 0 < p.left ∧ p.left + 1 ≤ 5 ∧ ∀ f, p ≠ .dispatch f := by
  unfold Conn.dispatch
  split
  · exact ⟨.sigData, rfl, by decide, by decide, fun f hf => by cases hf⟩
  split
  · split
    · exact ⟨.top, rfl, by decide, by decide, fun f hf => by cases hf⟩
    · exact ⟨.reap _, rfl, by show 0 < 4; decide, by show 4 + 1 ≤ 5; decide, fun f hf => by cases hf⟩
  split
  · exact ⟨.sigData, rfl, by decide, by decide, fun f hf => by cases hf⟩
  split
  · rename_i he
    exact absurd he (h.hand f hr)
  · exact ⟨.top, rfl, by decide, by decide, fun f hf => by cases hf⟩

theorem Steady.recv_turn {t : Turn} (h : Steady rc slack now c k) (hup : c.phase = .up) (hfits : t.fits more = true)
    (hcalm : (Act.recv (.turn t now)).calm = true) (hframe : ∀ f, t = .frame f → f.typ ≠ frameError) :
    Steady rc slack now (c.received t now) (k.recvTurn rc now t) ∧
      Stir rc slack now more c (c.received t now) k (k.recvTurn rc now t) (some (.next t)) := by
  have hnot : c.phase ≠ .syn := fun hs => by cases hs.symm.trans hup
  cases t with
  | again =>
    refine ⟨h, .still hup hup rfl (fun f hf => by cases hf) (.inr (Nat.le_refl _)) (.inr (Nat.le_refl _))⟩
  | frame f =>
    refine ⟨⟨h.phase, h.opened, h.sends, h.fine, h.mnt, by show 0 < 5; decide, ?_, fun hn => absurd hup hn,
      Nat.le_refl _, h.idle, rc.poll_le, h.ticks, h.tick, Nat.le_add_right _ _, fun hs => absurd hs hnot, h.mntSoon,
      fun _ => Nat.le_add_right _ _, h.mntDue⟩, .frame f rfl hfits hup rfl (Nat.le_refl _) (.inl ⟨hup, Nat.le_refl _⟩)⟩
    intro g hg
    cases hg
    exact hframe f rfl
  | incomplete | notExist =>
    have hcur := ns_le h.cur
    refine ⟨⟨h.phase, h.opened, h.sends, h.fine, h.mnt, by show 0 < 3; decide, ?_, fun hn => absurd hup hn,
      h.heard, h.idle, h.cur, h.ticks, h.tick, ?_, fun hs => absurd hs hnot, h.mntSoon, ?_, h.mntDue⟩, ?_⟩
    · exact fun f hf => by cases hf
    · exact Nat.add_le_add_left hcur _
    · exact fun _ => Nat.le_trans (Nat.le_add_right _ _) (Nat.le_add_right _ _)
    · exact .still hup hup rfl (fun f hf => by cases hf) (.inr (Nat.le_refl _))
        (.inl (by simpa [Turn.fits] using hfits))
  | corrupt | badRoll => cases hfits
  | ioError => cases hcalm

theorem Steady.recv_step {a : RecvAct} (h : Steady rc slack now c k) (hup : c.phase = .up)
    (hcalm : (Act.recv a).calm = true) (hready : k.ready now more (.recv a) = true) (hs : c.RecvStep a c' call)
    (hframe : ∀ f, call = some (.next (.frame f)) → f.typ ≠ frameError) :
    Steady rc slack now c' (k.next rc now c c' (.recv a)) ∧
      Stir rc slack now more c c' k (k.next rc now c c' (.recv a)) call := by
  have hcur : (if c.rcv = .poll then backOff rc.pollMax k.cur else k.cur) ≤ rc.pollMax := by
    split
    · exact backOff_le h.cur
    · exact h.cur
  have hno : ∀ f, (none : Option Call) ≠ some (.next (.frame f)) := fun f hf => by cases hf
  have hlive := h.rcv
  cases hs with
  | stop _ hc => cases hc.symm.trans h.opened
  | polled _ hc => cases hc.symm.trans h.opened
  | next t n hr =>
    simp only [Clock.ready, Bool.and_eq_true, decide_eq_true_eq] at hready
    obtain ⟨⟨rfl, -⟩, hfits⟩ := hready
    exact h.recv_turn hup hfits hcalm (fun f hf => hframe f (by rw [hf]))
  | fail p hr => rw [hr] at hlive; cases hlive
  | failed p hr => rw [hr] at hlive; cases hlive
  | top hr => exact h.towards (p := .next) hup rfl (by decide) (by rw [hr]; decide) (fun f hf => by cases hf) hcur hno
  | sigData hr =>
    exact h.towards (p := .top) hup rfl (by decide) (by rw [hr]; decide) (fun f hf => by cases hf) hcur hno
  | sigFlow hr =>
    exact h.towards (p := .top) hup rfl (by decide) (by rw [hr]; decide) (fun f hf => by cases hf) hcur hno
  | poll hr => exact h.towards (p := .top) hup rfl (by decide) (by rw [hr]; decide) (fun f hf => by cases hf) hcur hno
  | reap ack hr =>
    exact h.towards (p := .sigFlow) hup rfl (by decide) (by rw [hr]; show 3 + 1 ≤ 4; decide)
      (fun f hf => by cases hf) hcur (fun f hf => by cases hf)
  | dispatch f hr =>
    obtain ⟨p, hv, hp, hless, hhand⟩ := h.dispatch hr
    exact h.towards hup hv hp (by rw [hr]; exact hless) hhand hcur hno

/-! ### maintLoop -/

/-- `maintLoop` takes a step towards its next heartbeat. -/
theorem Steady.beats {p : MaintPc} (h : Steady rc slack now c k) (hup : c.phase = .up) {tick : Nat}
    (hv : c'.vitals = { c with mnt := p }.vitals) (hp : 0 < p.left) (hless : p.left + 1 ≤ c.mnt.left)
    (hwait : p ≠ .wait) (htick : tick ≤ now + ns rc.heartbeat) (hsend : Sends call) :
    Steady rc slack now c' { k with mntDue := now, tick := tick } ∧
      Stir rc slack now more c c' k { k with mntDue := now, tick := tick } call := by
  have hst : Steady rc slack now { c with mnt := p } { k with mntDue := now, tick := tick } :=
    ⟨h.phase, h.opened, h.sends, h.fine, hp, h.rcv, h.hand, fun hn => absurd hup hn, h.heard, h.idle, h.cur,
      fun hw => absurd hw hwait, htick, h.rcvSoon, h.synSoon, Nat.le_add_right _ _, h.rcvDue,
      fun _ => Nat.le_add_right _ _⟩
  refine ⟨hst.of_vitals hv, ?_⟩
  simp only [Conn.vitals, Prod.mk.injEq] at hv
  obtain ⟨hph, -, -, -, hm, hr, hl, -⟩ := hv
  refine .still hup (hph.trans hup) hl hsend.no_frame (.inr ?_) (.inr ?_)
  · rw [beatBy, hm]
    exact in_time (h.mntDue hup) hless
  · rw [readBy, hr]
    exact Nat.le_refl _

theorem MaintPc.ack_left_pos (p : AckPc) : 0 < (MaintPc.ack p).left := by cases p <;> exact Nat.succ_pos _

theorem Clock.next_go {ok : Bool} {n : Nat} (hw : c'.mnt ≠ .wait) :
    k.next rc now c c' (.maint (.go ok n)) = { k with mntDue := now, tick := k.tick } := by
  show { k with mntDue := if c'.mnt = MaintPc.wait then max k.tick now else now } = _
  rw [if_neg hw]

theorem ackStep_left {due : UInt64 → Bool} {p p' : AckPc} {ok : Bool} {c₁ : Conn}
    (h : c.ackStep due p ok = (c₁, some p', call)) : (MaintPc.ack p').left + 1 ≤ (MaintPc.ack p).left := by
  cases p with
  | load => cases h; show 4 + 1 ≤ 5; decide
  | due rd =>
    simp only [Conn.ackStep, Prod.mk.injEq] at h
    obtain ⟨-, hp, -⟩ := h
    split at hp <;> cases hp
    show 3 + 1 ≤ 4
    decide
  | emit rd =>
    simp only [Conn.ackStep, Prod.mk.injEq] at h
    obtain ⟨-, hp, -⟩ := h
    split at hp <;> cases hp
    show 2 + 1 ≤ 3
    decide
  | note rd => cases h

theorem ackStep_done_left {due : UInt64 → Bool} {p : AckPc} {ok : Bool} {c₁ : Conn}
    (h : c.ackStep due p ok = (c₁, none, call)) : MaintPc.beat.left + 1 ≤ (MaintPc.ack p).left := by
  cases p with
  | load => cases h
  | due rd => show 1 + 1 ≤ 4; decide
  | emit rd => show 1 + 1 ≤ 3; decide
  | note rd => show 1 + 1 ≤ 2; decide

/-- The heartbeat is appended, and the next one is due with the ticker. -/
theorem Steady.beat (h : Steady rc slack now c k) (hup : c.phase = .up) :
    let e := c.emit frameHeartbeat (encodeUint64 (.ofNat now)) true
    Steady rc slack now { e.1 with mnt := .wait } { k with mntDue := max k.tick now } ∧
      Stir rc slack now more c { e.1 with mnt := .wait } k { k with mntDue := max k.tick now } e.2.1 := by
  intro e
  obtain ⟨seq, he⟩ := c.emit_frame (encodeUint64 (.ofNat now)) true (show frameHeartbeat ≠ frameDATA by decide)
  have hcall : ∃ f v, e.2.1 = some (.append f v true) := by
    show ∃ f v, (c.emit frameHeartbeat (encodeUint64 (.ofNat now)) true).2.1 = some (.append f v true)
    unfold Conn.emit
    rw [if_neg (fun hn => by cases hn.1.symm.trans h.sends)]
    exact ⟨_, _, rfl⟩
  have htick := h.tick
  rw [show e.1 = _ from he]
  refine ⟨⟨h.phase, h.opened, h.sends, h.fine, Nat.succ_pos 5, h.rcv, h.hand, fun hn => absurd hup hn, h.heard, h.idle,
    h.cur, fun _ => Nat.le_max_left _ _, h.tick, h.rcvSoon, h.synSoon, ?_, h.rcvDue, fun _ => ?_⟩, ?_⟩
  · exact Nat.max_le.2 ⟨htick, Nat.le_add_right _ _⟩
  · exact Nat.le_trans (Nat.le_max_right k.tick now) (Nat.le_add_right _ _)
  · exact .still hup hup rfl (emit_sends _ _ _).no_frame (.inl hcall) (.inr (Nat.le_refl _))

theorem Steady.maint_step {a : MaintAct} (h : Steady rc slack now c k) (hup : c.phase = .up)
    (hcalm : (Act.maint a).calm = true) (hready : k.ready now more (.maint a) = true) (hs : c.MaintStep a c' call)
    (halive : now ≤ c.lastRecv + c.idleTimeout) :
    Steady rc slack now c' (k.next rc now c c' (.maint a)) ∧
      Stir rc slack now more c c' k (k.next rc now c c' (.maint a)) call := by
  have hlive := h.mnt
  cases hs with
  | tick n hm =>
    simp only [Clock.ready, Bool.and_eq_true, decide_eq_true_eq] at hready
    obtain ⟨rfl, hdue⟩ := hready
    rw [if_neg (show ¬ c.idleTimeout < n - c.lastRecv by omega)]
    exact h.beats hup rfl (by decide) (by rw [hm]; decide) (by decide)
      (nextTick_le (Nat.le_trans (h.ticks hm) hdue)) .none
  | stop _ hc => cases hc.symm.trans h.opened
  | ack p ok n hm hs =>
    simp only [Clock.ready, Bool.and_eq_true, decide_eq_true_eq] at hready
    obtain ⟨rfl, -⟩ := hready
    have hless := ackStep_left hs
    have hsend := ackStep_sends hs
    obtain ⟨seq, last, rfl⟩ := Conn.ackStep_frame hs
    rw [Clock.next_go (fun hw => by cases hw)]
    exact h.beats hup rfl (MaintPc.ack_left_pos _) (by rw [hm]; exact hless) (fun hw => by cases hw) h.tick hsend
  | acked p ok n hm hs =>
    simp only [Clock.ready, Bool.and_eq_true, decide_eq_true_eq] at hready
    obtain ⟨rfl, -⟩ := hready
    have hless := ackStep_done_left hs
    have hsend := ackStep_sends hs
    obtain ⟨seq, last, rfl⟩ := Conn.ackStep_frame hs
    rw [Clock.next_go (fun hw => by cases hw)]
    exact h.beats hup rfl (by decide) (by rw [hm]; exact hless) (fun hw => by cases hw) h.tick hsend
  | beat ok n hm =>
    simp only [Clock.ready, Bool.and_eq_true, decide_eq_true_eq] at hready
    obtain ⟨rfl, -⟩ := hready
    obtain rfl : ok = true := hcalm
    exact h.beat hup
  | fail p ok n hm => rw [hm] at hlive; cases hlive
  | failed p ok n hm => rw [hm] at hlive; cases hlive

/-- **A step of an endpoint that nobody closes**: it stays steady while it is not idle for too long. -/
theorem Steady.step {a : Act} (h : Steady rc slack now c k) (hcalm : a.calm = true) (hready : k.ready now more a = true)
    (hs : c.step a = some (c', call))
    (hframe : ∀ f, call = some (.next (.frame f)) → f.typ ≠ frameError ∧ (c.phase = .syn → ∃ p : Params, f = p.syn))
    (halive : c.phase = .up → now ≤ c.lastRecv + c.idleTimeout) :
    Steady rc slack now c' (k.next rc now c c' a) ∧ Stir rc slack now more c c' k (k.next rc now c c' a) call := by
  cases Conn.step_some hs with
  | hand hs =>
    have hh := Conn.handStep_some hs
    refine h.hand_step hcalm hready hh (fun f hf => (hframe f hf).2 ?_)
    subst hf
    cases hh with
    | turn _ _ hp => exact hp
  | read hup hs =>
    have hv : c'.vitals = c.vitals := by rw [(Conn.readStep_some hs).frame]; rfl
    exact ⟨h.of_vitals hv, .aside hup hv (readStep_life hs).sends⟩
  | write hup hs =>
    have hv : c'.vitals = c.vitals := by rw [(Conn.writeStep_some hs).frame]; rfl
    exact ⟨h.of_vitals hv, .aside hup hv (writeStep_life hs).sends⟩
  | close => cases hcalm
  | recv hup hs => exact h.recv_step hup hcalm hready (Conn.recvStep_some hs) (fun f hf => (hframe f hf).1)
  | maint hup hs => exact h.maint_step hup hcalm hready (Conn.maintStep_some hs) (halive hup)
  | deadline hup hs =>
    have hv : c'.vitals = c.vitals := by rw [(Conn.deadlineStep_frame hs).2]; rfl
    exact ⟨h.of_vitals hv, .aside hup hv (deadlineStep_life hs).sends⟩

theorem Core.Step.no_error {k k' : Core} {f : Frame} {e : UInt64} {ok : Bool}
    (h : Core.Step k (some (.append f e ok)) k') : f.typ ≠ frameError := by
  cases h with
  | phase _ _ _ _ _ hpl => cases hpl _ rfl
  | closeLate _ _ _ _ _ hpl => cases hpl _ rfl
  | syn => show frameSYN ≠ _; decide
  | sendAck v => show frameACK ≠ _; decide
  | sendBeat v => show frameHeartbeat ≠ _; decide
  | sendFin => show frameFIN ≠ _; decide
  | sendData sent rest room => show frameDATA ≠ _; decide

end

/-! ## A direction -/

/-- What a direction holds, for the writer at `C` and the reader at `D`. -/
structure Written (C D : Conn) (d : Fifo) : Prop where
  begun : d.log = [] ↔ C.phase = .down ∨ C.phase = .opened
  first : ∀ f, d.log[0]? = some f → f = C.params.syn
  alone : C.phase = .syn → d.log.length = 1
  sound : ∀ f ∈ d.log, f.typ ≠ frameError
  pos   : D.phase = .up ↔ 0 < d.pos

/-- When its frames were appended, and how many of them can be seen. -/
structure Seen (delay now : Nat) (d : Fifo) (stamps : List Nat) (shown : Nat) : Prop where
  size     : stamps.length = d.log.length
  pos_le   : d.pos ≤ shown
  shown_le : shown ≤ d.log.length
  past     : ∀ a ∈ stamps, a ≤ now
  late     : ∀ a ∈ stamps.drop shown, now ≤ a + delay

section
variable {rc : ResolvedConfig} {slack delay now shown : Nat} {more : Bool} {C C' D D' : Conn} {k k' : Clock}
  {d d' e e' : Fifo} {stamps : List Nat} {call : Option Call}

theorem Fifo.Moved.out_cases (h : Fifo.Moved d e call d' e') :
    d' = d ∨ ∃ f v, call = some (.append f v true) ∧ d' = { d with log := d.log ++ [f] } := by
  cases h with
  | sent f v => exact .inr ⟨f, v, rfl, rfl⟩
  | none | plain | lost | got => exact .inl rfl

theorem Fifo.Moved.inp_cases (h : Fifo.Moved d e call d' e') :
    e' = e ∨ ∃ f, call = some (.next (.frame f)) ∧ e.log[e.pos]? = some f ∧ e' = { e with pos := e.pos + 1 } := by
  cases h with
  | got f hf => exact .inr ⟨f, rfl, hf, rfl⟩
  | none | plain | lost | sent => exact .inl rfl

/-- The writer has begun, and goes on. -/
theorem Written.grow (h : Written C D d) (hm : Fifo.Moved d e call d' e') (hb : d.log ≠ []) (hC : C'.phase = .up)
    (hp : C'.params = C.params) (hs : ∀ f v ok, call = some (.append f v ok) → f.typ ≠ frameError) :
    Written C' D d' := by
  have hne : ¬ (C'.phase = .down ∨ C'.phase = .opened) := by rw [hC]; decide
  have hsyn : C'.phase ≠ .syn := by rw [hC]; decide
  rcases hm.out_cases with rfl | ⟨f, v, hcall, rfl⟩
  · exact ⟨⟨fun hn => absurd hn hb, fun hn => absurd hn hne⟩, fun f hf => hp ▸ h.first f hf, fun hn => absurd hn hsyn,
      h.sound, h.pos⟩
  · refine ⟨⟨fun hn => absurd hn (List.append_ne_nil_of_left_ne_nil hb _), fun hn => absurd hn hne⟩, fun g hg => ?_,
      fun hn => absurd hn hsyn, fun g hg => ?_, h.pos⟩
    · rw [hp]
      rw [List.getElem?_append_left (List.length_pos_iff.2 hb)] at hg
      exact h.first g hg
    · rcases List.mem_append.1 hg with hg | hg
      · exact h.sound g hg
      · obtain rfl := List.mem_singleton.1 hg
        exact hs g v true hcall

theorem Written.writer (h : Written C D d) (he : Stir rc slack now more C C' k k' call) (hm : Fifo.Moved d e call d' e')
    (hp : C'.params = C.params) (hs : ∀ f v ok, call = some (.append f v ok) → f.typ ≠ frameError) :
    Written C' D d' := by
  have hbegun : C.phase = .up ∨ C.phase = .syn → d.log ≠ [] := by
    rintro (hC | hC) hn
    all_goals
      have := h.begun.1 hn
      rw [hC] at this
      rcases this with hn | hn <;> cases hn
  cases he with
  | opens hC hC' hcall =>
    obtain rfl : d' = d := (hm.still (fun x hx => by rw [hcall] at hx; cases hx; exact .inl rfl)).1
    have hn := h.begun.2 (.inl hC)
    refine ⟨⟨fun _ => .inr hC', fun _ => hn⟩, fun f hf => ?_, fun hs => ?_, h.sound, h.pos⟩
    · rw [hn] at hf; cases hf
    · cases hs.symm.trans hC'
  | syn hC hC' hcall =>
    subst hcall
    obtain rfl : d' = { d with log := d.log ++ [C.params.syn] } := hm.append.1
    have hn := h.begun.2 (.inr hC)
    have hlog : d.log ++ [C.params.syn] = [C.params.syn] := by rw [hn]; rfl
    refine ⟨?_, fun f hf => ?_, fun _ => ?_, fun f hf => ?_, h.pos⟩
    · rw [hlog, hC']
      exact ⟨(fun hn => by cases hn), fun hn => by rcases hn with hn | hn <;> cases hn⟩
    · rw [hlog] at hf
      cases hf
      rw [hp]
    · rw [hlog]
      rfl
    · rw [hlog] at hf
      obtain rfl := List.mem_singleton.1 hf
      exact hs _ _ _ rfl
  | waits hC hC' hl hpl =>
    obtain rfl : d' = d := (hm.still (fun x hx => .inl (hpl x hx))).1
    exact ⟨by rw [hC', ← hC]; exact h.begun, fun f hf => hp ▸ h.first f hf, fun _ => h.alone hC, h.sound, h.pos⟩
  | still hC hC' => exact h.grow hm (hbegun (.inl hC)) hC' hp hs
  | frame f hcall hmore hC' hl hr hb =>
    exact h.grow hm (hbegun (hb.imp (fun hb => hb.1) (fun hb => hb.1))) hC' hp hs

/-- A frame that is read could be seen. -/
theorem Stir.seen {f : Frame} (he : Stir rc slack now more D D' k k' call) (hcall : call = some (.next (.frame f))) :
    more = true ∧ D'.phase = .up := by
  cases he with
  | opens _ _ hc => cases hc.symm.trans hcall
  | syn _ _ hc => cases hc.symm.trans hcall
  | waits _ _ _ hpl => cases hpl _ hcall
  | still _ _ _ hno => exact absurd hcall (hno f)
  | frame _ _ hmore hD' => exact ⟨hmore, hD'⟩

theorem Stir.before (he : Stir rc slack now more D D' k k' call) (hup : D'.phase = .up) :
    D.phase = .syn ∨ D.phase = .up := by
  cases he with
  | opens _ hD' | syn _ hD' | waits _ hD' => cases hD'.symm.trans hup
  | still hD => exact .inr hD
  | frame _ _ _ _ _ _ hb => exact (hb.imp (fun hb => hb.1) (fun hb => hb.1)).symm

theorem Written.reader (h : Written C D d) (he : Stir rc slack now more D D' k k' call)
    (hm : Fifo.Moved e d call e' d') :
    Written C D' d' := by
  rcases hm.inp_cases with rfl | ⟨f, hcall, -, rfl⟩
  · refine ⟨h.begun, h.first, h.alone, h.sound, ?_⟩
    rw [← h.pos]
    cases he with
    | opens hD hD' => rw [hD, hD']; decide
    | syn hD hD' => rw [hD, hD']; decide
    | waits hD hD' => rw [hD, hD']
    | still hD hD' => rw [hD, hD']
    | frame f hcall =>
      subst hcall
      have := congrArg Fifo.pos hm.frame.2.2
      simp at this
  · exact ⟨h.begun, h.first, h.alone, h.sound, ⟨fun _ => Nat.succ_pos _, fun _ => (he.seen hcall).2⟩⟩

theorem Seen.writer (h : Seen delay now d stamps shown) (hm : Fifo.Moved d e call d' e') :
    Seen delay now d' (noted now stamps d'.log) shown := by
  have hsize := h.size
  rcases hm.out_cases with rfl | ⟨f, v, -, rfl⟩
  · rw [noted, if_neg (by omega)]
    exact h
  · have hnote : noted now stamps (d.log ++ [f]) = stamps ++ [now] := if_pos (by simp [hsize])
    show Seen delay now _ (noted now stamps (d.log ++ [f])) shown
    rw [hnote]
    refine ⟨by simp [hsize], h.pos_le, ?_, fun a ha => ?_, fun a ha => ?_⟩
    · have := h.shown_le
      simp only [List.length_append]
      omega
    · rcases List.mem_append.1 ha with ha | ha
      · exact h.past a ha
      · exact Nat.le_of_eq (List.mem_singleton.1 ha)
    · rw [List.drop_append_of_le_length (hsize ▸ h.shown_le)] at ha
      rcases List.mem_append.1 ha with ha | ha
      · exact h.late a ha
      · rw [List.mem_singleton.1 ha]
        exact Nat.le_add_right _ _

theorem Seen.reader (h : Seen delay now d stamps shown) (hm : Fifo.Moved e d call e' d')
    (hmore : ∀ f, call = some (.next (.frame f)) → d.pos < shown) : Seen delay now d' stamps shown := by
  rcases hm.inp_cases with rfl | ⟨f, hcall, -, rfl⟩
  · exact h
  · exact ⟨h.size, hmore f hcall, h.shown_le, h.past, h.late⟩

end

/-! ## When the next frame is read -/

/-- The longest there is between a frame that is read and the next one that is appended.  At the start it has two parts:
until the writer has found the reader's SYN, and until its first heartbeat. -/
def Timing.quiet (T : Timing) (r : Role) : Nat :=
  T.delay + ns (T.rc r).pollInterval + ns (T.rc r).heartbeat + 7 * T.slack

/-- The longest there is between two frames that are read. -/
def Timing.bound (T : Timing) (r : Role) : Nat := T.quiet r + T.delay + ns (T.rc r.peer).pollMax + 5 * T.slack

/-- **By when the next frame of a direction is read**, with the writer at `C` and the reader, which is up, at `D`: `syn`
is the time of the reader's own SYN, and `answered` says how much the writer can see of the other direction. -/
structure Awaited (T : Timing) (r : Role) (C D : Conn) (kC kD : Clock) (d : Fifo) (stamps : List Nat) (shown : Nat)
    (syn : Option Nat) (answered : Nat) : Prop where
  unsent : C.phase = .up → d.pos = d.log.length → beatBy T.slack C kC ≤ D.lastRecv + T.quiet r
  unseen : ∀ a, stamps[d.pos]? = some a → a ≤ D.lastRecv + T.quiet r
  unread : d.pos < shown → readBy T.slack D kD ≤ D.lastRecv + T.bound r
  answer : ∀ a, syn = some a → a ≤ D.lastRecv
  coming : C.phase = .syn → 0 < answered → kC.rcvDue ≤ D.lastRecv + T.delay + ns (T.rc r).pollInterval

theorem MaintPc.left_le (p : MaintPc) : p.left ≤ 6 := by
  cases p with
  | ack p => cases p <;> simp [MaintPc.left]
  | wait | beat | fail | done => simp [MaintPc.left]

theorem RecvPc.left_le (p : RecvPc) : p.left ≤ 5 := by cases p <;> simp [RecvPc.left]

section
variable {T : Timing} {r : Role} {now shown answered : Nat} {more : Bool} {C C' D D' : Conn} {kC kC' kD kD' : Clock}
  {d d' e e' : Fifo} {stamps : List Nat} {syn : Option Nat} {call : Option Call}

theorem Steady.beatBy_le {rc : ResolvedConfig} {slack : Nat} (h : Steady rc slack now C kC) :
    beatBy slack C kC ≤ now + ns rc.heartbeat + 6 * slack := by
  have h1 := h.mntSoon
  have h2 := Nat.mul_le_mul_right slack C.mnt.left_le
  unfold beatBy
  omega

theorem Steady.readBy_le {rc : ResolvedConfig} {slack : Nat} (h : Steady rc slack now D kD) :
    readBy slack D kD ≤ now + ns rc.pollMax + 5 * slack := by
  have h1 := h.rcvSoon
  have h2 := Nat.mul_le_mul_right slack D.rcv.left_le
  unfold readBy
  omega

/-- A frame that has been appended and cannot be seen yet was appended a short while ago. -/
theorem Seen.hidden {delay : Nat} (h : Seen delay now d stamps shown) {n : Nat} (hn : shown ≤ n)
    (hlt : n < d.log.length) :
    ∃ a, stamps[n]? = some a ∧ now ≤ a + delay := by
  have hsize := h.size
  obtain ⟨a, ha⟩ : ∃ a, stamps[n]? = some a := ⟨_, List.getElem?_eq_getElem (by omega)⟩
  refine ⟨a, ha, h.late a ?_⟩
  refine List.mem_of_getElem? (i := n - shown) ?_
  rw [List.getElem?_drop, Nat.add_sub_cancel' hn]
  exact ha

theorem Awaited.now_le {stamps' : List Nat} (h : Awaited T r C D kC kD d stamps shown stamps'[0]? answered)
    (hC : Steady (T.rc r) T.slack now C kC) (hD : Steady (T.rc r.peer) T.slack now D kD) (hup : D.phase = .up)
    (hw : Written C D d) (hs : Seen T.delay now d stamps shown) (hs' : Seen T.delay now e stamps' answered)
    (he : e.log ≠ []) : now ≤ D.lastRecv + T.bound r := by
  have hb : T.bound r = T.quiet r + T.delay + ns (T.rc r.peer).pollMax + 5 * T.slack := rfl
  have hq : T.quiet r = T.delay + ns (T.rc r).pollInterval + ns (T.rc r).heartbeat + 7 * T.slack := rfl
  have hle := hs.pos_le
  have hle' := hs.shown_le
  by_cases hread : d.pos < shown
  · exact Nat.le_trans (soon (hD.rcvDue (.inr hup)) hD.rcv) (h.unread hread)
  by_cases hseen : d.pos < d.log.length
  · obtain ⟨a, ha, hlate⟩ := hs.hidden (Nat.le_of_not_lt hread) hseen
    have := h.unseen a ha
    omega
  have hpos : 0 < d.pos := hw.pos.1 hup
  have hend : d.pos = d.log.length := by omega
  cases hph : C.phase with
  | up =>
    have h1 := soon (hC.mntDue hph) hC.mnt
    have h2 := h.unsent hph hend
    unfold beatBy at h2
    omega
  | syn =>
    have hdue := hC.rcvDue (.inl hph)
    by_cases hans : 0 < answered
    · have := h.coming hph hans
      omega
    · obtain ⟨a, ha, hlate⟩ := hs'.hidden (n := 0) (by omega) (List.length_pos_iff.2 he)
      have := h.answer a ha
      omega
  | down =>
    rw [hw.begun.2 (.inl hph)] at hend
    simp at hend
    omega
  | opened =>
    rw [hw.begun.2 (.inr hph)] at hend
    simp at hend
    omega
  | abortW | abortR | failed =>
    have := hC.phase
    rw [hph] at this
    cases this

/-- A frame has just been read. -/
theorem Awaited.renew (hC : Steady (T.rc r) T.slack now C kC) (hs : Seen T.delay now d stamps shown)
    (hsyn : ∀ a, syn = some a → a ≤ now) (hl : D.lastRecv = now) (hread : readBy T.slack D kD ≤ now + 5 * T.slack) :
    Awaited T r C D kC kD d stamps shown syn answered := by
  have hb : T.bound r = T.quiet r + T.delay + ns (T.rc r.peer).pollMax + 5 * T.slack := rfl
  have hq : T.quiet r = T.delay + ns (T.rc r).pollInterval + ns (T.rc r).heartbeat + 7 * T.slack := rfl
  have hbeat := hC.beatBy_le
  refine ⟨fun _ _ => by omega, fun a ha => ?_, fun _ => by omega, fun a ha => hl ▸ hsyn a ha, fun hp _ => ?_⟩
  · have := hs.past a (List.mem_of_getElem? ha)
    omega
  · have := hC.synSoon hp
    omega

theorem Awaited.writer (h : Awaited T r C D kC kD d stamps shown syn answered) (hC : Steady (T.rc r) T.slack now C kC)
    (hup : D.phase = .up) (hw : Written C D d) (hs : Seen T.delay now d stamps shown)
    (he : Stir (T.rc r) T.slack now more C C' kC kC' call) (hm : Fifo.Moved d e call d' e')
    (hmore : C.phase = .syn → (more = true ↔ 0 < answered)) :
    Awaited T r C' D kC' kD d' (noted now stamps d'.log) shown syn answered := by
  have hq : T.quiet r = T.delay + ns (T.rc r).pollInterval + ns (T.rc r).heartbeat + 7 * T.slack := rfl
  have hsize := hs.size
  have hle := Nat.le_trans hs.pos_le hs.shown_le
  have hbegun : d.log ≠ [] := fun hn => by
    have := hw.pos.1 hup
    rw [hn] at hle
    exact absurd hle (Nat.not_le_of_lt this)
  -- no frame has been appended
  have hsame : d' = d → (C'.phase = .up → d.pos = d.log.length → beatBy T.slack C' kC' ≤ D.lastRecv + T.quiet r) →
      (C'.phase = .syn → 0 < answered → kC'.rcvDue ≤ D.lastRecv + T.delay + ns (T.rc r).pollInterval) →
      Awaited T r C' D kC' kD d' (noted now stamps d'.log) shown syn answered := by
    rintro rfl hbeat hdue
    rw [noted, if_neg (by omega)]
    exact ⟨hbeat, h.unseen, h.unread, h.answer, hdue⟩
  cases he with
  | opens hC0 => exact absurd (hw.begun.2 (.inl hC0)) hbegun
  | syn hC0 => exact absurd (hw.begun.2 (.inr hC0)) hbegun
  | waits hC0 hC' hl hpl hdue =>
    refine hsame (hm.still (fun x hx => .inl (hpl x hx))).1 (fun hu => by cases hu.symm.trans hC') (fun _ hans => ?_)
    rcases hdue with hdue | hdue
    · rw [(hmore hC0).2 hans] at hdue
      cases hdue
    · rw [hdue]
      exact h.coming hC0 hans
  | still hC0 hC' hl hno hbeat hread =>
    have hnot : C'.phase ≠ .syn := fun hs => by cases hs.symm.trans hC'
    rcases hm.out_cases with rfl | ⟨f, v, -, rfl⟩
    · refine hsame rfl (fun _ hend => ?_) (fun hs => absurd hs hnot)
      rcases hbeat with ⟨f, v, rfl⟩ | hbeat
      · have := congrArg (fun x => x.log.length) hm.append.1
        simp at this
      · exact Nat.le_trans hbeat (h.unsent hC0 hend)
    · have hnote : noted now stamps (d.log ++ [f]) = stamps ++ [now] := if_pos (by simp [hsize])
      show Awaited T r C' D kC' kD _ (noted now stamps (d.log ++ [f])) shown syn answered
      rw [hnote]
      refine ⟨fun _ hend => ?_, fun a ha => ?_, h.unread, h.answer, fun hs => absurd hs hnot⟩
      · simp only [List.length_append, List.length_singleton] at hend
        omega
      · rcases getElem?_concat_some ha with ha | ⟨hend, rfl⟩
        · exact h.unseen a ha
        · have h1 := h.unsent hC0 (hend.trans hsize)
          have h2 := soon (hC.mntDue hC0) hC.mnt
          unfold beatBy at h1
          omega
  | frame f hcall hmo hC' hl hread hbeat =>
    subst hcall
    refine hsame hm.frame.1 (fun _ hend => ?_) (fun hs => by cases hs.symm.trans hC')
    rcases hbeat with ⟨hC0, hbeat⟩ | ⟨hC0, hbeat⟩
    · exact Nat.le_trans hbeat (h.unsent hC0 hend)
    · have h1 := h.coming hC0 ((hmore hC0).1 hmo)
      have h2 := hC.rcvDue (.inl hC0)
      omega

theorem Awaited.reader (h : D.phase = .up → Awaited T r C D kC kD d stamps shown syn answered)
    (hC : Steady (T.rc r) T.slack now C kC) (hs' : Seen T.delay now d' stamps shown)
    (hsyn : ∀ a, syn = some a → a ≤ now)
    (he : Stir (T.rc r.peer) T.slack now (decide (d.pos < shown)) D D' kD kD' call) (hm : Fifo.Moved e d call e' d')
    (hup : D'.phase = .up) : Awaited T r C D' kC kD' d' stamps shown syn answered := by
  cases he with
  | opens _ hD' => cases hD'.symm.trans hup
  | syn _ hD' => cases hD'.symm.trans hup
  | waits _ hD' => cases hD'.symm.trans hup
  | frame f _ _ _ hl hread => exact .renew hC hs' hsyn hl hread
  | still hD _ hl hno _ hread =>
    have h := h hD
    rcases hm.inp_cases with rfl | ⟨f, hcall, -⟩
    · refine ⟨by rw [hl]; exact h.unsent, by rw [hl]; exact h.unseen, fun hlt => ?_, by rw [hl]; exact h.answer,
        by rw [hl]; exact h.coming⟩
      rcases hread with hread | hread
      · exact absurd hlt (of_decide_eq_false hread)
      · rw [hl]
        exact Nat.le_trans hread (h.unread hlt)
    · exact absurd hcall (hno f)

/-- More of the direction can be seen. -/
theorem Awaited.reveal {n : Nat} (h : Awaited T r C D kC kD d stamps shown syn answered)
    (hD : Steady (T.rc r.peer) T.slack now D kD) (hs : Seen T.delay now d stamps shown) (hn : n ≤ d.log.length) :
    Awaited T r C D kC kD d stamps n syn answered := by
  have hb : T.bound r = T.quiet r + T.delay + ns (T.rc r.peer).pollMax + 5 * T.slack := rfl
  refine ⟨h.unsent, h.unseen, fun hlt => ?_, h.answer, h.coming⟩
  by_cases hold : d.pos < shown
  · exact h.unread hold
  · obtain ⟨a, ha, hlate⟩ := hs.hidden (Nat.le_of_not_lt hold) (Nat.lt_of_lt_of_le hlt hn)
    have h1 := h.unseen a ha
    have h2 := hD.readBy_le
    omega

/-- More of the other direction can be seen. -/
theorem Awaited.answers {stamps' : List Nat} {n : Nat} (h : Awaited T r C D kC kD d stamps shown stamps'[0]? answered)
    (hC : Steady (T.rc r) T.slack now C kC) (hs' : Seen T.delay now e stamps' answered) (hn : n ≤ e.log.length) :
    Awaited T r C D kC kD d stamps shown stamps'[0]? n := by
  refine ⟨h.unsent, h.unseen, h.unread, h.answer, fun hp hlt => ?_⟩
  by_cases hold : 0 < answered
  · exact h.coming hp hold
  · obtain ⟨a, ha, hlate⟩ := hs'.hidden (n := 0) (Nat.le_of_not_lt hold) (Nat.lt_of_lt_of_le hlt hn)
    have h1 := h.answer a ha
    have h2 := hC.synSoon hp
    omega

end

/-! ## Whole runs -/

structure Lively (T : Timing) (s : Timed) : Prop where
  here    : ∀ r, s.gone r = false
  steady  : ∀ r, Steady (T.rc r) T.slack s.now (s.pipe.conn r) (s.clock r)
  written : ∀ r, Written (s.pipe.conn r) (s.pipe.conn r.peer) (s.pipe.dir r)
  seen    : ∀ r, Seen T.delay s.now (s.pipe.dir r) (s.stamps r) (s.shown r)
  heard   : ∀ r, (s.pipe.conn r.peer).phase = .up → Awaited T r (s.pipe.conn r) (s.pipe.conn r.peer) (s.clock r)
    (s.clock r.peer) (s.pipe.dir r) (s.stamps r) (s.shown r) (s.stamps r.peer)[0]? (s.shown r.peer)

section
variable {T : Timing} {s t : Timed}

theorem Lively.start (T : Timing) : Lively T (.start T) := by
  refine ⟨fun _ => rfl, fun r => ?_, fun r => ?_, fun r => ?_, fun r hup => by cases hup⟩
  · exact ⟨rfl, rfl, rfl, rfl, Nat.succ_pos 5, Nat.succ_pos 1, (fun f hf => by cases hf), fun _ => ⟨rfl, rfl⟩,
      Nat.le_refl _, rfl, (T.rc r).poll_le, fun _ => Nat.le_refl _, Nat.zero_le _, Nat.zero_le _,
      fun _ => Nat.zero_le _, Nat.zero_le _, fun _ => Nat.zero_le _, fun _ => Nat.zero_le _⟩
  · exact ⟨⟨fun _ => .inl rfl, fun _ => rfl⟩, (fun f hf => by cases hf), (fun hs => by cases hs),
      (fun f hf => by cases hf), ⟨(fun hs => by cases hs), fun hlt => by cases hlt⟩⟩
  · exact ⟨rfl, Nat.le_refl _, Nat.le_refl _, (fun a ha => by cases ha), fun a ha => by cases ha⟩

/-- An endpoint that has sent its SYN has a direction that is not empty. -/
theorem Lively.begun (h : Lively T s) {r : Role} (hp : (s.pipe.conn r).phase = .syn ∨ (s.pipe.conn r).phase = .up) :
    (s.pipe.dir r).log ≠ [] := by
  intro hn
  have := (h.written r).begun.1 hn
  rcases hp with hp | hp <;> (rw [hp] at this; rcases this with hn | hn <;> cases hn)

theorem Lively.now_le (h : Lively T s) (r : Role) (hup : (s.pipe.conn r.peer).phase = .up) :
    s.now ≤ (s.pipe.conn r.peer).lastRecv + T.bound r :=
  (h.heard r hup).now_le (h.steady r) (h.steady r.peer) hup (h.written r) (h.seen r) (h.seen r.peer)
  (h.begun (.inr hup))

/-- The frames an endpoint reads are none that would end it. -/
theorem Lively.frames (h : Lively T s) {x : Role} {f : Frame} {out : Fifo} {e' : Fifo}
    (hm : Fifo.Moved (s.pipe.dir x) (s.pipe.dir x.peer) (some (.next (.frame f))) out e') :
    f.typ ≠ frameError ∧ ((s.pipe.conn x).phase = .syn → ∃ p : Params, f = p.syn) := by
  obtain ⟨-, hf, -⟩ := hm.frame
  have hw := h.written x.peer
  rw [Role.peer_peer] at hw
  refine ⟨hw.sound f (List.mem_of_getElem? hf), fun hp => ⟨_, hw.first f ?_⟩⟩
  have hpos : ¬ 0 < (s.pipe.dir x.peer).pos := fun hlt => by cases hp.symm.trans (hw.pos.2 hlt)
  rwa [Nat.eq_zero_of_not_pos hpos] at hf

theorem noted_head {now : Nat} {stamps : List Nat} {log : List Frame} (h : stamps ≠ []) :
    (noted now stamps log)[0]? = stamps[0]? := by
  unfold noted
  split
  · exact List.getElem?_append_left (List.length_pos_iff.2 h)
  · rfl

theorem Lively.act {x : Role} {a : Act} (h : Lively T s) (hidle : ∀ r, T.bound r ≤ ns (T.rc r.peer).idleTimeout)
    (hcalm : a.calm = true) (hs : s.step T (.act x a) = some t) : Lively T t := by
  rw [Timed.step, Option.ite_none_right_eq_some, Option.map_eq_some_iff] at hs
  obtain ⟨⟨-, hready⟩, p, hp, rfl⟩ := hs
  obtain ⟨c, call, hstep, hconn, hmove⟩ := Pipe.step_fifo hp
  dsimp only at hstep hconn hmove
  have halive : (s.pipe.conn x).phase = .up → s.now ≤ (s.pipe.conn x).lastRecv + (s.pipe.conn x).idleTimeout := by
    intro hup
    have h1 := h.now_le x.peer (by rw [Role.peer_peer]; exact hup)
    have h2 := hidle x.peer
    rw [Role.peer_peer] at h1 h2
    rw [(h.steady x).idle]
    omega
  obtain ⟨hst, heff⟩ := (h.steady x).step hcalm hready hstep (fun f hf => h.frames (hf ▸ hmove)) halive
  have hcore := step_core hstep
  have hparams : c.params = (s.pipe.conn x).params := hcore.params
  have hsound : ∀ f v ok, call = some (.append f v ok) → f.typ ≠ frameError := by
    rintro f v ok rfl
    exact hcore.no_error
  have hw := h.written x
  have hw' := h.written x.peer
  have hs' := h.seen x.peer
  rw [Role.peer_peer] at hw'
  have hmore : ∀ f, call = some (.next (.frame f)) → (s.pipe.dir x.peer).pos < s.shown x.peer :=
    fun f hf => of_decide_eq_true (heff.seen hf).1
  refine ⟨h.here, fun r => ?_, fun r => ?_, fun r => ?_, fun r hup => ?_⟩
  · rcases Role.eq_or_peer r x with rfl | rfl
    · simp only [hconn, upd_self]
      exact hst
    · simp only [hconn, upd_peer]
      exact h.steady x.peer
  · rcases Role.eq_or_peer r x with rfl | rfl
    · simp only [hconn, upd_self, upd_peer]
      exact hw.writer heff hmove hparams hsound
    · simp only [hconn, upd_self, upd_peer, Role.peer_peer]
      exact hw'.reader heff hmove
  · rcases Role.eq_or_peer r x with rfl | rfl
    · simp only [upd_self]
      exact (h.seen r).writer hmove
    · simp only [upd_peer]
      exact hs'.reader hmove hmore
  · rcases Role.eq_or_peer r x with rfl | rfl
    · -- `x` writes: what it has yet to read of the other direction tells whether it has found the SYN
      simp only [hconn, upd_peer] at hup
      simp only [hconn, upd_self, upd_peer]
      refine (h.heard r hup).writer (h.steady r) hup hw (h.seen r) heff hmove (fun hp => ?_)
      have hpos : ¬ 0 < (s.pipe.dir r.peer).pos := fun hlt => by cases hp.symm.trans (hw'.pos.2 hlt)
      rw [Timed.more, decide_eq_true_iff, Nat.eq_zero_of_not_pos hpos]
    · simp only [hconn, upd_self, Role.peer_peer] at hup
      simp only [hconn, upd_self, upd_peer, Role.peer_peer]
      have hne : s.stamps x ≠ [] := fun hn => by
        have hsize := (h.seen x).size
        rw [hn] at hsize
        exact h.begun (heff.before hup) (List.length_eq_zero_iff.1 hsize.symm)
      have hh := h.heard x.peer
      rw [Role.peer_peer] at hh
      rw [noted_head hne]
      refine Awaited.reader hh (h.steady x.peer) (hs'.reader hmove hmore) (fun a ha => ?_) ?_ hmove hup
      · exact (h.seen x).past a (List.mem_of_getElem? ha)
      · rw [Role.peer_peer]
        exact heff

theorem Lively.reveal {x : Role} {n : Nat} (h : Lively T s) (hs : s.step T (.reveal x n) = some t) : Lively T t := by
  rw [Timed.step, Option.ite_none_right_eq_some] at hs
  obtain ⟨⟨hle, hlen⟩, hs⟩ := hs
  cases hs
  refine ⟨h.here, h.steady, h.written, fun r => ?_, fun r hup => ?_⟩
  · rcases Role.eq_or_peer r x with rfl | rfl
    · have hr := h.seen r
      simp only [upd_self]
      refine ⟨hr.size, Nat.le_trans hr.pos_le hle, hlen, hr.past, fun a ha => hr.late a ?_⟩
      exact List.drop_subset_drop_left _ hle ha
    · simp only [upd_peer]
      exact h.seen x.peer
  · have hr := h.heard r hup
    rcases Role.eq_or_peer r x with rfl | rfl
    · simp only [upd_self, upd_peer]
      exact hr.reveal (h.steady r.peer) (h.seen r) hlen
    · rw [Role.peer_peer] at hr ⊢
      simp only [upd_self, upd_peer]
      exact hr.answers (h.steady x.peer) (h.seen x) hlen

theorem Lively.pass {d : Nat} (h : Lively T s) (hs : s.step T (.pass d) = some t) : Lively T t := by
  rw [Timed.step, Option.ite_none_right_eq_some, Bool.and_eq_true] at hs
  obtain ⟨⟨hi, ha⟩, hs⟩ := hs
  cases hs
  have hw : ∀ r, s.waits T (s.now + d) r = true := fun r => by cases r <;> assumption
  refine ⟨h.here, fun r => ?_, h.written, fun r => ?_, h.heard⟩
  all_goals
    have hr := hw r
    rw [Timed.waits, h.here r, Bool.false_or, Bool.and_eq_true] at hr
  · exact (h.steady r).pass hr.1
  · have hsn := h.seen r
    refine ⟨hsn.size, hsn.pos_le, hsn.shown_le, fun a ha => Nat.le_add_right_of_le (hsn.past a ha), fun a ha => ?_⟩
    exact of_decide_eq_true (List.all_eq_true.1 hr.2 a ha)

theorem Lively.step {l : TimedAct} (h : Lively T s) (hidle : ∀ r, T.bound r ≤ ns (T.rc r.peer).idleTimeout)
    (hcalm : l.calm = true) (hs : s.step T l = some t) : Lively T t := by
  cases l with
  | act x a => exact h.act hidle hcalm hs
  | reveal x n => exact h.reveal hs
  | pass d => exact h.pass hs
  | crash r => cases hcalm

/-- **A peer that is alive is never taken for a silent one**: as long as nobody closes, crashes or gives up its
handshake, no append of the handshake or of `maintLoop` fails and no reader meets an error, neither side's `IdleTimeout`
ends the pipe, if it is at least the longest time between two frames. -/
theorem never_idle (T : Timing) (ls : List TimedAct) (s : Timed) (hidle : ∀ r, T.bound r ≤ ns (T.rc r.peer).idleTimeout)
    (hcalm : ∀ l ∈ ls, l.calm = true) (hr : run (Timed.step T) (.start T) ls = some s) (r : Role) :
    (s.pipe.conn r).recvErr = none ∧
      ((s.pipe.conn r).phase = .up → s.now ≤ (s.pipe.conn r).lastRecv + T.bound r.peer) := by
  have h : Lively T s := Machine.inv_of_labels (P := fun l => TimedAct.calm l = true) (I := Lively T)
    (fun s l t h hl hs => h.step hidle hl hs) ls _ s (.start T) hcalm hr
  refine ⟨(h.steady r).fine, fun hup => ?_⟩
  have := h.now_le r.peer (by rw [Role.peer_peer]; exact hup)
  rwa [Role.peer_peer] at this

end

/-- A heartbeat every second, and the defaults. -/
def quickConfig : Config := { root := "/srv/fstun", heartbeat := 1000000000 }

/-- A second for the scheduler, twenty for the file system. -/
def quickTiming : Timing :=
  ⟨fun _ => quickConfig.resolved (fun _ => false), fun _ => quickConfig.params, 1000000000, 20000000000⟩

/-- The acceptor comes up at once, the initiator after a poll. -/
def quickHandshake : List TimedAct :=
  [.act .initiator (.hand (.openW true)), .act .initiator (.hand (.syn true)), .reveal .initiator 1,
   .act .acceptor (.hand (.openW true)), .act .acceptor (.hand (.syn true)), .pass 500,
   .act .acceptor (.hand (.turn (.frame quickConfig.params.syn) 500)), .act .initiator (.hand (.turn .notExist 500)),
   .reveal .acceptor 1, .pass 10000000, .act .initiator (.hand (.turn (.frame quickConfig.params.syn) 10000500))]

/-- The initiator's first heartbeat, and the acceptor reads it. -/
def firstHeartbeat : List TimedAct :=
  [.act .acceptor (.recv .go), .act .acceptor (.recv (.turn .incomplete 10000500)),
   .act .initiator (.recv .go), .act .initiator (.recv (.turn .incomplete 10000500)), .pass 1000000000,
   .act .initiator (.maint (.tick 1010000500)), .act .initiator (.maint (.go true 1010000500)),
   .act .initiator (.maint (.go true 1010000500)), .act .initiator (.maint (.go true 1010000500)),
   .act .acceptor (.recv .go), .act .acceptor (.recv .go), .reveal .initiator 2,
   .act .acceptor (.recv (.turn (.frame ⟨frameHeartbeat, 0, 1, 0, encodeUint64 1010000500⟩) 1010000500))]

theorem never_idle_firstHeartbeat :
    quickConfig.resolve (fun _ => false) = .ok (quickTiming.rc .initiator, quickTiming.params .initiator) ∧
      ∃ s, run (Timed.step quickTiming) (.start quickTiming) (quickHandshake ++ firstHeartbeat) = some s ∧
        (s.pipe.conn .acceptor).lastRecv = 1010000500 ∧ (s.pipe.conn .acceptor).recvErr = none := by
  refine ⟨rfl, ?_⟩
  obtain ⟨s, hs⟩ : ∃ s, run (Timed.step quickTiming) (.start quickTiming) (quickHandshake ++ firstHeartbeat) = some s :=
    Option.isSome_iff_exists.1 (by decide +kernel)
  have hlast : (run (Timed.step quickTiming) (.start quickTiming) (quickHandshake ++ firstHeartbeat)).map
      (fun s => (s.pipe.conn .acceptor).lastRecv) = some 1010000500 := by decide +kernel
  rw [hs, Option.map_some, Option.some.injEq] at hlast
  have hidle : ∀ r, quickTiming.bound r ≤ ns (quickTiming.rc r.peer).idleTimeout := fun r => by
    cases r <;> decide +kernel
  exact ⟨s, hs, hlast, (never_idle quickTiming _ s hidle (by decide) hs .acceptor).1⟩

end Fstun
end Ccb
