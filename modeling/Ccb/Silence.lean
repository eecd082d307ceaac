import Ccb.Keepalive
/-!
# Silence — a peer that is gone is noticed

At every tick of its ticker `maintLoop` compares the time since the last frame with `IdleTimeout`, and goes on to its
next tick or fails the pipe.  So a pipe whose reader hears nothing fails, whatever became of its peer: it crashed, it
closed, its appends fail, or its frames do not come through.  The bound is on where the loop stands (`Guarded`), and
every step of every goroutine keeps it.
-/
namespace Ccb
namespace Fstun

open Machine (run)

/-- `maintLoop` runs and has not failed the pipe. -/
def MaintPc.watching : MaintPc → Bool
  | .wait | .ack _ | .beat | .fail (.set _) => true
  | .fail _ | .done => false

/-- By when `maintLoop` has failed the pipe, if no frame is read. -/
def failBy (slack : Nat) (c : Conn) (k : Clock) : Nat :=
  match c.mnt with
  | .wait          => k.mntDue + 2 * slack
  | .fail (.set _) => k.mntDue + slack
  | p              => max k.tick (k.mntDue + p.left * slack) + 2 * slack

/-- The longest that a pipe is up after the last frame it has read: `IdleTimeout` may run out just after a tick. -/
def Timing.silence (T : Timing) (r : Role) : Nat :=
  ns (T.rc r).idleTimeout + max (ns (T.rc r).heartbeat) (5 * T.slack) + 2 * T.slack

/-- **An endpoint that is up, not closed and without an error is watched.** -/
structure Guarded (T : Timing) (r : Role) (now : Nat) (c : Conn) (k : Clock) : Prop where
  idle   : c.idleTimeout = ns (T.rc r).idleTimeout
  heard  : c.lastRecv ≤ now
  asleep : c.phase ≠ .up → c.mnt = .wait
  ticks  : c.mnt = .wait → k.tick ≤ k.mntDue
  watch  : c.phase = .up → c.closed = false → c.recvErr = none →
    c.mnt.watching = true ∧ now ≤ k.mntDue + T.slack ∧ failBy T.slack c k ≤ c.lastRecv + T.silence r

section
variable {T : Timing} {r : Role} {now : Nat} {more : Bool} {c c' : Conn} {k k' : Clock} {call : Option Call}

theorem Guarded.start (T : Timing) (r : Role) : Guarded T r 0 ((Timed.start T).pipe.conn r) ((Timed.start T).clock r) :=
  ⟨rfl, Nat.le_refl _, fun _ => rfl, fun _ => Nat.le_refl _, fun hup => by cases hup⟩

/-- `maintLoop` does not move, and no error and no closing is taken back. -/
theorem Guarded.keep (h : Guarded T r now c k) (hi : c'.idleTimeout = c.idleTimeout) (hp : c'.phase = c.phase)
    (hm : c'.mnt = c.mnt) (hd : k'.mntDue = k.mntDue) (ht : k'.tick = k.tick) (hl : c.lastRecv ≤ c'.lastRecv)
    (hn : c'.lastRecv ≤ now) (hc : c'.closed = false → c.closed = false) (he : c'.recvErr = none → c.recvErr = none) :
    Guarded T r now c' k' := by
  refine ⟨hi.trans h.idle, hn, by rw [hp, hm]; exact h.asleep, by rw [hm, ht, hd]; exact h.ticks,
    fun hup hcl hfine => ?_⟩
  obtain ⟨h1, h2, h3⟩ := h.watch (hp ▸ hup) (hc hcl) (he hfine)
  have hf : failBy T.slack c' k' = failBy T.slack c k := by rw [failBy, failBy, hm, hd, ht]
  exact ⟨hm ▸ h1, hd ▸ h2, by omega⟩

theorem Guarded.pass {d : Nat} (h : Guarded T r now c k) (hw : k.waits T.slack (now + d) c = true) :
    Guarded T r (now + d) c k := by
  refine ⟨h.idle, Nat.le_add_right_of_le h.heard, h.asleep, h.ticks, fun hup hcl hfine => ?_⟩
  obtain ⟨h1, -, h3⟩ := h.watch hup hcl hfine
  have hd : c.mnt ≠ .done := fun hd => by rw [hd] at h1; cases h1
  simp only [Clock.waits, hup, Bool.and_eq_true, Bool.or_eq_true, decide_eq_true_eq] at hw
  exact ⟨h1, hw.2.resolve_left hd, h3⟩

/-- It is noticed before it is due. -/
theorem Guarded.now_le (h : Guarded T r now c k) (hup : c.phase = .up) (hcl : c.closed = false)
    (he : c.recvErr = none) :
    now ≤ c.lastRecv + T.silence r := by
  obtain ⟨-, hdue, hfail⟩ := h.watch hup hcl he
  refine Nat.le_trans ?_ hfail
  unfold failBy
  split <;> omega

/-! ### maintLoop -/

/-- A step from one tick to the next. -/
theorem Guarded.onward {p : MaintPc} (h : Guarded T r now c k) (hup : c.phase = .up)
    (hpc : (∃ q, c.mnt = .ack q) ∨ c.mnt = .beat) (hp : (∃ q, p = .ack q) ∨ p = .beat) (hless : p.left + 1 ≤ c.mnt.left)
    (hv : c'.vitals = { c with mnt := p }.vitals)
    (hm : k'.mntDue = now) (ht : k'.tick = k.tick) : Guarded T r now c' k' := by
  simp only [Conn.vitals, Prod.mk.injEq] at hv
  obtain ⟨hph, hcl', -, he, hmnt, -, hl, hi⟩ := hv
  have hnw : c'.mnt ≠ .wait := by
    rw [hmnt]
    rcases hp with ⟨q, rfl⟩ | rfl <;> exact fun hw => by cases hw
  refine ⟨hi.trans h.idle, hl ▸ h.heard, fun hn => absurd (hph.trans hup) hn, fun hw => absurd hw hnw,
    fun _ hcl hfine => ?_⟩
  obtain ⟨-, h2, h3⟩ := h.watch hup (hcl' ▸ hcl) (he ▸ hfine)
  have hstep := in_time h2 hless
  have h3 : max k.tick (k.mntDue + c.mnt.left * T.slack) + 2 * T.slack ≤ c.lastRecv + T.silence r := by
    rcases hpc with ⟨q, hq⟩ | hq <;> (rw [failBy, hq] at h3; rw [hq]; exact h3)
  have h3' : failBy T.slack c' k' = max k.tick (now + p.left * T.slack) + 2 * T.slack := by
    rcases hp with ⟨q, rfl⟩ | rfl <;> rw [failBy, hmnt, hm, ht]
  refine ⟨?_, by omega, by omega⟩
  rw [hmnt]
  rcases hp with ⟨q, rfl⟩ | rfl <;> rfl

/-- The ticker has fired. -/
theorem Guarded.tick (h : Guarded T r now c k) (hup : c.phase = .up) (hm : c.mnt = .wait) (hdue : k.mntDue ≤ now) :
    Guarded T r now { c with mnt := if c.idleTimeout < now - c.lastRecv then .fail (.set .idle) else .ack .load }
      { k with mntDue := now, tick := nextTick (ns (T.rc r).heartbeat) k.tick now } := by
  have hnext : nextTick (ns (T.rc r).heartbeat) k.tick now ≤ _ := nextTick_le (Nat.le_trans (h.ticks hm) hdue)
  have hsil : T.silence r = ns (T.rc r).idleTimeout + max (ns (T.rc r).heartbeat) (5 * T.slack) + 2 * T.slack := rfl
  refine ⟨h.idle, h.heard, fun hn => absurd hup hn, fun hw => ?_, fun _ hcl hfine => ?_⟩
  · dsimp only at hw
    split at hw <;> cases hw
  · obtain ⟨-, h2, h3⟩ := h.watch hup hcl hfine
    rw [failBy, hm] at h3
    dsimp only at h3
    by_cases hidle : c.idleTimeout < now - c.lastRecv
    · rw [if_pos hidle]
      refine ⟨rfl, Nat.le_add_right _ _, ?_⟩
      show now + T.slack ≤ c.lastRecv + T.silence r
      omega
    · rw [if_neg hidle]
      refine ⟨rfl, Nat.le_add_right _ _, ?_⟩
      show max (nextTick (ns (T.rc r).heartbeat) k.tick now) (now + 5 * T.slack) + 2 * T.slack ≤ c.lastRecv + _
      rw [h.idle] at hidle
      omega

theorem Guarded.fail {p : FailPc} {q : Option FailPc} {pc : MaintPc} {c₁ : Conn} (h : Guarded T r now c k)
    (hup : c.phase = .up) (hm : c.mnt = .fail p) (hf : c.failStep p = (c₁, q)) (hpc : pc ≠ .wait) :
    Guarded T r now { c₁ with mnt := pc } k' := by
  have hfr := Conn.failStep_frame hf
  refine ⟨?_, ?_, fun hn => ?_, fun hw => absurd hw hpc, fun _ hcl hfine => ?_⟩
  · rw [hfr]
    exact h.idle
  · rw [hfr]
    exact h.heard
  · rw [hfr] at hn
    exact absurd hup hn
  · cases p with
    | set e => cases hf; cases hfine
    | sigData | sigFlow | dead =>
      cases hf
      have := (h.watch hup hcl hfine).1
      rw [hm] at this
      cases this

theorem Guarded.maint_step {a : MaintAct} (h : Guarded T r now c k) (hup : c.phase = .up)
    (hready : k.ready now more (.maint a) = true) (hs : c.MaintStep a c' call) :
    Guarded T r now c' (k.next (T.rc r) now c c' (.maint a)) := by
  cases hs with
  | tick n hm =>
    simp only [Clock.ready, Bool.and_eq_true, decide_eq_true_eq] at hready
    obtain ⟨rfl, hdue⟩ := hready
    exact h.tick hup hm hdue
  | stop _ hc =>
    exact ⟨h.idle, h.heard, fun hn => absurd hup hn, (fun hw => by cases hw), fun _ hcl => by cases hcl.symm.trans hc⟩
  | ack p ok n hm hs =>
    have hless := ackStep_left hs
    obtain ⟨seq, last, rfl⟩ := Conn.ackStep_frame hs
    rw [Clock.next_go (fun hw => by cases hw)]
    exact h.onward hup (.inl ⟨p, hm⟩) (.inl ⟨_, rfl⟩) (by rw [hm]; exact hless) rfl rfl rfl
  | acked p ok n hm hs =>
    have hless := ackStep_done_left hs
    obtain ⟨seq, last, rfl⟩ := Conn.ackStep_frame hs
    rw [Clock.next_go (fun hw => by cases hw)]
    exact h.onward hup (.inl ⟨p, hm⟩) (.inr rfl) (by rw [hm]; exact hless) rfl rfl rfl
  | beat ok n hm =>
    obtain ⟨seq, he⟩ := c.emit_frame (encodeUint64 (.ofNat n)) ok (show frameHeartbeat ≠ frameDATA by decide)
    rw [he]
    refine ⟨h.idle, h.heard, fun hn => absurd hup hn, fun _ => Nat.le_max_left _ _, fun _ hcl hfine => ⟨rfl, ?_, ?_⟩⟩
    · exact Nat.le_trans (Nat.le_max_right k.tick now) (Nat.le_add_right _ _)
    · obtain ⟨-, h2, h3⟩ := h.watch hup hcl hfine
      rw [failBy, hm] at h3
      show max k.tick now + 2 * T.slack ≤ _
      have h3 : max k.tick (k.mntDue + 1 * T.slack) + 2 * T.slack ≤ c.lastRecv + T.silence r := h3
      show _ ≤ c.lastRecv + T.silence r
      omega
  | fail p ok n hm hf => exact h.fail hup hm hf (fun hw => by cases hw)
  | failed p ok n hm hf => exact h.fail hup hm hf (fun hw => by cases hw)

/-! ### The other goroutines -/

theorem waitSYN_cases (c : Conn) (t : Turn) (now : Nat) :
    c.waitSYN t now = { c with phase := .up, lastRecv := now } ∨ c.waitSYN t now = c ∨ c.waitSYN t now = c.abort := by
  unfold Conn.waitSYN
  (repeat' split) <;> simp only [true_or, or_true]

/-- The handshake is not over. -/
theorem Guarded.before (h : Guarded T r now c k) (hp : c.phase ≠ .up) (hp' : c'.phase ≠ .up)
    (hi : c'.idleTimeout = c.idleTimeout) (hm : c'.mnt = c.mnt) (hl : c'.lastRecv = c.lastRecv)
    (hd : k'.mntDue = k.mntDue) (ht : k'.tick = k.tick) : Guarded T r now c' k' :=
  ⟨hi.trans h.idle, hl ▸ h.heard, fun _ => hm.trans (h.asleep hp), by rw [hm, hd, ht]; exact h.ticks,
    fun hup => absurd hup hp'⟩

theorem Guarded.hand_step {a : HandAct} (h : Guarded T r now c k) (hready : k.ready now more (.hand a) = true)
    (hs : c.HandStep a c' call) : Guarded T r now c' (k.next (T.rc r) now c c' (.hand a)) := by
  have hp := hs.not_up
  cases hs with
  | openW ok => exact h.before hp (by cases ok <;> (intro hu; cases hu)) rfl rfl rfl rfl rfl
  | syn ok => cases ok <;> exact h.before hp (fun hu => by cases hu) rfl rfl rfl rfl rfl
  | giveUp => exact h.before hp (fun hu => by cases hu) rfl rfl rfl rfl rfl
  | closeW => exact h.before hp (fun hu => by cases hu) rfl rfl rfl rfl rfl
  | closeR => exact h.before hp (fun hu => by cases hu) rfl rfl rfl rfl rfl
  | turn t n hsyn =>
    simp only [Clock.ready, Bool.and_eq_true, decide_eq_true_eq] at hready
    obtain ⟨⟨rfl, -⟩, -⟩ := hready
    have hkeep : ∀ c', c'.phase ≠ .up →
        (k.next (T.rc r) n c c' (.hand (.turn t n))).mntDue = k.mntDue ∧
          (k.next (T.rc r) n c c' (.hand (.turn t n))).tick = k.tick := by
      intro c' hne
      rw [show k.next (T.rc r) n c c' (.hand (.turn t n)) = _ from if_neg hne]
      split <;> exact ⟨rfl, rfl⟩
    rcases waitSYN_cases c t n with hw | hw | hw
    · rw [hw]
      refine ⟨h.idle, Nat.le_refl _, fun hn => absurd rfl hn, fun _ => Nat.le_refl _, fun _ _ _ => ?_⟩
      have hsil : T.silence r = ns (T.rc r).idleTimeout + max (ns (T.rc r).heartbeat) (5 * T.slack) + 2 * T.slack := rfl
      have hm := h.asleep hp
      refine ⟨by show c.mnt.watching = true; rw [hm]; rfl, ?_, ?_⟩
      · exact Nat.le_trans (Nat.le_add_right _ _) (Nat.le_add_right _ _)
      · rw [failBy, show ({ c with phase := .up, lastRecv := n } : Conn).mnt = .wait from hm]
        show n + ns (T.rc r).heartbeat + 2 * T.slack ≤ n + T.silence r
        omega
    · rw [hw]
      exact h.before hp hp rfl rfl rfl (hkeep c hp).1 (hkeep c hp).2
    · rw [hw]
      have hne : c.abort.phase ≠ .up := fun hu => by cases hu
      exact h.before hp hne rfl rfl rfl (hkeep _ hne).1 (hkeep _ hne).2

theorem Guarded.recv_step {a : RecvAct} (h : Guarded T r now c k) (hready : k.ready now more (.recv a) = true)
    (hs : c.RecvStep a c' call) : Guarded T r now c' (k.next (T.rc r) now c c' (.recv a)) := by
  have hfr := hs.frame
  have hk : (k.next (T.rc r) now c c' (.recv a)).mntDue = k.mntDue ∧
      (k.next (T.rc r) now c c' (.recv a)).tick = k.tick := by
    cases a with
    | turn t n => cases t <;> exact ⟨rfl, rfl⟩
    | go | stop => exact ⟨rfl, rfl⟩
  have hlast : c'.lastRecv = c.lastRecv ∨ c'.lastRecv = now := by
    cases hs with
    | next t n =>
      simp only [Clock.ready, Bool.and_eq_true, decide_eq_true_eq] at hready
      cases t with
      | frame f => exact .inr hready.1.1
      | again | incomplete | notExist | corrupt | badRoll | ioError => exact .inl rfl
    | dispatch f =>
      unfold Conn.dispatch
      (repeat' split) <;> exact .inl rfl
    | fail p _ hf => exact .inl (by rw [Conn.failStep_frame hf])
    | failed p _ hf =>
      refine .inl ?_
      rw [Conn.failStep_frame hf]
      rfl
    | stop | top | sigData | sigFlow | poll | polled | reap => exact .inl rfl
  have hheard := h.heard
  refine h.keep (by rw [hfr]) (by rw [hfr]) (by rw [hfr]) hk.1 hk.2 (by omega) (by omega) (fun hc => ?_) hs.recvErr
  rw [hfr] at hc
  exact hc

theorem Guarded.step {a : Act} (h : Guarded T r now c k) (hready : k.ready now more a = true)
    (hs : c.step a = some (c', call)) : Guarded T r now c' (k.next (T.rc r) now c c' a) := by
  have hle := Nat.le_refl c.lastRecv
  cases Conn.step_some hs with
  | hand hs => exact h.hand_step hready (Conn.handStep_some hs)
  | read _ hs =>
    rw [(Conn.readStep_some hs).frame]
    exact h.keep rfl rfl rfl rfl rfl hle h.heard id id
  | write _ hs =>
    rw [(Conn.writeStep_some hs).frame]
    exact h.keep rfl rfl rfl rfl rfl hle h.heard id id
  | close _ hs =>
    have hcl := Conn.closeStep_some hs
    refine h.keep (by rw [hcl.frame]) (by rw [hcl.frame]) (by rw [hcl.frame]) rfl rfl (by rw [hcl.frame])
      (by rw [hcl.frame]; exact h.heard) (fun hc => ?_) (fun he => by rw [hcl.frame] at he; exact he)
    cases hcl with
    | closeCh => cases hc
    | fin ok =>
      obtain ⟨seq, he⟩ := c.emit_frame [] ok (show frameFIN ≠ frameDATA by decide)
      rw [he] at hc
      exact hc
    | call | setClosed | waitRecv | closeW | closeR | markDead => exact hc
  | recv _ hs => exact h.recv_step hready (Conn.recvStep_some hs)
  | maint hup hs => exact h.maint_step hup hready (Conn.maintStep_some hs)
  | deadline _ hs =>
    rw [(Conn.deadlineStep_frame hs).2]
    exact h.keep rfl rfl rfl rfl rfl hle h.heard id id

end

/-! ## Whole runs -/

def Watchful (T : Timing) (s : Timed) : Prop :=
  ∀ r, s.gone r = false → Guarded T r s.now (s.pipe.conn r) (s.clock r)

theorem Watchful.step {T : Timing} {s t : Timed} {l : TimedAct} (h : Watchful T s) (hs : s.step T l = some t) :
    Watchful T t := by
  intro r hr
  cases l with
  | act x a =>
    rw [Timed.step, Option.ite_none_right_eq_some, Option.map_eq_some_iff] at hs
    obtain ⟨⟨hgone, hready⟩, p, hp, rfl⟩ := hs
    obtain ⟨c, call, hstep, hconn, -⟩ := Pipe.step_fifo hp
    dsimp only at hstep hconn hr
    rcases Role.eq_or_peer r x with rfl | rfl
    · simp only [hconn, upd_self]
      exact (h r hgone).step hready hstep
    · simp only [hconn, upd_peer]
      exact h x.peer hr
  | reveal x n =>
    rw [Timed.step, Option.ite_none_right_eq_some] at hs
    obtain ⟨-, hs⟩ := hs
    cases hs
    exact h r hr
  | pass d =>
    rw [Timed.step, Option.ite_none_right_eq_some, Bool.and_eq_true] at hs
    obtain ⟨⟨hi, ha⟩, hs⟩ := hs
    cases hs
    have hw : s.waits T (s.now + d) r = true := by cases r <;> assumption
    have hg : s.gone r = false := hr
    rw [Timed.waits, hg, Bool.false_or, Bool.and_eq_true] at hw
    exact (h r hg).pass hw.1
  | crash x =>
    cases hs
    dsimp only at hr
    rcases Role.eq_or_peer r x with rfl | rfl
    · rw [upd_self] at hr
      cases hr
    · rw [upd_peer] at hr
      exact h x.peer hr

/-- **Silence is noticed**, whatever the peer does and whatever becomes of it: an endpoint that has not crashed or been
closed and has no error read its last frame at most `IdleTimeout` and a tick ago. -/
theorem silence_noticed (T : Timing) (ls : List TimedAct) (s : Timed) (hr : run (Timed.step T) (.start T) ls = some s)
    (r : Role) (hgone : s.gone r = false) (hup : (s.pipe.conn r).phase = .up) (hopen : (s.pipe.conn r).closed = false)
    (hfine : (s.pipe.conn r).recvErr = none) : s.now ≤ (s.pipe.conn r).lastRecv + T.silence r :=
  (Machine.inv_of_step (I := Watchful T) (fun _ _ _ h hs => h.step hs) ls _ s (fun r _ => .start T r) hr r hgone).now_le
    hup hopen hfine

/-- The initiator crashes, and the acceptor, which gives it a second and a half, is left with its ticks. -/
def crashTiming : Timing :=
  { quickTiming with rc := fun _ => { quickConfig with idleTimeout := 1500000000 }.resolved (fun _ => false) }

def firstTick : List TimedAct :=
  [.crash .initiator, .act .acceptor (.recv .go), .act .acceptor (.recv (.turn .incomplete 10000500)), .pass 990000000,
   .act .acceptor (.maint (.tick 1000000500)), .act .acceptor (.maint (.go true 1000000500)),
   .act .acceptor (.maint (.go true 1000000500)), .act .acceptor (.maint (.go true 1000000500))]

def secondTick : List TimedAct :=
  [.act .acceptor (.recv .go), .act .acceptor (.recv .go), .act .acceptor (.recv (.turn .incomplete 1000000500)),
   .pass 1000000000, .act .acceptor (.maint (.tick 2000000500)), .act .acceptor (.maint (.go true 2000000500))]

theorem silence_noticed_crash :
    ∃ s t, run (Timed.step crashTiming) (.start crashTiming) (quickHandshake ++ firstTick) = some s ∧
      s.gone .initiator = true ∧ s.now ≤ (s.pipe.conn .acceptor).lastRecv + crashTiming.silence .acceptor ∧
      run (Timed.step crashTiming) s secondTick = some t ∧ (t.pipe.conn .acceptor).recvErr = some .idle := by
  obtain ⟨s, hs⟩ : ∃ s, run (Timed.step crashTiming) (.start crashTiming) (quickHandshake ++ firstTick) = some s :=
    Option.isSome_iff_exists.1 (by decide +kernel)
  have hseen : (run (Timed.step crashTiming) (.start crashTiming) (quickHandshake ++ firstTick)).map (fun s =>
      ((s.gone .initiator, s.gone .acceptor),
        ((s.pipe.conn .acceptor).phase, (s.pipe.conn .acceptor).closed, (s.pipe.conn .acceptor).recvErr),
        (run (Timed.step crashTiming) s secondTick).map (fun t => (t.pipe.conn .acceptor).recvErr))) =
      some ((true, false), (.up, false, none), some (some .idle)) := by decide +kernel
  simp only [hs, Option.map_some, Option.some.injEq, Prod.mk.injEq] at hseen
  obtain ⟨⟨hgone, hhere⟩, ⟨hup, hopen, hfine⟩, hlater⟩ := hseen
  obtain ⟨t, ht, herr⟩ := Option.map_eq_some_iff.1 hlater
  exact ⟨s, t, hs, hgone, silence_noticed crashTiming _ s hs .acceptor hhere hup hopen hfine, ht, herr⟩

end Fstun
end Ccb
