import Ccb.SegRefine
/-!
# PipeRefine — a pipe over segment files is a pipe over logs

When the file operations succeed and no segment index wraps, every step of a pipe over `segFiles` is the same step of a
pipe over `fifo` with the same endpoints (`FileSim.step`), so what holds of every run over `fifo` holds of its
endpoints. A reader that has been closed is not asked again (`Settled`).
-/
namespace Ccb
namespace Fstun

/-- A `Close` that has seen `recvDone`. -/
def ClosePc.pastWait : ClosePc → Bool
  | .closeW | .closeR | .markDead | .done => true
  | _ => false

/-- The endpoint's reader has been closed, or will never be used. -/
def Conn.shut (c : Conn) : Bool := decide (c.phase = .failed) || decide (c.clo = .markDead) || decide (c.clo = .done)

/-- Once `recvLoop` is over it stays over, and only then does `Close` go on to the files. -/
structure Settled (c : Conn) : Prop where
  early : c.phase ≠ .up → c.clo = .idle
  done  : c.recvDone = true → c.rcv = .done
  past  : c.clo.pastWait = true → c.rcv = .done

section
variable {c c' : Conn} {call : Option Call}

theorem Settled.congr (h : Settled c) (hp : c'.phase = c.phase) (hc : c'.clo = c.clo) (hd : c'.recvDone = c.recvDone)
    (hr : c'.rcv = c.rcv) : Settled c' :=
  ⟨by rw [hp, hc]; exact h.early, by rw [hd, hr]; exact h.done, by rw [hc, hr]; exact h.past⟩

/-- The fields the end of an endpoint's life depends on. -/
def Conn.life (c : Conn) : Phase × ClosePc × Bool × RecvPc := (c.phase, c.clo, c.recvDone, c.rcv)

theorem Settled.of_life (h : Settled c) (hl : c'.life = c.life) : Settled c' := by
  simp only [Conn.life, Prod.mk.injEq] at hl
  exact h.congr hl.1 hl.2.1 hl.2.2.1 hl.2.2.2

/-- An append, or nothing. -/
def Sends (call : Option Call) : Prop := ∀ x ∈ call, ∃ f e ok, x = .append f e ok

theorem Sends.none : Sends none := fun _ hx => by cases hx

/-- A step that leaves the end of the endpoint's life alone. -/
structure Aside (c : Conn) (call : Option Call) (c' : Conn) : Prop where
  life   : c'.life = c.life
  closed : c'.closed = c.closed
  sends  : Sends call

theorem emit_sends (typ : FrameType) (payload : List UInt8) (ok : Bool) : Sends (c.emit typ payload ok).2.1 := by
  unfold Conn.emit
  split
  · exact .none
  · exact fun x hx => by cases hx; exact ⟨_, _, _, rfl⟩

theorem ackStep_sends {due : UInt64 → Bool} {p : AckPc} {ok : Bool} {c₁ : Conn} {p' : Option AckPc}
    (h : c.ackStep due p ok = (c₁, p', call)) : Sends call := by
  have h : (c.ackStep due p ok).2.2 = call := congrArg (·.2.2) h
  subst h
  cases p with
  | emit rd => exact emit_sends frameACK (encodeUint64 rd) ok
  | load | due rd | note rd => exact .none

theorem readStep_life {a : ReadAct} (h : c.readStep a = some (c', call)) : Aside c call c' := by
  have hs := Conn.readStep_some h
  refine ⟨by rw [hs.frame]; rfl, by rw [hs.frame], ?_⟩
  cases hs with
  | ack data p ok hrd hs | acked data p ok hrd hs => exact ackStep_sends hs
  | call | check | arm | wake | timeout | closed => exact .none

theorem writeStep_life {a : WriteAct} (h : c.writeStep a = some (c', call)) : Aside c call c' := by
  have hs := Conn.writeStep_some h
  refine ⟨by rw [hs.frame]; rfl, by rw [hs.frame], ?_⟩
  cases hs with
  | emit sent rest room ok hwr hs =>
    have he := emit_sends (c := c) frameDATA (rest.take (chunkLen rest.length room c.params.maxFrame)) ok
    unfold Conn.writeEmit at hs
    dsimp only at hs
    split at hs
    all_goals
      rename_i hem
      rw [hem] at he
      cases hs
      exact he
  | call | window | errCheck | arm | wake | timeout | closed => exact .none

theorem maintStep_life {a : MaintAct} (h : c.maintStep a = some (c', call)) : Aside c call c' := by
  have hs := Conn.maintStep_some h
  refine ⟨by rw [hs.frame]; rfl, by rw [hs.frame], ?_⟩
  cases hs with
  | ack p ok now hm hs | acked p ok now hm hs => exact ackStep_sends hs
  | beat ok now => exact emit_sends frameHeartbeat (encodeUint64 (.ofNat now)) ok
  | tick | stop | fail | failed => exact .none

theorem deadlineStep_life {a : DeadlineAct} (h : c.deadlineStep a = some (c', call)) : Aside c call c' := by
  obtain ⟨rfl, hf⟩ := Conn.deadlineStep_frame h
  exact ⟨by rw [hf]; rfl, by rw [hf], .none⟩

/-- **Only `Close` moves `Close`.** -/
theorem step_clo {a : Act} (h : c.step a = some (c', call)) :
    c'.clo = c.clo ∨ ∃ b, a = .close b ∧ c.closeStep b = some (c', call) := by
  cases Conn.step_some h with
  | hand hs => exact .inl (by rw [(Conn.handStep_some hs).frame])
  | read _ hs => exact .inl (by rw [(Conn.readStep_some hs).frame])
  | write _ hs => exact .inl (by rw [(Conn.writeStep_some hs).frame])
  | close _ hs => exact .inr ⟨_, rfl, hs⟩
  | recv _ hs => exact .inl (by rw [(Conn.recvStep_some hs).frame])
  | maint _ hs => exact .inl (by rw [(Conn.maintStep_some hs).frame])
  | deadline _ hs => exact .inl (by rw [(Conn.deadlineStep_frame hs).2])

/-- What a step does to the end of an endpoint's life. -/
structure LifeStep (c : Conn) (call : Option Call) (c' : Conn) : Prop where
  settled : Settled c'
  shut    : c.shut = true → c'.shut = true
  closeR  : call = some .closeR → c'.shut = true
  next    : ∀ t, call = some (.next t) → c.shut = false

theorem LifeStep.of_life (h : Settled c) (hl : Aside c call c') : LifeStep c call c' := by
  obtain ⟨hl, -, hs⟩ := hl
  have hshut : c'.shut = c.shut := by
    simp only [Conn.life, Prod.mk.injEq] at hl
    unfold Conn.shut
    rw [hl.1, hl.2.1]
  refine ⟨h.of_life hl, by rw [hshut]; exact id, fun hc => ?_, fun t hc => ?_⟩
  · obtain ⟨f, e, ok, hx⟩ := hs _ hc
    cases hx
  · obtain ⟨f, e, ok, hx⟩ := hs _ hc
    cases hx

theorem shut_of_idle (hp : c.phase ≠ .failed) (hc : c.clo = .idle) : c.shut = false := by
  unfold Conn.shut
  rw [hc]
  simp [hp]

/-- A step of a handshake that is still on. -/
theorem handStep_life {a : HandAct} (h : Settled c) (hs : c.handStep a = some (c', call)) : LifeStep c call c' := by
  have hs := Conn.handStep_some hs
  have hclo := h.early hs.not_up
  have hclo' : c'.clo = .idle := by rw [hs.frame]; exact hclo
  have hrcv : c'.rcv = c.rcv := by rw [hs.frame]
  have hdone : c'.recvDone = c.recvDone := by rw [hs.frame]
  have hshut : c.shut = false := by
    refine shut_of_idle (fun hf => ?_) hclo
    cases hs <;> (rename_i hp; cases hp.symm.trans hf)
  refine ⟨⟨fun _ => hclo', by rw [hdone, hrcv]; exact h.done, by rw [hclo']; exact fun h => by cases h⟩, ?_, ?_,
    fun _ _ => hshut⟩
  · rw [hshut]; exact fun h => by cases h
  · intro hx
    cases hs <;> cases hx
    rfl

theorem closeStep_life {a : CloseAct} (h : Settled c) (hup : c.phase = .up) (hs : c.closeStep a = some (c', call)) :
    LifeStep c call c' := by
  have hs := Conn.closeStep_some hs
  have hph : c'.phase = c.phase := by rw [hs.frame]
  have hd : c'.recvDone = c.recvDone := by rw [hs.frame]
  have hr : c'.rcv = c.rcv := by rw [hs.frame]
  -- A step of `Close` at `p`.
  have hmove : ∀ {p : ClosePc}, c.clo = p → (c'.clo.pastWait = true → c.rcv = .done) → p ≠ .markDead ∨ c'.clo = .done →
      p ≠ .done → (call = some .closeR → c'.clo = .markDead) → (∀ t, call ≠ some (.next t)) → LifeStep c call c' := by
    intro p hp hpast hnm hnd hc hn
    refine ⟨⟨fun hne => absurd (hph.trans hup) hne, by rw [hd, hr]; exact h.done, by rw [hr]; exact hpast⟩, ?_, ?_,
      fun t ht => absurd ht (hn t)⟩
    · intro hsh
      unfold Conn.shut at hsh ⊢
      rw [hp, hup] at hsh
      rcases hnm with hnm | hq
      · simp [hnm, hnd] at hsh
      · rw [hq]; simp
    · intro hx
      unfold Conn.shut
      rw [hc hx]; simp
  cases hs with
  | fin ok hc =>
    have hsend := emit_sends (c := c) frameFIN [] ok
    refine hmove hc (fun h => by cases h) (Or.inl (by decide)) (by decide) ?_ ?_
    · intro hx
      obtain ⟨f, e, ok, hx⟩ := hsend _ hx
      cases hx
    · intro t hx
      obtain ⟨f, e, ok, hx⟩ := hsend _ hx
      cases hx
  | call hc | setClosed ok hc | closeCh ok hc =>
    exact hmove hc (fun h => by cases h) (Or.inl (by decide)) (by decide) (fun h => by cases h) (fun t h => by cases h)
  | waitRecv ok hc hdone =>
    exact hmove hc (fun _ => h.done hdone) (Or.inl (by decide)) (by decide) (fun h => by cases h)
      (fun t h => by cases h)
  | closeW ok hc =>
    exact hmove hc (fun _ => h.past (by rw [hc]; rfl)) (Or.inl (by decide)) (by decide) (fun h => by cases h)
      (fun t h => by cases h)
  | closeR ok hc =>
    exact hmove hc (fun _ => h.past (by rw [hc]; rfl)) (Or.inl (by decide)) (by decide) (fun _ => rfl)
      (fun t h => by cases h)
  | markDead ok hc =>
    exact hmove hc (fun _ => h.past (by rw [hc]; rfl)) (Or.inr rfl) (by decide) (fun h => by cases h)
      (fun t h => by cases h)

theorem recvStep_life {a : RecvAct} (h : Settled c) (hup : c.phase = .up) (hs : c.recvStep a = some (c', call)) :
    LifeStep c call c' := by
  have hs := Conn.recvStep_some hs
  have hclo : c'.clo = c.clo := by rw [hs.frame]
  have hph : c'.phase = .up := by rw [hs.frame]; exact hup
  -- `recvLoop` moves only before its end, so no `Close` is past its wait.
  have hpast : c.clo.pastWait = false := by
    cases hp : c.clo.pastWait with
    | false => rfl
    | true => exact absurd (h.past hp) hs.running
  have hshut : c.shut = false := by
    unfold Conn.shut
    rw [hup]
    cases hclo : c.clo <;> first | rfl | (rw [hclo] at hpast; cases hpast)
  have hdone : c.recvDone = false := (Bool.not_eq_true _).mp fun hd => hs.running (h.done hd)
  refine ⟨⟨fun hne => absurd hph hne, fun hd => ?_, ?_⟩, ?_, fun hx => ?_, fun _ _ => hshut⟩
  · have hkept : ∀ {d : Bool}, d = c.recvDone → d = true → False := fun h1 h2 => by
      rw [h1, hdone] at h2
      cases h2
    cases hs with
    | stop | failed | polled => rfl
    | next t => exact (hkept (by cases t <;> rfl) hd).elim
    | dispatch f => exact (hkept (by unfold Conn.dispatch; (repeat' split) <;> rfl) hd).elim
    | fail p hr hf => exact (hkept (by rw [Conn.failStep_frame hf]) hd).elim
    | top | sigData | sigFlow | poll | reap => exact (hkept rfl hd).elim
  · rw [hclo, hpast]; exact fun h => by cases h
  · rw [hshut]; exact fun h => by cases h
  · cases hs <;> cases hx

/-- **A closed reader is never asked again.** -/
theorem Settled.step {a : Act} (h : Settled c) (hs : c.step a = some (c', call)) : LifeStep c call c' := by
  cases Conn.step_some hs with
  | hand hs => exact handStep_life h hs
  | read _ hs => exact .of_life h (readStep_life hs)
  | write _ hs => exact .of_life h (writeStep_life hs)
  | close hup hs => exact closeStep_life h hup hs
  | recv hup hs => exact recvStep_life h hup hs
  | maint _ hs => exact .of_life h (maintStep_life hs)
  | deadline _ hs => exact .of_life h (deadlineStep_life hs)

end

/-! ## The simulation -/

/-- **The frames an endpoint sends** are none of the writer's own and fit the format. -/
theorem Core.Step.sends {k k' : Core} {f : Frame} {e : UInt64} {ok : Bool}
    (h : Core.Step k (some (.append f e ok)) k') : f.typ ≠ frameROLL ∧ f.payload.length ≤ maxPayload := by
  cases h with
  | phase _ _ _ _ _ hpl => cases hpl _ rfl
  | closeLate _ _ _ _ _ hpl => cases hpl _ rfl
  | syn =>
    refine ⟨by show frameSYN ≠ _; decide, ?_⟩
    simp [Params.syn, SynParams.encode, maxPayload]
  | sendAck v =>
    refine ⟨by show frameACK ≠ _; decide, ?_⟩
    simp [Core.frame, encodeUint64, maxPayload]
  | sendBeat v =>
    refine ⟨by show frameHeartbeat ≠ _; decide, ?_⟩
    simp [Core.frame, encodeUint64, maxPayload]
  | sendFin => exact ⟨by show frameFIN ≠ _; decide, Nat.zero_le _⟩
  | sendData sent rest room =>
    refine ⟨by show frameDATA ≠ _; decide, ?_⟩
    show (k.chunk rest room).length ≤ _
    have h1 := (chunkLen_le rest.length room k.params.maxFrame).2.2
    have h2 := k.params.frame_le
    rw [Core.chunk, List.length_take]
    omega

variable {crc : List UInt8 → UInt32}

structure FileSim (s : Pipe (segFiles crc)) (u : Pipe fifo) : Prop where
  conn    : u.conn = s.conn
  dirs    : ∀ r, DirSim crc (s.conn r.peer).shut (s.dir r) (u.dir r)
  settled : ∀ r, Settled (s.conn r)

/-- The step does not roll a segment log past its last index. -/
def NoWrap (s : Pipe (segFiles crc)) (l : Label (segFiles crc)) : Prop :=
  match (s.conn l.role).step l.act with
  | some (_, some x) => SegDir.Fits crc (s.dir (x.dirOf l.role)) x
  | _ => True

instance (s : Pipe (segFiles crc)) (l : Label (segFiles crc)) : Decidable (NoWrap s l) :=
  match h : (s.conn l.role).step l.act with
  | some (_, some x) => decidable_of_iff (SegDir.Fits crc (s.dir (x.dirOf l.role)) x) (by rw [NoWrap, h])
  | some (_, none)   => .isTrue (by rw [NoWrap, h]; trivial)
  | none             => .isTrue (by rw [NoWrap, h]; trivial)

/-- One call, on both transports. -/
theorem DirSim.call {shut : Bool} {d d' : SegDir} {e : Fifo} {io : SegIo} {x : Call} (h : DirSim crc shut d e)
    (hio : io.Smooth) (hfit : d.Fits crc x)
    (hf : ∀ f a ok, x = .append f a ok → f.typ ≠ frameROLL ∧ f.payload.length ≤ maxPayload)
    (hn : ∀ t, x = .next t → shut = false) (hp : d.perform crc io x = some d') :
    ∃ e', e.perform x = some e' ∧ DirSim crc (shut || decide (x = .closeR)) d' e' := by
  cases x with
  | openW ok => exact ⟨e, rfl, by simpa using h.openW hp⟩
  | append f a ok =>
    obtain ⟨e', he, hs⟩ := h.append hio (hf f a ok rfl) hfit hp
    exact ⟨e', he, by simpa using hs⟩
  | reap ack =>
    cases hp
    exact ⟨e, rfl, by simpa using h.reap⟩
  | closeW =>
    cases hp
    exact ⟨e, rfl, by simpa using h.closeW⟩
  | next t =>
    obtain rfl := hn t rfl
    obtain ⟨e', he, hs⟩ := h.next hio.reopen hp
    exact ⟨e', he, by simpa using hs⟩
  | closeR =>
    cases hp
    exact ⟨e, rfl, by simpa using h.closeR⟩

/-- **Every step over segment files is the same step over logs.** -/
theorem FileSim.step {s t : Pipe (segFiles crc)} {u : Pipe fifo} {l : Label (segFiles crc)} (h : FileSim s u)
    (hio : SegIo.Smooth l.io) (hw : NoWrap s l) (hs : s.step l = some t) :
    ∃ u', u.step ⟨l.role, l.act, ()⟩ = some u' ∧ FileSim t u' := by
  obtain ⟨c, call, hc, hconn, hcall⟩ := Pipe.step_some hs
  have hlife := (h.settled l.role).step hc
  have hcu : (u.conn l.role).step l.act = some (c, call) := by rw [h.conn]; exact hc
  have hsettled : ∀ r, Settled (t.conn r) := by
    intro r
    rw [hconn]
    rcases Role.eq_or_peer r l.role with rfl | rfl
    · rw [upd_self]; exact hlife.settled
    · rw [upd_peer]; exact h.settled _
  -- Of the two directions only the one `l.role` reads depends on its reader being closed.
  have hkeep : ∀ r, r ≠ l.role.peer → (t.conn r.peer).shut = (s.conn r.peer).shut := by
    intro r hr
    obtain rfl : r = l.role := by
      rcases Role.eq_or_peer r l.role with h' | h'
      · exact h'
      · exact absurd h' hr
    rw [hconn, upd_peer]
  have hread : (s.conn l.role).shut = true → (t.conn l.role).shut = true := by
    rw [hconn, upd_self]; exact hlife.shut
  rcases hcall with ⟨rfl, hdir⟩ | ⟨x, d, rfl, hp, hdir⟩
  · refine ⟨_, Pipe.step_local hcu, ?_, fun r => ?_, hsettled⟩
    · rw [hconn, h.conn]
    · show DirSim crc _ (t.dir r) (u.dir r)
      rw [hdir]
      by_cases hr : r = l.role.peer
      · subst hr
        have := h.dirs l.role.peer
        rw [Role.peer_peer] at this ⊢
        exact this.mono hread
      · rw [hkeep r hr]; exact h.dirs r
  · have hfit : SegDir.Fits crc (s.dir (x.dirOf l.role)) x := by
      unfold NoWrap at hw
      rw [hc] at hw
      exact hw
    have hframe : ∀ f a ok, x = .append f a ok → f.typ ≠ frameROLL ∧ f.payload.length ≤ maxPayload := by
      rintro f a ok rfl
      exact (step_core hc).sends
    have hnext : ∀ y, x = .next y → (s.conn (x.dirOf l.role).peer).shut = false := by
      rintro y rfl
      rw [show Call.dirOf l.role (.next y) = l.role.peer from rfl, Role.peer_peer]
      exact hlife.next y rfl
    obtain ⟨e', he, hsim⟩ := (h.dirs (x.dirOf l.role)).call hio hfit hframe hnext hp
    refine ⟨_, Pipe.step_call hcu he, ?_, fun r => ?_, hsettled⟩
    · rw [hconn, h.conn]
    · show DirSim crc _ (t.dir r) (upd u.dir (x.dirOf l.role) e' r)
      rw [hdir]
      by_cases hr : r = x.dirOf l.role
      · subst hr
        rw [upd_self, show upd u.dir (x.dirOf l.role) e' (x.dirOf l.role) = e' from upd_self ..]
        refine hsim.mono fun hsh => ?_
        by_cases hrd : x.reads = true
        · rw [show x.dirOf l.role = l.role.peer from if_pos hrd, Role.peer_peer] at hsh ⊢
          rcases Bool.or_eq_true_iff.1 hsh with hsh | hsh
          · exact hread hsh
          · rw [hconn, upd_self]
            exact hlife.closeR (by rw [of_decide_eq_true hsh])
        · have hdo : x.dirOf l.role = l.role := if_neg hrd
          rw [hdo] at hsh ⊢
          rw [hkeep l.role (fun h => l.role.peer_ne h.symm)]
          rcases Bool.or_eq_true_iff.1 hsh with hsh | hsh
          · exact hsh
          · exact absurd (by rw [of_decide_eq_true hsh]; rfl) hrd
      · rw [upd_of_ne _ _ hr, upd_of_ne _ _ hr]
        by_cases hrp : r = l.role.peer
        · subst hrp
          have := h.dirs l.role.peer
          rw [Role.peer_peer] at this ⊢
          exact this.mono hread
        · rw [hkeep r hrp]; exact h.dirs r

theorem FileSim.start (p : Role → Params) (idle : Role → Nat) (netFS : Role → Bool) :
    FileSim (Pipe.startFiles crc p idle netFS) (Pipe.start p idle) where
  conn    := rfl
  dirs    := fun _ => Or.inl ⟨⟨rfl, rfl, rfl, rfl, rfl, fun _ => rfl, rfl, rfl⟩, rfl, rfl⟩
  settled := fun _ => ⟨fun _ => rfl, (fun h => by cases h), (fun h => by cases h)⟩

/-- **A run over segment files that never wraps has a run over logs beside it**, with the same endpoints and all its
invariants. -/
theorem fileSim_of_run {p : Role → Params} {idle : Role → Nat} {netFS : Role → Bool} {ls : List (Label (segFiles crc))}
    {s : Pipe (segFiles crc)} (hio : ∀ l ∈ ls, SegIo.Smooth l.io)
    (hw : Machine.Meets Pipe.step NoWrap (Pipe.startFiles crc p idle netFS) ls)
    (hr : Machine.run Pipe.step (Pipe.startFiles crc p idle netFS) ls = some s) :
    ∃ u, FileSim s u ∧ ∀ r, PipeInv (u.conn r).core (u.conn r.peer).core (u.dir r) (u.dir r.peer) := by
  refine Machine.inv_of_meets (I := fun s => ∃ u, FileSim s u ∧
    ∀ r, PipeInv (u.conn r).core (u.conn r.peer).core (u.dir r) (u.dir r.peer)) ?_ ls _ s ?_
    (hw.and_labels ls _ hio) hr
  · rintro s l t ⟨u, hsim, hinv⟩ ⟨hio, hw⟩ hs
    obtain ⟨u', hu, hsim'⟩ := hsim.step hio hw hs
    exact ⟨u', hsim', PipeInv.step u _ u' hinv hu⟩
  · exact ⟨_, .start p idle netFS, PipeInv.start p idle⟩

end Fstun
end Ccb
