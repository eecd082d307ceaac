import Ccb.Fidelity
/-!
# Tunnel — a pipe with the acceptor's side of its life

A `Tunnel` is the two endpoints over their segment files together with what the Listener does for the acceptor's one
(listen.go): `reapWhenDone` waits for `Done` and removes the subtree, and a new Listener's `startupScan` engages a
tunnel that another one has left.  (What the `Conn` of that one may still do is in `Ccb.Reengage`.)  The acceptor's
direction is the s2c one; `sent` and `got` are its history, the frames appended to it and those the initiator's reader
has returned.

`Close` makes `Done` fire whether or not the peer has read what was written before it.  In every run in which the
acceptor closes only after it has seen the peer's FIN, or in which the peer has read everything by the time
`reapWhenDone` sees `Done`, nothing unread is removed (`teardown_after_fin`).
-/
namespace Ccb
namespace Fstun

/-- Where `reapWhenDone` stands. -/
inductive ReaperPc where
  | waiting
  | removing
  | returned
  deriving DecidableEq, Repr

structure Tunnel (crc : List UInt8 → UInt32) where
  pipe   : Pipe (segFiles crc)
  reaper : ReaperPc := .waiting
  sent   : List Frame := []
  got    : List Frame := []

def Tunnel.start (crc : List UInt8 → UInt32) (p : Role → Params) (idle : Role → Nat) (netFS : Role → Bool) :
    Tunnel crc :=
  { pipe := Pipe.startFiles crc p idle netFS }

/-- `done` and `stop` are the cases of `reapWhenDone`'s `select`.  `reengage` is, after a crash or a stop of the
acceptor's Listener, the `startupScan` of a new one and its `accept` up to the `newSegWriter` of the handshake. -/
inductive TunnelLabel (crc : List UInt8 → UInt32) where
  | conn (l : Label (segFiles crc))
  | done
  | stop
  | removeAll
  | reengage

section
variable {crc : List UInt8 → UInt32}

/-- `os.RemoveAll` of a direction: the files stay with those who have them open. -/
def SegDir.removeAll (d : SegDir) : SegDir := { d with gone := true, names := fun _ => none }

/-- `newSegWriter` on a direction that may have a history. -/
def SegDir.newWriter (d : SegDir) : SegDir × Bool :=
  ({ d with cur := 0, f := none, size := 0, closed := false, reapOff := [] } : SegDir).openCur true

/-- The call a step makes. -/
def Pipe.call (s : Pipe (segFiles crc)) (l : Label (segFiles crc)) : Option Call :=
  match (s.conn l.role).step l.act with
  | some (_, call) => call
  | none => none

/-- The frame a call of `r` adds to the s2c direction. -/
def sentToInitiator (r : Role) : Option Call → List Frame
  | some (.append f _ true) => if r = .acceptor then [f] else []
  | _ => []

/-- The frame of the s2c direction a call of `r` returns. -/
def gotByInitiator (r : Role) : Option Call → List Frame
  | some (.next (.frame f)) => if r = .initiator then [f] else []
  | _ => []

theorem sentToInitiator_initiator (call : Option Call) : sentToInitiator .initiator call = [] := by
  unfold sentToInitiator
  split <;> rfl

theorem gotByInitiator_acceptor (call : Option Call) : gotByInitiator .acceptor call = [] := by
  unfold gotByInitiator
  split <;> rfl

/-- The endpoints and directions of a re-engaged tunnel: the acceptor that the tunnel has from now on is a new `Conn`
with a new writer and a new reader. -/
def Pipe.reengaged (s : Pipe (segFiles crc)) (d : SegDir) : Pipe (segFiles crc) :=
  ⟨upd s.conn .acceptor { params := (s.conn .acceptor).params, idleTimeout := (s.conn .acceptor).idleTimeout,
                          phase := .opened },
    upd (upd s.dir .initiator ({ s.dir .initiator with r := newSegReader } : SegDir)) .acceptor d⟩

def Tunnel.step (t : Tunnel crc) : TunnelLabel crc → Option (Tunnel crc)
  | .conn l =>
    match t.pipe.step l with
    | none   => none
    | some p =>
      some { t with pipe := p
                    sent := t.sent ++ sentToInitiator l.role (t.pipe.call l)
                    got  := t.got ++ gotByInitiator l.role (t.pipe.call l) }
  | .done =>
    if t.reaper = .waiting ∧ (t.pipe.conn .acceptor).phase = .up ∧ (t.pipe.conn .acceptor).dead = true then
      some { t with reaper := .removing }
    else none
  | .stop => if t.reaper = .waiting then some { t with reaper := .returned } else none
  | .removeAll =>
    if t.reaper = .removing then
      some { t with pipe := ⟨t.pipe.conn, fun r => SegDir.removeAll (t.pipe.dir r)⟩, reaper := .returned }
    else none
  | .reengage =>
    -- Only a tunnel whose c2s/000000.seg is visible is engaged.
    match (SegDir.view (t.pipe.dir .initiator)).lookup 0, SegDir.newWriter (t.pipe.dir .acceptor) with
    | some _, (d, true) =>
      some { t with pipe := t.pipe.reengaged d, reaper := .waiting }
    | _, _ => none

/-- What a step of an endpoint does to a tunnel. -/
theorem Tunnel.step_conn {t t' : Tunnel crc} {l : Label (segFiles crc)} (h : t.step (.conn l) = some t') :
    t.pipe.step l = some t'.pipe ∧ t'.sent = t.sent ++ sentToInitiator l.role (t.pipe.call l) ∧
      t'.got = t.got ++ gotByInitiator l.role (t.pipe.call l) := by
  simp only [Tunnel.step] at h
  split at h <;> cases h
  rename_i p hp
  exact ⟨hp, rfl, rfl⟩

/-! ## Teardown -/

/-- The frames of a direction up to its first FIN, that one included. -/
def throughFin : List Frame → List Frame
  | []      => []
  | f :: fs => if f.typ = frameFIN then [f] else f :: throughFin fs

/-- **The subtree is removed after a clean `Close` only when the initiator's reader has returned every frame up to the
FIN, or the initiator's own FIN has been seen.** -/
def TeardownSafe (t : Tunnel crc) : TunnelLabel crc → Prop
  | .removeAll => (t.pipe.conn .acceptor).clo = .done → (t.pipe.conn .acceptor).recvErr = none →
      throughFin t.sent <+: t.got ∨ (t.pipe.conn .acceptor).recvEOF = true
  | _ => True

/-- The acceptor calls `Close` only after it has dispatched the peer's FIN. -/
def ClosesAfterFin (t : Tunnel crc) : TunnelLabel crc → Prop
  | .conn l => l.role = .acceptor → l.act = .close .call → (t.pipe.conn .acceptor).recvEOF = true
  | _ => True

/-- When `reapWhenDone` sees `Done`, the pipe has failed, or the peer's FIN has been dispatched, or the `Close` is over
and the initiator's reader has returned every frame up to the FIN. -/
def ReadAtDone (t : Tunnel crc) : TunnelLabel crc → Prop
  | .done => (t.pipe.conn .acceptor).recvErr ≠ none ∨ (t.pipe.conn .acceptor).recvEOF = true ∨
      ((t.pipe.conn .acceptor).clo = .done ∧ throughFin t.sent <+: t.got)
  | _ => True

instance (t : Tunnel crc) : DecidablePred (TeardownSafe t)
  | .removeAll => inferInstanceAs (Decidable ((t.pipe.conn .acceptor).clo = .done →
      (t.pipe.conn .acceptor).recvErr = none →
        throughFin t.sent <+: t.got ∨ (t.pipe.conn .acceptor).recvEOF = true))
  | .conn _ | .done | .stop | .reengage => .isTrue trivial

instance (t : Tunnel crc) : DecidablePred (ClosesAfterFin t)
  | .conn l => inferInstanceAs (Decidable (l.role = .acceptor → l.act = .close .call →
      (t.pipe.conn .acceptor).recvEOF = true))
  | .removeAll | .done | .stop | .reengage => .isTrue trivial

instance (t : Tunnel crc) : DecidablePred (ReadAtDone t)
  | .done => inferInstanceAs (Decidable ((t.pipe.conn .acceptor).recvErr ≠ none ∨
      (t.pipe.conn .acceptor).recvEOF = true ∨ ((t.pipe.conn .acceptor).clo = .done ∧ throughFin t.sent <+: t.got)))
  | .conn _ | .removeAll | .stop | .reengage => .isTrue trivial

theorem Core.Step.recvEOF_mono {k k' : Core} {call : Option Call} (h : Core.Step k call k') (he : k.recvEOF = true) :
    k'.recvEOF = true := by
  cases h
  case fin => rfl
  all_goals exact he

/-- An endpoint that closes only after the peer's FIN has seen it whenever its `Close` has begun. -/
theorem closes_step {c c' : Conn} {a : Act} {call : Option Call} (h : c.clo ≠ .idle → c.recvEOF = true)
    (hg : a = .close .call → c.recvEOF = true) (hs : c.step a = some (c', call)) :
    c'.clo ≠ .idle → c'.recvEOF = true := by
  intro hne
  refine (step_core hs).recvEOF_mono (show c.recvEOF = true from ?_)
  rcases step_clo hs with hk | ⟨b, rfl, hb⟩
  · exact h (hk ▸ hne)
  · by_cases hidle : c.clo = .idle
    · cases b with
      | call => exact hg rfl
      | go ok => simp [Conn.closeStep, hidle] at hb
    · exact h hidle

theorem teardown_step {t t' : Tunnel crc} {l : TunnelLabel crc}
    (h : (t.pipe.conn .acceptor).clo ≠ .idle → (t.pipe.conn .acceptor).recvEOF = true) (hg : ClosesAfterFin t l)
    (hs : t.step l = some t') : (t'.pipe.conn .acceptor).clo ≠ .idle → (t'.pipe.conn .acceptor).recvEOF = true := by
  cases l with
  | conn l =>
    obtain ⟨c', call', hc', hconn, -⟩ := Pipe.step_some (Tunnel.step_conn hs).1
    rw [hconn]
    by_cases hr : l.role = .acceptor
    · rw [hr] at hc' ⊢
      rw [upd_self]
      exact closes_step h (fun ha => hg hr ha) hc'
    · rw [upd_of_ne _ _ (fun h => hr h.symm)]
      exact h
  | done =>
    simp only [Tunnel.step] at hs
    split at hs <;> cases hs
    exact h
  | stop =>
    simp only [Tunnel.step] at hs
    split at hs <;> cases hs
    exact h
  | removeAll =>
    simp only [Tunnel.step] at hs
    split at hs <;> cases hs
    exact h
  | reengage =>
    simp only [Tunnel.step] at hs
    split at hs <;> cases hs
    intro hne
    exact absurd rfl hne

/-! ### What is sent after a `Close` -/

theorem Core.Step.late {k k' : Core} {call : Option Call} (h : Core.Step k call k')
    (hk : k.clo.late = true → k.phase = .up ∧ k.sendClosed = true) :
    k'.clo.late = true → k'.phase = .up ∧ k'.sendClosed = true := by
  intro hl
  cases h with
  | phase _ _ hne => exact absurd (hk hl).1 hne
  | syn _ ho => cases ho.symm.trans (hk hl).1
  | hello _ ho => exact ⟨rfl, (hk hl).2⟩
  | refuse _ ho => cases ho.symm.trans (hk hl).1
  | sendFin | close => cases hl
  | closeSet hup => exact ⟨hup, rfl⟩
  | closeLate _ _ _ hlate => exact hk hlate
  | _ => exact hk hl

/-- An endpoint that has closed appends nothing. -/
theorem Core.Step.silent {k k' : Core} {call : Option Call} (h : Core.Step k call k') (hdone : k.clo = .done)
    (hk : k.phase = .up ∧ k.sendClosed = true) (r : Role) : sentToInitiator r call = [] := by
  have hplain : ∀ {call : Option Call}, (∀ x ∈ call, x.plain = true) → sentToInitiator r call = [] := by
    intro call hp
    unfold sentToInitiator
    split
    · cases hp _ rfl
    · rfl
  cases h with
  | phase _ _ _ _ _ hp | closeLate _ _ _ _ _ hp => exact hplain hp
  | syn _ ho => cases ho.symm.trans hk.1
  | sendAck _ _ _ _ _ hcl | sendBeat _ _ _ hcl | sendData _ _ _ _ _ _ hcl => cases hcl.symm.trans hk.2
  | sendFin _ _ hclo => cases hclo.symm.trans hdone
  | _ => rfl

/-- The `Conn` has failed, the peer's FIN has been dispatched, or everything up to the FIN has been read. -/
def Tunnel.Over (t : Tunnel crc) : Prop :=
  (t.pipe.conn .acceptor).recvErr ≠ none ∨ (t.pipe.conn .acceptor).recvEOF = true ∨
    ((t.pipe.conn .acceptor).clo = .done ∧ throughFin t.sent <+: t.got)

/-- A tunnel that is being removed is over, and a `Close` past its critical sections has set `sendClosed`. -/
structure Tunnel.Leaving (t : Tunnel crc) : Prop where
  late     : (t.pipe.conn .acceptor).clo.late = true →
    (t.pipe.conn .acceptor).phase = .up ∧ (t.pipe.conn .acceptor).sendClosed = true
  removing : t.reaper = .removing → t.Over

theorem Tunnel.Leaving.conn {t t' : Tunnel crc} {l : Label (segFiles crc)} (h : t.Leaving)
    (hs : t.step (.conn l) = some t') : t'.Leaving := by
  have hreaper : t'.reaper = t.reaper := by
    simp only [Tunnel.step] at hs
    split at hs <;> cases hs
    rfl
  obtain ⟨hstep, hsent, hgot⟩ := Tunnel.step_conn hs
  obtain ⟨c, call, hc, hconn, -⟩ := Pipe.step_some hstep
  have hcall : t.pipe.call l = call := by simp [Pipe.call, hc]
  rw [hcall] at hsent hgot
  have hread : t.got <+: t'.got := hgot ▸ List.prefix_append _ _
  obtain ⟨role, act, io⟩ := l
  cases role with
  | initiator =>
    have hsame : t'.pipe.conn .acceptor = t.pipe.conn .acceptor := by
      rw [hconn]
      exact upd_of_ne _ _ (fun h => by cases h)
    rw [sentToInitiator_initiator, List.append_nil] at hsent
    refine ⟨hsame ▸ h.late, fun hr => ?_⟩
    rcases h.removing (hreaper.symm.trans hr) with he | he | ⟨hclo, hpre⟩
    · exact Or.inl (hsame ▸ he)
    · exact Or.inr (Or.inl (hsame ▸ he))
    · exact Or.inr (Or.inr ⟨hsame ▸ hclo, hsent ▸ hpre.trans hread⟩)
  | acceptor =>
    have hsame : t'.pipe.conn .acceptor = c := by rw [hconn]; exact upd_self ..
    have hcore := step_core hc
    refine ⟨hsame ▸ hcore.late h.late, fun hr => ?_⟩
    rcases h.removing (hreaper.symm.trans hr) with he | he | ⟨hclo, hpre⟩
    · exact Or.inl (hsame ▸ fun hn => he (Conn.step_recvErr hc hn))
    · exact Or.inr (Or.inl (hsame ▸ hcore.recvEOF_mono he))
    · have hdone : c.clo = .done := by
        rcases step_clo hc with hk | ⟨b, rfl, hb⟩
        · exact hk.trans hclo
        · cases b <;> simp [Conn.closeStep, hclo] at hb
      rw [hcore.silent hclo (h.late (by rw [hclo]; rfl)), List.append_nil] at hsent
      exact Or.inr (Or.inr ⟨hsame ▸ hdone, hsent ▸ hpre.trans hread⟩)

theorem Tunnel.Leaving.step {t t' : Tunnel crc} {l : TunnelLabel crc} (h : t.Leaving) (hg : ReadAtDone t l)
    (hs : t.step l = some t') : t'.Leaving := by
  cases l with
  | conn l => exact h.conn hs
  | done =>
    simp only [Tunnel.step] at hs
    split at hs <;> cases hs
    exact ⟨h.late, fun _ => hg⟩
  | stop | removeAll =>
    simp only [Tunnel.step] at hs
    split at hs <;> cases hs
    exact ⟨h.late, fun hr => by cases hr⟩
  | reengage =>
    simp only [Tunnel.step] at hs
    split at hs <;> cases hs
    exact ⟨(fun hl => by cases hl), fun hr => by cases hr⟩

theorem Tunnel.Over.safe {t : Tunnel crc} (h : t.Over) : TeardownSafe t .removeAll := by
  intro _ hnone
  rcases h with he | he | ⟨-, hpre⟩
  · exact absurd hnone he
  · exact Or.inr he
  · exact Or.inl hpre

/-- **Teardown loses nothing when the acceptor closes last, or when the peer has read everything by `Done`.** -/
theorem teardown_after_fin (crc : List UInt8 → UInt32) (p : Role → Params) (idle : Role → Nat) (netFS : Role → Bool)
    (ls : List (TunnelLabel crc))
    (hm : Machine.Meets Tunnel.step ClosesAfterFin (Tunnel.start crc p idle netFS) ls ∨
      Machine.Meets Tunnel.step ReadAtDone (Tunnel.start crc p idle netFS) ls) :
    Machine.Meets Tunnel.step TeardownSafe (Tunnel.start crc p idle netFS) ls := by
  rcases hm with hm | hm
  · refine Machine.Meets.of_inv
      (I := fun t => (t.pipe.conn .acceptor).clo ≠ .idle → (t.pipe.conn .acceptor).recvEOF = true) ?_ ?_ ls _ ?_ hm
    · exact fun t l t' h hg hs => teardown_step h hg hs
    · intro t l t' h _ _
      cases l with
      | removeAll =>
        intro hdone _
        exact Or.inr (h (by rw [hdone]; exact fun h => by cases h))
      | conn | done | stop | reengage => trivial
    · exact fun hne => absurd rfl hne
  · refine Machine.Meets.of_inv (I := Tunnel.Leaving) ?_ ?_ ls _ ?_ hm
    · exact fun t l t' h hg hs => h.step hg hs
    · intro t l t' h _ hs
      cases l with
      | removeAll =>
        simp only [Tunnel.step] at hs
        split at hs <;> cases hs
        exact (h.removing (by assumption)).safe
      | conn | done | stop | reengage => trivial
    · exact ⟨(fun hl => by cases hl), fun hr => by cases hr⟩

end

/-! ## Runs -/

def conns (ls : List Step) : List (TunnelLabel (fun _ => 0)) := ls.map .conn

/-- The acceptor's `Close` from its call to the end, its `recvLoop` ready to stop. -/
def acceptorCloses : List Step :=
  [.acceptor (.close .call) [], .acceptor (.close (.go true)) [], .acceptor (.close (.go true)) [],
   .acceptor (.close (.go true)) [], .acceptor (.recv .go) [], .acceptor (.close (.go true)) [],
   .acceptor (.close (.go true)) [], .acceptor (.close (.go true)) [], .acceptor (.close (.go true)) []]

/-- The acceptor writes a byte. -/
def acceptorWrites : List Step :=
  [.acceptor (.write (.call [7])) [], .acceptor (.write (.go true)) [], .acceptor (.write (.go true)) [],
   .acceptor (.write (.go true)) []]

/-- The initiator's reader returns the byte and the FIN. -/
def initiatorReads : List Step :=
  [.initiator (.recv .go) [], .initiator (.recv (.turn .again 0)) [], .initiator (.recv (.turn .again 0)) [],
   .initiator (.recv (.turn .again 0)) [(1, 1000)], .initiator (.recv (.turn (.frame ⟨frameDATA, 0, 1, 0, [7]⟩) 0)) [],
   .initiator (.recv .go) [], .initiator (.recv .go) [], .initiator (.recv .go) [],
   .initiator (.recv (.turn .again 0)) [], .initiator (.recv (.turn .again 0)) [(2, 1000)],
   .initiator (.recv (.turn (.frame ⟨frameFIN, 0, 2, 1, []⟩) 0)) []]

def tunnelStart (netFS : Bool) : Tunnel (fun _ => 0) :=
  Tunnel.start (fun _ => 0) (fun _ => tiny) (fun _ => 0) (fun _ => netFS)

/-- The initiator's FIN is read before the acceptor's `Close`, or the acceptor's before it is removed. -/
theorem teardown_after_fin_goodbye :
    ((Machine.run Tunnel.step (tunnelStart true)
        (conns (greeting ++ delivery ++ goodbye ++ acceptorCloses) ++ [.done, .removeAll])).isSome = true ∧
      Machine.Meets Tunnel.step TeardownSafe (tunnelStart true)
        (conns (greeting ++ delivery ++ goodbye ++ acceptorCloses) ++ [.done, .removeAll])) ∧
    (Machine.run Tunnel.step (tunnelStart true)
        (conns (greeting ++ acceptorWrites ++ acceptorCloses ++ initiatorReads) ++ [.done, .removeAll])).isSome = true ∧
      Machine.Meets Tunnel.step TeardownSafe (tunnelStart true)
        (conns (greeting ++ acceptorWrites ++ acceptorCloses ++ initiatorReads) ++ [.done, .removeAll]) :=
  ⟨⟨by decide +kernel, teardown_after_fin _ _ _ _ _ (Or.inl (by decide +kernel))⟩,
    by decide +kernel, teardown_after_fin _ _ _ _ _ (Or.inr (by decide +kernel))⟩

/-- **The acceptor's `Close` removes what the initiator has not read**: the `Write` was reported, and no name of its
segment is left. -/
theorem close_removes_unread :
    (Machine.run Tunnel.step (tunnelStart false) (conns (greeting ++ acceptorWrites ++ acceptorCloses) ++ [.done])).map
        (fun t => ((t.pipe.conn .acceptor).writes, t.sent.map Frame.typ, t.got.map Frame.typ)) =
          some ([⟨[7], none⟩], [frameSYN, frameDATA, frameFIN], [frameSYN]) ∧
      (Machine.run Tunnel.step (tunnelStart false)
        (conns (greeting ++ acceptorWrites ++ acceptorCloses) ++ [.done, .removeAll])).map
          (fun t => ((SegDir.view (t.pipe.dir .acceptor)).lookup 1, (SegDir.r (t.pipe.dir .acceptor)).cur)) = some
          (none, 0) ∧
      ¬ Machine.Meets Tunnel.step TeardownSafe (tunnelStart false)
        (conns (greeting ++ acceptorWrites ++ acceptorCloses) ++ [.done, .removeAll]) := by
  refine ⟨?_, ?_, ?_⟩ <;> decide +kernel

end Fstun
end Ccb
