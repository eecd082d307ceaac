import Ccb.CarrierAuth
/-!
# CarrierClose — what `Close` of a carrier's listener leaves

Once `MuxListener.Close` has been called the goroutines of the listener take a bounded number of steps on their own, and
they cannot stop before the listener is wound up: every `handle`, `acceptPipes` and every call of `Accept` has returned,
and so has every `acceptStreams` of a WebSocket, with its pipe and its streams closed (`close_winds_up`).  The sessions
of an `fs` carrier are left as they are: the tunnel may outlive its listener.
-/
namespace Ccb
namespace CarrierListener

open Machine (run)

/-! ## How far the goroutines have to go -/

/-- The listener's own steps, as against those of the world outside. -/
def Label.own : Label → Bool
  | .request _ | .arrive | .lost _ | .stream _ | .hangUp _ | .accept | .close => false
  | _ => true

/-- A pipe that is handed over costs `acceptPipes` a round and gets a session. -/
def HandlerPc.rank : HandlerPc → Nat
  | .token    => 9
  | .verify _ => 8
  | .upgrade  => 7
  | .send _   => 6
  | .hold _   => 1
  | .returned => 0

def Handler.rank (x : Handler) : Nat := x.pc.rank

def PipesPc.rank : PipesPc → Nat
  | .server _  => 5
  | .closing _ => 2
  | .accept    => 1
  | .returned  => 0

def SessionPc.rank : SessionPc → Nat
  | .send _        => 3
  | .accept        => 2
  | .closeStream _ => 2
  | .close         => 1
  | .returned      => 0

def Session.rank (x : Session) : Nat := x.pc.rank + (if x.dead then 0 else 1)

def CallPc.rank : CallPc → Nat
  | .select     => 1
  | .returned _ => 0

def ClosePc.rank : ClosePc → Nat
  | .idle  => 3
  | .inner => 2
  | .srv   => 1
  | .done  => 0

/-- How many steps the listener can take on its own. -/
def State.rank (s : State) : Nat :=
  total Handler.rank s.handlers + s.acceptor.rank + total Session.rank s.sessions + total CallPc.rank s.calls +
    s.closer.rank

section
variable {s t : State} {l : Label}

/-- A request's `handle` moves on. -/
theorem rank_handler {h : Nat} {x x' : Handler} (hx : s.handlers[h]? = some x) (hlt : x'.rank < x.rank)
    (ht : t.handlers = s.handlers.set h x') (hacc : t.acceptor = s.acceptor) (hse : t.sessions = s.sessions)
    (hca : t.calls = s.calls) (hcl : t.closer = s.closer) : t.rank < s.rank := by
  have hsum := total_set Handler.rank x' hx
  unfold State.rank
  rw [ht, hacc, hse, hca, hcl]
  omega

/-- A session's goroutine moves on, or the session goes down. -/
theorem rank_session {n : Nat} {x x' : Session} (hx : s.sessions[n]? = some x) (hlt : x'.rank < x.rank)
    (ht : t.sessions = s.sessions.set n x') (hh : t.handlers = s.handlers) (hacc : t.acceptor = s.acceptor)
    (hca : t.calls = s.calls) (hcl : t.closer = s.closer) : t.rank < s.rank := by
  have hsum := total_set Session.rank x' hx
  unfold State.rank
  rw [ht, hh, hacc, hca, hcl]
  omega

/-- A call of `Accept` returns. -/
theorem total_calls {k : Nat} (r : Option Nat) (hk : s.calls[k]? = some .select) :
    total CallPc.rank (s.calls.set k (.returned r)) + 1 = total CallPc.rank s.calls :=
  total_set CallPc.rank (.returned r) hk

/-- **Each of the listener's own steps leaves it fewer.** -/
theorem rank_step (hl : l.own = true) (hs : step s l = some t) : t.rank < s.rank := by
  cases step_some hs with
  | request | arrive | lost | stream | hangUp | accept | close => cases hl
  | handle h x hx hpc =>
    unfold CarrierListener.handle
    split <;> exact rank_handler hx (by simp [Handler.rank, hpc, HandlerPc.rank]) rfl rfl rfl rfl rfl
  | verified h x token ok hx hpc =>
    refine rank_handler hx ?_ rfl rfl rfl rfl rfl
    cases ok <;> simp [Handler.rank, hpc, HandlerPc.rank]
  | upgraded h x ok hx hpc =>
    unfold CarrierListener.upgraded
    split <;> exact rank_handler hx (by simp [Handler.rank, hpc, HandlerPc.rank]) rfl rfl rfl rfl rfl
  | handOver h x p hx hpc hacc =>
    -- The request has less to do, and `acceptPipes` more.
    have hsum := total_set Handler.rank { x with pc := .hold p } hx
    simp only [Handler.rank, hpc, HandlerPc.rank] at hsum
    simp only [State.rank, State.setHandler, hacc, PipesPc.rank]
    omega
  | leave h x p hx hpc hd =>
    refine rank_handler hx ?_ rfl rfl rfl rfl rfl
    rcases hpc with hpc | hpc <;> simp [Handler.rank, hpc, HandlerPc.rank]
  | release h x p y hx hpc hy hd =>
    exact rank_handler hx (by simp [Handler.rank, hpc, HandlerPc.rank]) rfl rfl rfl rfl rfl
  | acceptErr hacc hd =>
    simp only [State.rank, hacc, PipesPc.rank]
    omega
  | served p ok hacc =>
    unfold CarrierListener.served
    split
    · -- A session that is up has three steps left.
      simp only [State.rank, hacc, PipesPc.rank, total_concat, Session.rank, SessionPc.rank, Bool.false_eq_true,
        if_false]
      omega
    · simp only [State.rank, hacc, PipesPc.rank]
      omega
  | closePipe p hacc =>
    simp only [State.rank, State.dropPipe, hacc, PipesPc.rank]
    omega
  | die n x hx hd hup =>
    refine rank_session hx ?_ rfl rfl rfl rfl rfl
    simp only [Session.rank, hd, if_true, Bool.false_eq_true, if_false]
    omega
  | sessionErr n x hx hpc hd =>
    refine rank_session hx ?_ rfl rfl rfl rfl rfl
    simp only [Session.rank, hpc, SessionPc.rank]
    omega
  | deliver n k x st hx hpc hk =>
    have hsum := total_set Session.rank { x with pc := .accept } hx
    have hcalls := total_calls (some st) hk
    simp only [Session.rank, hpc, SessionPc.rank] at hsum
    simp only [State.rank, State.setSession]
    omega
  | giveUp n x st hx hpc hd =>
    refine rank_session hx ?_ rfl rfl rfl rfl rfl
    simp only [Session.rank, hpc, SessionPc.rank]
    omega
  | closeStream n x st hx hpc =>
    refine rank_session hx ?_ rfl rfl rfl rfl rfl
    simp only [Session.rank, hpc, SessionPc.rank]
    omega
  | closeSession n x hx hpc =>
    refine rank_session hx ?_ rfl rfl rfl rfl rfl
    simp only [Session.rank, hpc, SessionPc.rank, if_true]
    omega
  | refuse k hk hd =>
    have hcalls := total_calls none hk
    simp only [State.rank]
    omega
  | closeInner hc =>
    have hlt : (if s.inner.isWs then ClosePc.srv else ClosePc.done).rank < 2 := by split <;> decide
    simp only [State.rank, hc, ClosePc.rank] at hlt ⊢
    omega
  | closeSrv hc =>
    simp only [State.rank, hc, ClosePc.rank]
    omega

/-! ## What keeps a pipe up -/

/-- A pipe that came from a request is up only while its `handle` holds on to it. -/
structure Minded (s : State) : Prop where
  up   : ∀ (p : Nat) (y : Pipe) (h : Nat), s.pipes[p]? = some y → y.up = true → y.origin = some h →
    ∃ x : Handler, s.handlers[h]? = some x ∧ (x.pc = .send p ∨ x.pc = .hold p)
  done : ∀ (p : Nat) (y : Pipe), s.pipes[p]? = some y → y.done = true → y.up = false

theorem Minded.congr (h : Minded s) (hp : t.pipes = s.pipes) (hh : t.handlers = s.handlers) : Minded t := by
  refine ⟨?_, ?_⟩
  · rw [hp, hh]; exact h.up
  · rw [hp]; exact h.done

/-- A pipe that is up after one has been dropped is another, and was up before. -/
theorem getElem?_dropPipe {p q : Nat} {done : Bool} {y : Pipe} (hy : (s.dropPipe p done).pipes[q]? = some y) :
    (q = p ∧ y.up = false) ∨ (q ≠ p ∧ s.pipes[q]? = some y) := by
  rcases getElem?_modify_some hy with ⟨rfl, z, -, rfl⟩ | ⟨hne, hy⟩
  · exact .inl ⟨rfl, rfl⟩
  · exact .inr ⟨Ne.symm hne, hy⟩

theorem Minded.drop (h : Minded s) (p : Nat) (done : Bool) : Minded (s.dropPipe p done) := by
  refine ⟨fun q y i hy hup ho => ?_, fun q y hy hd => ?_⟩
  · rcases getElem?_dropPipe hy with ⟨-, hdown⟩ | ⟨-, hy⟩
    · rw [hdown] at hup
      cases hup
    · exact h.up q y i hy hup ho
  · rcases getElem?_dropPipe hy with ⟨-, hdown⟩ | ⟨-, hy⟩
    · exact hdown
    · exact h.done q y hy hd

/-- A request moves on, and holds on to its pipe if that is still up. -/
theorem Minded.setHandler {i : Nat} {x x' : Handler} (h : Minded s) (hx : s.handlers[i]? = some x)
    (ht : t.handlers = s.handlers.set i x')
    (hp : ∀ (q : Nat) (y : Pipe), t.pipes[q]? = some y → y.up = true → s.pipes[q]? = some y)
    (hd : ∀ (q : Nat) (y : Pipe), t.pipes[q]? = some y → y.done = true → y.up = false)
    (hkeep : ∀ (q : Nat) (y : Pipe), t.pipes[q]? = some y → y.up = true → y.origin = some i →
      x.pc = .send q ∨ x.pc = .hold q → x'.pc = .send q ∨ x'.pc = .hold q) : Minded t := by
  refine ⟨fun q y j hy hup ho => ?_, hd⟩
  obtain ⟨z, hz, hpc⟩ := h.up q y j (hp q y hy hup) hup ho
  by_cases hij : i = j
  · subst hij
    rw [hx] at hz
    cases hz
    refine ⟨x', ?_, hkeep q y hy hup ho hpc⟩
    rw [ht, List.getElem?_set_self (List.getElem?_eq_some_iff.1 hx).1]
  · exact ⟨z, by rw [ht, List.getElem?_set_ne hij]; exact hz, hpc⟩

theorem Minded.step (h : Minded s) (hs : step s l = some t) : Minded t := by
  -- A request without a pipe moves on.
  have hearly : ∀ {i : Nat} {x x' : Handler} {t : State}, s.handlers[i]? = some x → x.pc.early = true →
      t.handlers = s.handlers.set i x' → t.pipes = s.pipes → Minded t := by
    intro i x x' t hx he ht hp
    refine h.setHandler hx ht (by rw [hp]; exact fun _ _ hy _ => hy) (by rw [hp]; exact h.done) ?_
    intro q y _ _ _ hpc
    rcases hpc with hpc | hpc <;> (rw [hpc] at he; cases he)
  cases step_some hs with
  | request header =>
    refine ⟨fun p y i hy hup ho => ?_, h.done⟩
    obtain ⟨x, hx, hpc⟩ := h.up p y i hy hup ho
    exact ⟨x, getElem?_concat_left hx, hpc⟩
  | arrive hws hacc =>
    refine ⟨fun p y i hy hup ho => ?_, fun p y hy hd => ?_⟩
    · rcases getElem?_concat_some hy with hy | ⟨-, rfl⟩
      · exact h.up p y i hy hup ho
      · cases ho
    · rcases getElem?_concat_some hy with hy | ⟨-, rfl⟩
      · exact h.done p y hy hd
      · cases hd
  | lost p => exact h.drop p false
  | handle i x hx hpc =>
    unfold CarrierListener.handle
    split <;> exact hearly hx (by rw [hpc]; rfl) rfl rfl
  | verified i x token ok hx hpc => exact hearly hx (by rw [hpc]; rfl) rfl rfl
  | upgraded i x ok hx hpc =>
    unfold CarrierListener.upgraded
    split
    · refine ⟨fun p y j hy hup ho => ?_, fun p y hy hd => ?_⟩
      · rcases getElem?_concat_some hy with hy | ⟨rfl, rfl⟩
        · obtain ⟨z, hz, hzpc⟩ := h.up p y j hy hup ho
          have hij : i ≠ j := by
            rintro rfl
            rw [hx] at hz
            cases hz
            rw [hpc] at hzpc
            rcases hzpc with hzpc | hzpc <;> cases hzpc
          refine ⟨z, ?_, hzpc⟩
          show (s.handlers.set i _)[j]? = _
          rw [List.getElem?_set_ne hij]
          exact hz
        · cases ho
          exact ⟨_, List.getElem?_set_self (List.getElem?_eq_some_iff.1 hx).1, .inl rfl⟩
      · rcases getElem?_concat_some hy with hy | ⟨-, rfl⟩
        · exact h.done p y hy hd
        · cases hd
    · exact hearly hx (by rw [hpc]; rfl) rfl rfl
  | handOver i x p hx hpc hacc =>
    refine h.setHandler hx rfl (fun _ _ hy _ => hy) h.done (fun q y _ _ _ hq => ?_)
    rw [hpc] at hq
    rcases hq with hq | hq
    · cases hq
      exact .inr rfl
    · cases hq
  | leave i x p hx hpc hd =>
    refine h.setHandler hx rfl (fun q y hy hup => ?_) (fun q y hy hdone => ?_) (fun q y hy hup _ hq => ?_)
    · rcases getElem?_dropPipe hy with ⟨-, hdown⟩ | ⟨-, hy⟩
      · rw [hdown] at hup
        cases hup
      · exact hy
    · rcases getElem?_dropPipe hy with ⟨-, hdown⟩ | ⟨-, hy⟩
      · exact hdown
      · exact h.done q y hy hdone
    · -- The pipe it held on to is the one that goes down.
      have hqp : q = p := by
        rcases hpc with hpc | hpc <;> rcases hq with hq | hq <;> (rw [hpc] at hq; cases hq) <;> rfl
      rcases getElem?_dropPipe hy with ⟨-, hdown⟩ | ⟨hne, -⟩
      · rw [hdown] at hup
        cases hup
      · exact absurd hqp hne
  | release i x p y hx hpc hy hd =>
    refine h.setHandler hx rfl (fun _ _ hy _ => hy) h.done (fun q z hz hup _ hq => ?_)
    rw [hpc] at hq
    rcases hq with hq | hq
    · cases hq
    · cases hq
      have hzy : z = y := Option.some.inj (hz.symm.trans hy)
      rw [hzy, h.done p y hy hd] at hup
      cases hup
  | served p ok hacc =>
    unfold CarrierListener.served
    split <;> exact h.congr rfl rfl
  | closePipe p hacc => exact (h.drop p true).congr rfl rfl
  | die n x hx => exact (h.drop x.pipe true).congr rfl rfl
  | closeSession n x hx => exact (h.drop x.pipe true).congr rfl rfl
  | stream | hangUp | accept | close | acceptErr | sessionErr | deliver | giveUp | closeStream | refuse | closeInner
  | closeSrv => exact h.congr rfl rfl

/-! ## What keeps a stream open -/

/-- A session whose goroutine has returned is down, and the streams of one that is down are closed. -/
structure Downed (s : State) : Prop where
  dead    : ∀ (n : Nat) (x : Session), s.sessions[n]? = some x → x.pc = .returned → x.dead = true
  streams : ∀ (st : Nat) (y : Stream) (x : Session), s.streams[st]? = some y → s.sessions[y.sess]? = some x →
    x.dead = true → y.closed = true

/-- A session's goroutine goes on, and streams are closed. -/
theorem Downed.setSession {n : Nat} {x x' : Session} (h : Downed s) (hx : s.sessions[n]? = some x)
    (ht : t.sessions = s.sessions.set n x') (hdead : x'.dead = x.dead) (hpc : x'.pc ≠ .returned) (hf : Fewer s t) :
    Downed t := by
  have hsess : ∀ (m : Nat) (z : Session), t.sessions[m]? = some z → z.dead = true →
      ∃ w, s.sessions[m]? = some w ∧ w.dead = true := by
    intro m z hz hd
    rw [ht] at hz
    rcases getElem?_set_some hz with ⟨rfl, rfl⟩ | ⟨-, hz⟩
    · exact ⟨x, hx, hdead ▸ hd⟩
    · exact ⟨z, hz, hd⟩
  refine ⟨fun m z hz hr => ?_, fun st y z hy hz hd => ?_⟩
  · rw [ht] at hz
    rcases getElem?_set_some hz with ⟨-, rfl⟩ | ⟨-, hz⟩
    · exact absurd hr hpc
    · exact h.dead m z hz hr
  · cases hc : y.closed with
    | true => rfl
    | false =>
      obtain ⟨w, hw, hwd⟩ := hsess _ z hz hd
      exact hc.symm.trans (h.streams st y w (hf.2 st y hy hc) hw hwd)

theorem Downed.keep (h : Downed s) (hse : t.sessions = s.sessions) (hf : Fewer s t) : Downed t := by
  refine ⟨by rw [hse]; exact h.dead, fun st y z hy hz hd => ?_⟩
  rw [hse] at hz
  cases hc : y.closed with
  | true => rfl
  | false => exact hc.symm.trans (h.streams st y z (hf.2 st y hy hc) hz hd)

/-- **A session goes down with its streams.** -/
theorem Downed.shutdown {n : Nat} {x : Session} (h : Downed s) (pc : SessionPc) : Downed (s.shutdown n x pc) := by
  refine ⟨fun m z hz hr => ?_, fun st y z hy hz hd => ?_⟩
  · rcases getElem?_set_some hz with ⟨-, rfl⟩ | ⟨-, hz⟩
    · rfl
    · exact h.dead m z hz hr
  · obtain ⟨w, hw, rfl⟩ := Option.map_eq_some_iff.1 ((List.getElem?_map ..).symm.trans hy)
    split
    · rfl
    · rename_i hne
      rw [if_neg hne] at hz
      rcases getElem?_set_some hz with ⟨hn, -⟩ | ⟨-, hz⟩
      · exact absurd (beq_iff_eq.2 hn.symm) hne
      · exact h.streams st w z hw hz hd

theorem Downed.step (h : Downed s) (hs : step s l = some t) : Downed t := by
  cases step_some hs with
  | stream n x hx hpc hd =>
    refine ⟨fun m z hz hr => ?_, fun st y z hy hz hdead => ?_⟩
    · rcases getElem?_set_some hz with ⟨-, rfl⟩ | ⟨-, hz⟩
      · cases hr
      · exact h.dead m z hz hr
    · rcases getElem?_set_some hz with ⟨-, rfl⟩ | ⟨hne, hz⟩
      · rw [show x.dead = false from hd] at hdead
        cases hdead
      · rcases getElem?_concat_some hy with hy | ⟨-, rfl⟩
        · exact h.streams st y z hy hz hdead
        · exact absurd rfl hne
  | hangUp st => exact h.keep rfl (fewer_modify st rfl)
  | handle i x hx hpc =>
    unfold CarrierListener.handle
    split <;> exact h.keep rfl (.of_eq rfl)
  | verified i x token ok hx hpc => exact h.keep rfl (.of_eq rfl)
  | upgraded i x ok hx hpc =>
    unfold CarrierListener.upgraded
    split <;> exact h.keep rfl (.of_eq rfl)
  | served p ok hacc =>
    unfold CarrierListener.served
    split
    · refine ⟨fun m z hz hr => ?_, fun st y z hy hz hd => ?_⟩
      · rcases getElem?_concat_some hz with hz | ⟨-, rfl⟩
        · exact h.dead m z hz hr
        · cases hr
      · rcases getElem?_concat_some hz with hz | ⟨-, rfl⟩
        · exact h.streams st y z hy hz hd
        · cases hd
    · exact h.keep rfl (.of_eq rfl)
  | die n x hx hd => exact h.shutdown x.pc
  | closeSession n x hx hpc => exact h.shutdown .returned
  | sessionErr n x hx hpc hd => exact h.setSession hx rfl rfl (fun he => by cases he) (.of_eq rfl)
  | deliver n k x st hx hpc hk => exact h.setSession hx rfl rfl (fun he => by cases he) (.of_eq rfl)
  | giveUp n x st hx hpc hd => exact h.setSession hx rfl rfl (fun he => by cases he) (.of_eq rfl)
  | closeStream n x st hx hpc => exact h.setSession hx rfl rfl (fun he => by cases he) (fewer_modify st rfl)
  | request | arrive | lost | accept | close | handOver | leave | release | acceptErr | closePipe | refuse | closeInner
  | closeSrv => exact h.keep rfl (.of_eq rfl)

/-! ## Where it ends -/

/-- **Nothing is left to do**: every goroutine has returned, the sessions of an `fs` carrier that are up apart; every
WebSocket is down, and so is every stream whose session is over. -/
structure WoundUp (s : State) : Prop where
  closer   : s.closer = .done
  handlers : ∀ (h : Nat) (x : Handler), s.handlers[h]? = some x → x.pc = .returned
  acceptor : s.acceptor = .returned
  calls    : ∀ k : Nat, s.calls[k]? ≠ some .select
  sessions : ∀ (n : Nat) (x : Session), s.sessions[n]? = some x → x.pc = .returned ∨
    (s.inner.isWs = false ∧ x.pc = .accept ∧ x.dead = false)
  pipes    : s.inner.isWs = true → ∀ (p : Nat) (y : Pipe), s.pipes[p]? = some y → y.up = false
  streams  : ∀ (st : Nat) (y : Stream) (x : Session), s.streams[st]? = some y → s.sessions[y.sess]? = some x →
    x.pc = .returned → y.closed = true

/-- No goroutine of the listener can move. -/
def Stuck (s : State) : Prop := ∀ l : Label, l.own = true → step s l = none

theorem Stuck.closer (h : Stuck s) (hc : s.closer ≠ .idle) : s.closer = .done := by
  cases hcl : s.closer with
  | idle => exact absurd hcl hc
  | inner =>
    have hno := h .closeInner rfl
    rw [step, if_pos hcl] at hno
    cases hno
  | srv =>
    have hno := h .closeSrv rfl
    rw [step, if_pos hcl] at hno
    cases hno
  | done => rfl

theorem Stuck.handler (h : Stuck s) (hd : s.closer.innerDone = true) {i : Nat} {x : Handler}
    (hx : s.handlers[i]? = some x) : x.pc = .returned := by
  cases hpc : x.pc with
  | returned => rfl
  | token =>
    have hno := h (.handle i) rfl
    rw [step, hx, Option.bind_some, if_pos hpc] at hno
    cases hno
  | verify token =>
    have hno := h (.verified i true) rfl
    rw [step, hx, Option.bind_some] at hno
    simp only [hpc] at hno
    cases hno
  | upgrade =>
    have hno := h (.upgraded i true) rfl
    rw [step, hx, Option.bind_some, if_pos hpc] at hno
    cases hno
  | send p | hold p =>
    have hno := h (.leave i true) rfl
    rw [step, hx, Option.bind_some] at hno
    simp only [leave, hpc, hd, if_true] at hno
    cases hno

theorem Stuck.acceptor (h : Stuck s) (hd : s.closer.innerDone = true) : s.acceptor = .returned := by
  cases hacc : s.acceptor with
  | returned => rfl
  | accept =>
    have hno := h .acceptErr rfl
    rw [step, if_pos ⟨hacc, hd⟩] at hno
    cases hno
  | server p =>
    have hno := h (.served true) rfl
    simp only [step, hacc] at hno
    cases hno
  | closing p =>
    have hno := h .closePipe rfl
    simp only [step, hacc] at hno
    cases hno

theorem Stuck.call (h : Stuck s) (hd : s.closer.muxDone = true) (k : Nat) : s.calls[k]? ≠ some .select := by
  intro hk
  have hno := h (.refuse k) rfl
  rw [step, if_pos ⟨hk, hd⟩] at hno
  cases hno

/-- A goroutine that cannot move has returned, or waits for a stream of a session whose pipe is up. -/
theorem Stuck.session (h : Stuck s) (hd : s.closer.muxDone = true) {n : Nat} {x : Session}
    (hx : s.sessions[n]? = some x) :
    x.pc = .returned ∨ (x.pc = .accept ∧ x.dead = false ∧ ∃ y, s.pipes[x.pipe]? = some y ∧ y.up = true) := by
  cases hpc : x.pc with
  | returned => exact .inl rfl
  | send st =>
    have hno := h (.giveUp n) rfl
    rw [step, hx, Option.bind_some] at hno
    simp only [hpc, hd, if_true] at hno
    cases hno
  | closeStream st =>
    have hno := h (.closeStream n) rfl
    rw [step, hx, Option.bind_some] at hno
    simp only [hpc] at hno
    cases hno
  | close =>
    have hno := h (.closeSession n) rfl
    rw [step, hx, Option.bind_some, if_pos hpc] at hno
    cases hno
  | accept =>
    right
    cases hdead : x.dead with
    | true =>
      have hno := h (.sessionErr n) rfl
      rw [step, hx, Option.bind_some, if_pos ⟨hpc, hdead⟩] at hno
      cases hno
    | false =>
      have hno := h (.die n) rfl
      rw [step, hx, Option.bind_some] at hno
      cases hy : s.pipes[x.pipe]? with
      | none =>
        rw [hy, if_pos ⟨hdead, rfl⟩] at hno
        cases hno
      | some y =>
        cases hup : y.up with
        | false =>
          rw [hy, if_pos ⟨hdead, hup⟩] at hno
          cases hno
        | true => exact ⟨rfl, rfl, y, rfl, hup⟩

/-- **A listener that is closing and cannot move is wound up.** -/
theorem Stuck.woundUp (h : Stuck s) (hc : s.closer ≠ .idle) (hk : Kept s) (hm : Minded s) (hdn : Downed s) :
    WoundUp s := by
  have hdone := h.closer hc
  have hmux : s.closer.muxDone = true := decide_eq_true hc
  have hinner : s.closer.innerDone = true := by rw [hdone]; rfl
  -- The request a WebSocket came from has returned, so the WebSocket is down.
  have hpipes : s.inner.isWs = true → ∀ (p : Nat) (y : Pipe), s.pipes[p]? = some y → y.up = false := by
    intro hws p y hy
    cases hup : y.up with
    | false => rfl
    | true =>
      obtain ⟨i, hi⟩ := Option.isSome_iff_exists.1 (hk.auth.ws hws p (List.getElem?_eq_some_iff.1 hy).1)
      rw [State.origin, hy, Option.bind_some] at hi
      obtain ⟨x, hx, hpc⟩ := hm.up p y i hy hup hi
      rw [h.handler hinner hx] at hpc
      rcases hpc with hpc | hpc <;> cases hpc
  refine ⟨hdone, fun i x hx => h.handler hinner hx, h.acceptor hinner, h.call hmux, fun n x hx => ?_, hpipes, ?_⟩
  · rcases h.session hmux hx with hr | ⟨hpc, hd, y, hy, hup⟩
    · exact .inl hr
    · refine .inr ⟨?_, hpc, hd⟩
      cases hws : s.inner.isWs with
      | false => rfl
      | true => rw [hpipes hws _ y hy] at hup; cases hup
  · exact fun st y x hy hx hr => hdn.streams st y x hy hx (hdn.dead _ x hx hr)

end

/-! ## Runs -/

theorem minded_start (inner : Inner) : Minded (.start inner) :=
  ⟨(fun _ _ _ hy => by cases hy), (fun _ _ hy => by cases hy)⟩

theorem downed_start (inner : Inner) : Downed (.start inner) :=
  ⟨(fun _ _ hx => by cases hx), (fun _ _ _ hy => by cases hy)⟩

/-- A listener of rank zero has no step of its own left. -/
theorem stuck_of_rank {s : State} (h : s.rank = 0) : Stuck s := by
  intro l hl
  cases hs : step s l with
  | none => rfl
  | some t => exact absurd (h ▸ rank_step hl hs) (Nat.not_lt_zero _)

/-- The listener's own steps are at most as many as its rank says. -/
theorem length_le_rank : ∀ {ms : List Label} {s t : State}, (∀ l ∈ ms, l.own = true) → run step s ms = some t →
    ms.length + t.rank ≤ s.rank
  | [], s, t, _, hr => by
    cases hr
    simp
  | l :: ms, s, t, hown, hr => by
    obtain ⟨u, hu, hr⟩ := Machine.run_cons hr
    have hlt := rank_step (hown l List.mem_cons_self) hu
    have ih := length_le_rank (fun m hm => hown m (List.mem_cons_of_mem _ hm)) hr
    rw [List.length_cons]
    omega

theorem closing_step {s t : State} {l : Label} (h : s.closer ≠ .idle) (hs : step s l = some t) : t.closer ≠ .idle := by
  cases step_some hs with
  | handle i x => unfold CarrierListener.handle; split <;> exact h
  | upgraded i x ok => unfold CarrierListener.upgraded; split <;> exact h
  | served p ok => unfold CarrierListener.served; split <;> exact h
  | close => exact fun he => by cases he
  | closeInner =>
    show (if s.inner.isWs then ClosePc.srv else ClosePc.done) ≠ .idle
    split <;> exact fun he => by cases he
  | closeSrv => exact fun he => by cases he
  | _ => exact h

/-- **`Close` winds the listener up**: whatever has happened before, the goroutines take no more steps on their own than
the rank of the state says, in whichever order, and when none of them can move the listener is wound up. -/
theorem close_winds_up (inner : Inner) (ls ms : List Label) (s t : State) (hr : run step (.start inner) ls = some s)
    (hc : s.closer ≠ .idle) (hown : ∀ l ∈ ms, l.own = true) (ht : run step s ms = some t) :
    ms.length ≤ s.rank ∧ (Stuck t → WoundUp t) := by
  have hall : run step (.start inner) (ls ++ ms) = some t := by
    rw [Machine.run_append, hr]
    exact ht
  have hcl : t.closer ≠ .idle := Machine.inv_of_step (I := fun s => s.closer ≠ .idle)
    (fun _ _ _ h hs => closing_step h hs) ms s t hc ht
  refine ⟨Nat.le_trans (Nat.le_add_right _ _) (length_le_rank hown ht), fun hstuck => hstuck.woundUp hcl ?_ ?_ ?_⟩
  · exact kept_of_run hall
  · exact Machine.inv_of_step (I := Minded) (fun _ _ _ h hs => h.step hs) _ _ t (minded_start inner) hall
  · exact Machine.inv_of_step (I := Downed) (fun _ _ _ h hs => h.step hs) _ _ t (downed_start inner) hall

/-- The listener is closed with a request at the verifier, a stream returned and a call of `Accept` waiting. -/
def closedMidway : List Label :=
  threeRequests ++ [.request "Bearer late", .handle 3, .accept, .stream 0, .close]

/-- What its goroutines do then, one of many ways. -/
def closingSteps : List Label :=
  [.closeInner, .refuse 1, .giveUp 0, .leave 0 true, .closeStream 0, .verified 3 true, .acceptErr, .upgraded 3 true,
   .closeSrv, .closeSession 0, .leave 3 true]

theorem close_winds_up_midway :
    ∃ s t, run step (.start (.ws "outside:9618" defaultPath true)) closedMidway = some s ∧
      run step s closingSteps = some t ∧ closingSteps.length ≤ s.rank ∧ Stuck t ∧ WoundUp t := by
  obtain ⟨s, hs⟩ : ∃ s, run step (.start (.ws "outside:9618" defaultPath true)) closedMidway = some s :=
    Option.isSome_iff_exists.1 (by decide)
  have hseen : (run step (.start (.ws "outside:9618" defaultPath true)) closedMidway).map
      (fun s => (decide (s.closer ≠ .idle), (run step s closingSteps).map State.rank)) = some (true, some 0) := by
      decide
  rw [hs, Option.map_some, Option.some.injEq, Prod.mk.injEq] at hseen
  obtain ⟨t, ht, hrank⟩ := Option.map_eq_some_iff.1 hseen.2
  obtain ⟨hle, hwound⟩ :=
    close_winds_up _ closedMidway closingSteps s t hs (of_decide_eq_true hseen.1) (by decide) ht
  exact ⟨s, t, hs, ht, hle, stuck_of_rank hrank, hwound (stuck_of_rank hrank)⟩

end CarrierListener
end Ccb
