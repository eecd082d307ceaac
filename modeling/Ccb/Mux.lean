import Ccb.Machine
/-!
# Mux — logical connections over a carrier's session

An inside CCB has one `carrierClient` (carrier.go).  Each `dial` takes the live yamux session, making a new one if there
is none, and calls `MuxDialer.Open` (mux.go) on it.  `Open` lets a goroutine of its own call `OpenStream` and put what
that returned into a channel with room for one, and selects between the channel and its context.  A call that takes the
context's case leaves the goroutine behind: nobody looks at the channel again, and a stream that comes into it stays
open until the session goes down.

`session` and `close` run under `c.mu` from beginning to end, so each is one step.  A session that is shut down, by
`Close` or because the pipe is lost, closes its streams and opens no more.
-/
namespace Ccb
namespace Carrier

open Machine (run Meets)

/-! ## State -/

/-- What a `dial` returns: a stream, or the error of `session`, of `OpenStream` or of the context. -/
inductive Result where
  | stream (n : Nat)
  | sessionErr
  | openErr
  | ctxErr
  deriving DecidableEq, Repr

inductive CallPc where
  | session
  | select
  | returned (r : Result)
  deriving DecidableEq, Repr

/-- The goroutine `Open` starts: in `OpenStream`, with what it returned (no stream: an error), or finished. -/
inductive HelperPc where
  | opening
  | sending (r : Option Nat)
  | finished
  deriving DecidableEq, Repr

/-- A `dial`: its context, the session it is on, the goroutine of its `Open` and the channel between them. -/
structure Call where
  canceled : Bool := false
  pc       : CallPc := .session
  sess     : Nat := 0
  helper   : Option HelperPc := none
  ch       : Option (Option Nat) := none
  deriving DecidableEq, Repr

/-- A stream, and the call whose `OpenStream` created it. -/
structure Stream where
  sess   : Nat
  call   : Nat
  closed : Bool
  deriving DecidableEq, Repr

/-- `sessions` says of each session whether it has been shut down. -/
structure State where
  sessions : List Bool
  md       : Option Nat
  done     : Bool
  calls    : List Call
  streams  : List Stream
  deriving DecidableEq, Repr

def State.start : State := ⟨[], none, false, [], []⟩

section
variable (s : State)

/-- `md.Closed()`. -/
def State.closed (n : Nat) : Bool := s.sessions[n]?.getD true

def State.setCall (k : Nat) (c : Call) : State := { s with calls := s.calls.set k c }

def State.closeStream (n : Nat) : State :=
  { s with streams := s.streams.modify n (fun st => { st with closed := true }) }

/-- A session goes down, with its streams. -/
def State.shutdown (n : Nat) : State :=
  { s with sessions := s.sessions.set n true,
           streams := s.streams.map (fun st => if st.sess = n then { st with closed := true } else st) }

/-! ## Steps -/

inductive Label where
  | dial
  | cancel (k : Nat)
  | session (k : Nat) (pipe : Bool)
  | opened (k : Nat) (ok : Bool)
  | send (k : Nat)
  | receive (k : Nat)
  | giveUp (k : Nat)
  | hangUp (k : Nat)
  | lost (n : Nat)
  | close
  deriving DecidableEq, Repr

/-- A call goes on to `Open` on the session. -/
def Call.openOn (c : Call) (n : Nat) : Call := { c with pc := .select, sess := n, helper := some .opening }

/-- `session`; `pipe` says whether a new pipe and its client can be had. -/
def State.session (k : Nat) (c : Call) (pipe : Bool) : State :=
  if s.done then s.setCall k { c with pc := .returned .sessionErr }
  else
    match s.md.filter (fun n => !s.closed n) with
    | some n => s.setCall k (c.openOn n)
    | none   =>
      if pipe then
        { s with sessions := s.sessions ++ [false], md := some s.sessions.length,
                 calls := s.calls.set k (c.openOn s.sessions.length) }
      else { s.setCall k { c with pc := .returned .sessionErr } with md := none }

/-- What `Open` returns of what came through the channel. -/
def Result.of : Option Nat → Result
  | some n => .stream n
  | none   => .openErr

def step (l : Label) : Option State :=
  match l with
  | .dial => some { s with calls := s.calls ++ [{}] }
  | .lost n => some (s.shutdown n)
  | .close =>
    match s.md with
    | some n => some { s.shutdown n with md := none, done := true }
    | none   => some { s with done := true }
  | .cancel k => (s.calls[k]?).map (fun c => s.setCall k { c with canceled := true })
  | .session k pipe =>
    match s.calls[k]? with
    | some c => if c.pc = .session then some (s.session k c pipe) else none
    | none   => none
  | .opened k ok =>
    match s.calls[k]? with
    | some c =>
      if c.helper = some .opening then
        if ok then
          if s.closed c.sess then none
          else some { s with calls := s.calls.set k { c with helper := some (.sending (some s.streams.length)) },
                             streams := s.streams ++ [⟨c.sess, k, false⟩] }
        else some (s.setCall k { c with helper := some (.sending none) })
      else none
    | none => none
  | .send k =>
    match s.calls[k]? with
    | some c =>
      match c.helper with
      | some (.sending r) => some (s.setCall k { c with helper := some .finished, ch := some r })
      | _ => none
    | none => none
  | .receive k =>
    match s.calls[k]? with
    | some c =>
      match c.pc, c.ch with
      | .select, some r => some (s.setCall k { c with pc := .returned (.of r), ch := none })
      | _, _ => none
    | none => none
  | .giveUp k =>
    match s.calls[k]? with
    | some c => if c.pc = .select ∧ c.canceled then some (s.setCall k { c with pc := .returned .ctxErr }) else none
    | none   => none
  | .hangUp k =>
    match s.calls[k]? with
    | some c =>
      match c.pc with
      | .returned (.stream n) => some (s.closeStream n)
      | _ => none
    | none => none

end

/-! ## Who has a stream -/

/-- The stream the goroutine of a call has in hand. -/
def HelperPc.has : HelperPc → List Nat
  | .sending r => r.toList
  | .opening | .finished => []

def CallPc.has : CallPc → List Nat
  | .returned (.stream n) => [n]
  | _ => []

/-- The streams of a call on the way to its `select`: with its goroutine, or in the channel. -/
def Call.inFlight (c : Call) : List Nat := c.helper.toList.flatMap HelperPc.has ++ c.ch.toList.flatMap Option.toList

def Call.has (c : Call) : List Nat := c.inFlight ++ c.pc.has

/-- **What one goroutine does to its call.** -/
inductive Moves (k : Nat) : Label → Call → Call → Prop
  | cancel {c : Call} : Moves k (.cancel k) c { c with canceled := true }
  | refused {c : Call} (pipe : Bool) :
      c.pc = .session → Moves k (.session k pipe) c { c with pc := .returned .sessionErr }
  | opens {c : Call} (pipe : Bool) (n : Nat) : c.pc = .session → Moves k (.session k pipe) c (c.openOn n)
  | failed {c : Call} : c.helper = some .opening → Moves k (.opened k false) c { c with helper := some (.sending none) }
  | send {c : Call} (r : Option Nat) : c.helper = some (.sending r) →
      Moves k (.send k) c { c with helper := some .finished, ch := some r }
  | receive {c : Call} (r : Option Nat) : c.pc = .select → c.ch = some r →
      Moves k (.receive k) c { c with pc := .returned (.of r), ch := none }
  | giveUp {c : Call} : c.pc = .select → c.canceled = true → Moves k (.giveUp k) c { c with pc := .returned .ctxErr }

/-- The same streams, some of them closed since. -/
def Closes (l l' : List Stream) : Prop :=
  ∀ (n : Nat) (st' : Stream), l'[n]? = some st' → ∃ st, l[n]? = some st ∧ st'.call = st.call

/-- **What a step does**: a call begins, streams are closed, a call moves, or a stream is created. -/
inductive Effect (s : State) : Label → State → Prop
  | dial : Effect s .dial { s with calls := s.calls ++ [{}] }
  | closes (l : Label) (t : State) : t.calls = s.calls → Closes s.streams t.streams → Effect s l t
  | moves (l : Label) (t : State) (k : Nat) (c c' : Call) : s.calls[k]? = some c → Moves k l c c' →
      t.calls = s.calls.set k c' → t.streams = s.streams → Effect s l t
  | creates (t : State) (k : Nat) (c : Call) : s.calls[k]? = some c → c.helper = some .opening →
      t.calls = s.calls.set k { c with helper := some (.sending (some s.streams.length)) } →
      t.streams = s.streams ++ [⟨c.sess, k, false⟩] → Effect s (.opened k true) t

section
variable {s t : State} {l : Label}

theorem Closes.refl (l : List Stream) : Closes l l := fun _ st h => ⟨st, h, rfl⟩

theorem closes_shutdown (s : State) (n : Nat) : Closes s.streams (s.shutdown n).streams := by
  intro i st' h
  obtain ⟨st, hst, rfl⟩ := Option.map_eq_some_iff.1 ((List.getElem?_map ..).symm.trans h)
  refine ⟨st, hst, ?_⟩
  split <;> rfl

theorem closes_closeStream (s : State) (n : Nat) : Closes s.streams (s.closeStream n).streams := by
  intro i st' h
  rcases getElem?_modify_some h with ⟨-, st, hst, rfl⟩ | ⟨-, hst⟩
  · exact ⟨st, hst, rfl⟩
  · exact ⟨st', hst, rfl⟩

theorem session_effect {k : Nat} {c : Call} {pipe : Bool} (hc : s.calls[k]? = some c) (hp : c.pc = .session) :
    Effect s (.session k pipe) (s.session k c pipe) := by
  unfold State.session
  split
  · exact .moves _ _ k c _ hc (.refused pipe hp) rfl rfl
  · split
    · exact .moves _ _ k c _ hc (.opens pipe _ hp) rfl rfl
    · split
      · exact .moves _ _ k c _ hc (.opens pipe _ hp) rfl rfl
      · exact .moves _ _ k c _ hc (.refused pipe hp) rfl rfl

theorem step_effect (h : step s l = some t) : Effect s l t := by
  cases l with
  | dial => cases h; exact .dial
  | lost n => cases h; exact .closes _ _ rfl (closes_shutdown s n)
  | close =>
    unfold step at h
    dsimp only at h
    split at h <;> cases h
    · exact .closes _ _ rfl (closes_shutdown s _)
    · exact .closes _ _ rfl (.refl _)
  | cancel k =>
    obtain ⟨c, hc, rfl⟩ := Option.map_eq_some_iff.1 h
    exact .moves _ _ k c _ hc .cancel rfl rfl
  | session k pipe =>
    unfold step at h
    dsimp only at h
    split at h
    · rename_i c hc
      split at h <;> cases h
      rename_i hp
      exact session_effect hc hp
    · cases h
  | opened k ok =>
    unfold step at h
    dsimp only at h
    split at h
    · rename_i c hc
      split at h
      · rename_i hh
        cases ok with
        | true =>
          rw [if_pos rfl] at h
          split at h <;> cases h
          exact .creates _ k c hc hh rfl rfl
        | false =>
          cases h
          exact .moves _ _ k c _ hc (.failed hh) rfl rfl
      · cases h
    · cases h
  | send k =>
    unfold step at h
    dsimp only at h
    split at h
    · rename_i c hc
      split at h <;> cases h
      rename_i r hr
      exact .moves _ _ k c _ hc (.send r hr) rfl rfl
    · cases h
  | receive k =>
    unfold step at h
    dsimp only at h
    split at h
    · rename_i c hc
      split at h <;> cases h
      rename_i r hp hr
      exact .moves _ _ k c _ hc (.receive r hp hr) rfl rfl
    · cases h
  | giveUp k =>
    unfold step at h
    dsimp only at h
    split at h
    · rename_i c hc
      split at h <;> cases h
      rename_i hp
      exact .moves _ _ k c _ hc (.giveUp hp.1 hp.2) rfl rfl
    · cases h
  | hangUp k =>
    unfold step at h
    dsimp only at h
    split at h
    · split at h <;> cases h
      exact .closes _ _ rfl (closes_closeStream s _)
    · cases h

/-! ## Invariants -/

/-- Before `Open` a call has no goroutine; only a finished one has sent; and only a call that gave up has left it
behind. -/
structure Call.Ok (c : Call) : Prop where
  early : c.pc = .session → c.helper = none ∧ c.ch = none
  sent  : c.helper ≠ some .finished → c.ch = none
  left  : ∀ r, c.pc = .returned r → r ≠ .ctxErr → c.ch = none ∧ (c.helper = none ∨ c.helper = some .finished)

/-- A call whose goroutine is at work is past its `session`, and has not returned but for giving up. -/
theorem Call.Ok.at_work {c : Call} {p : HelperPc} (h : c.Ok) (hh : c.helper = some p) (hp : p ≠ .finished) :
    c.pc ≠ .session ∧ ∀ r, c.pc = .returned r → r = .ctxErr := by
  constructor
  · intro hs
    cases (h.early hs).1.symm.trans hh
  · intro r hr
    refine Classical.byContradiction fun hne => ?_
    rcases (h.left r hr hne).2 with hn | hn
    · cases hn.symm.trans hh
    · cases hn.symm.trans hh
      exact hp rfl

/-- `OpenStream` has returned. -/
theorem Call.Ok.answered {c : Call} (h : c.Ok) (hh : c.helper = some .opening) (r : Option Nat) :
    ({ c with helper := some (.sending r) } : Call).Ok := by
  obtain ⟨hs, hret⟩ := h.at_work hh (by decide)
  exact ⟨fun hp => absurd hp hs, fun _ => h.sent (by rw [hh]; decide), fun r hr hne => absurd (hret r hr) hne⟩

theorem Call.Ok.moves {k : Nat} {c c' : Call} (h : c.Ok) (hm : Moves k l c c') : c'.Ok := by
  cases hm with
  | cancel => exact ⟨h.early, h.sent, h.left⟩
  | refused pipe hp =>
    obtain ⟨hh, hch⟩ := h.early hp
    exact ⟨fun h => (by cases h), fun _ => hch, fun _ _ _ => ⟨hch, .inl hh⟩⟩
  | opens pipe n hp =>
    obtain ⟨hh, hch⟩ := h.early hp
    exact ⟨fun h => (by cases h), fun _ => hch, fun r h => (by cases h)⟩
  | failed hh => exact h.answered hh none
  | send r hh =>
    obtain ⟨hs, hret⟩ := h.at_work hh (fun h => by cases h)
    exact ⟨fun hp => absurd hp hs, fun hne => absurd rfl hne, fun r' hr hne => absurd (hret r' hr) hne⟩
  | receive r hp hr =>
    have hfin : c.helper = some .finished := Classical.byContradiction fun hne => by
      rw [h.sent hne] at hr
      cases hr
    exact ⟨fun h => (by cases h), fun _ => rfl, fun _ _ _ => ⟨rfl, .inr hfin⟩⟩
  | giveUp hp hc =>
    refine ⟨fun h => (by cases h), h.sent, fun r hr hne => ?_⟩
    cases hr
    exact absurd rfl hne

/-- **Every stream is with the call that made it.** -/
structure Inv (s : State) : Prop where
  ok    : ∀ (k : Nat) (c : Call), s.calls[k]? = some c → c.Ok
  owned : ∀ (n : Nat) (st : Stream), s.streams[n]? = some st → ∃ c, s.calls[st.call]? = some c ∧ n ∈ c.has

theorem has_moves {k : Nat} {c c' : Call} (h : c.Ok) (hm : Moves k l c c') : c.has ⊆ c'.has := by
  cases hm with
  | cancel => exact fun _ h => h
  | refused pipe hp =>
    simp [Call.has, Call.inFlight, hp, CallPc.has]
  | opens pipe n hp =>
    obtain ⟨hh, hch⟩ := h.early hp
    simp [Call.has, Call.inFlight, hp, hh, hch, CallPc.has]
  | failed hh => simp [Call.has, Call.inFlight, hh, HelperPc.has]
  | send r hh =>
    have hch := h.sent (by rw [hh]; exact fun h => (by cases h))
    simp [Call.has, Call.inFlight, hh, hch, HelperPc.has]
  | receive r hp hr =>
    cases r <;> simp [Call.has, Call.inFlight, hp, hr, CallPc.has, Result.of]
  | giveUp hp hc => simp [Call.has, Call.inFlight, hp, CallPc.has]

/-- **One call changes** and keeps its streams: so does the table. -/
theorem Inv.set {k : Nat} {c c' : Call} (h : Inv s) (hc : s.calls[k]? = some c) (hok : c'.Ok) (hhas : c.has ⊆ c'.has) :
    (∀ (i : Nat) (d : Call), (s.calls.set k c')[i]? = some d → d.Ok) ∧
      ∀ (n : Nat) (st : Stream), s.streams[n]? = some st → ∃ d, (s.calls.set k c')[st.call]? = some d ∧ n ∈ d.has := by
  refine ⟨fun i d hd => ?_, fun n st hst => ?_⟩
  · rcases getElem?_set_some hd with ⟨-, rfl⟩ | ⟨-, hd⟩
    · exact hok
    · exact h.ok i d hd
  · obtain ⟨d, hd, hn⟩ := h.owned n st hst
    by_cases hk : k = st.call
    · subst hk
      rw [hc] at hd
      cases hd
      exact ⟨c', List.getElem?_set_self (List.getElem?_eq_some_iff.1 hc).1, hhas hn⟩
    · exact ⟨d, by rw [List.getElem?_set_ne hk]; exact hd, hn⟩

theorem Inv.step (h : Inv s) (hs : step s l = some t) : Inv t := by
  cases step_effect hs with
  | dial =>
    refine ⟨fun k c hc => ?_, fun n st hst => ?_⟩
    · rcases getElem?_concat_some hc with hc | ⟨-, rfl⟩
      · exact h.ok k c hc
      · exact ⟨fun _ => ⟨rfl, rfl⟩, fun _ => rfl, fun r hr => (by cases hr)⟩
    · obtain ⟨c, hc, hn⟩ := h.owned n st hst
      exact ⟨c, getElem?_concat_left hc, hn⟩
  | closes _ _ hcalls hcl =>
    refine ⟨by rw [hcalls]; exact h.ok, fun n st' hst' => ?_⟩
    obtain ⟨st, hst, hcall⟩ := hcl n st' hst'
    rw [hcalls, hcall]
    exact h.owned n st hst
  | moves _ _ k c c' hc hm hcalls hstreams =>
    have hok := h.ok k c hc
    obtain ⟨hall, howned⟩ := h.set hc (hok.moves hm) (has_moves hok hm)
    exact ⟨by rw [hcalls]; exact hall, by rw [hcalls, hstreams]; exact howned⟩
  | creates _ k c hc hh hcalls hstreams =>
    have hhas : c.has ⊆ ({ c with helper := some (.sending (some s.streams.length)) } : Call).has := by
      simp [Call.has, Call.inFlight, hh, HelperPc.has]
    obtain ⟨hall, howned⟩ := h.set hc ((h.ok k c hc).answered hh _) hhas
    refine ⟨by rw [hcalls]; exact hall, fun n st hst => ?_⟩
    rw [hstreams] at hst
    rw [hcalls]
    rcases getElem?_concat_some hst with hst | ⟨rfl, rfl⟩
    · exact howned n st hst
    · exact ⟨_, List.getElem?_set_self (List.getElem?_eq_some_iff.1 hc).1, by
        simp [Call.has, Call.inFlight, HelperPc.has]⟩

end

/-! ## Leaks -/

def CallPc.over : CallPc → Bool
  | .returned _ => true
  | .session | .select => false

/-- All calls have returned, and their goroutines have finished. -/
def State.Quiet (s : State) : Prop :=
  ∀ c ∈ s.calls, c.pc.over = true ∧ (c.helper = none ∨ c.helper = some .finished)

instance (s : State) : Decidable s.Quiet :=
  inferInstanceAs (Decidable (∀ c ∈ s.calls, c.pc.over = true ∧ (c.helper = none ∨ c.helper = some .finished)))

/-- No call gives up on a stream: it takes the context's case only when there is none on the way to it, and no stream
is created for a call that has. -/
def GivesUpNone (s : State) : Label → Prop
  | .giveUp k      => ∀ c ∈ s.calls[k]?, c.inFlight = []
  | .opened k true => ∀ c ∈ s.calls[k]?, c.pc ≠ .returned .ctxErr
  | _              => True

instance (s : State) : DecidablePred (GivesUpNone s)
  | .giveUp k => inferInstanceAs (Decidable (∀ c ∈ s.calls[k]?, c.inFlight = []))
  | .opened k true => inferInstanceAs (Decidable (∀ c ∈ s.calls[k]?, c.pc ≠ .returned .ctxErr))
  | .opened _ false | .dial | .cancel _ | .session _ _ | .send _ | .receive _ | .hangUp _ | .lost _ | .close =>
    .isTrue trivial

section
variable {s t : State} {l : Label} {ls : List Label}

theorem inv_run (hr : run step .start ls = some s) : Inv s :=
  Machine.inv_of_step (fun _ _ _ h hs => h.step hs) ls .start s
    ⟨fun k c h => (by cases h), fun n st h => (by cases h)⟩ hr

/-- **Once all is quiet a stream was returned to its caller, or is in the channel of a call that gave up.** -/
theorem returned_or_abandoned (hr : run step .start ls = some s) (hq : s.Quiet) {n : Nat} {st : Stream}
    (hst : s.streams[n]? = some st) :
    ∃ c, s.calls[st.call]? = some c ∧
      (c.pc = .returned (.stream n) ∨ (c.pc = .returned .ctxErr ∧ c.ch = some (some n))) := by
  have hinv := inv_run hr
  obtain ⟨c, hc, hn⟩ := hinv.owned n st hst
  obtain ⟨hover, hfin⟩ := hq c (List.mem_of_getElem? hc)
  obtain ⟨r, hpc⟩ : ∃ r, c.pc = .returned r := by
    cases hpc : c.pc with
    | returned r => exact ⟨r, rfl⟩
    | session | select => rw [hpc] at hover; cases hover
  refine ⟨c, hc, ?_⟩
  have hhelper : c.helper.toList.flatMap HelperPc.has = [] := by rcases hfin with h | h <;> rw [h] <;> rfl
  rw [Call.has, Call.inFlight, hhelper, List.nil_append] at hn
  rcases List.mem_append.1 hn with hch | hret
  · right
    have hsome : c.ch = some (some n) := by
      cases hch' : c.ch with
      | none => rw [hch'] at hch; cases hch
      | some r =>
        rw [hch'] at hch
        cases r with
        | none => cases hch
        | some m => simp at hch; rw [hch]
    refine ⟨?_, hsome⟩
    by_cases hctx : r = .ctxErr
    · rw [hpc, hctx]
    · rw [((hinv.ok _ c hc).left r hpc hctx).1] at hsome
      cases hsome
  · left
    rw [hpc] at hret ⊢
    cases r with
    | stream m =>
      have hm : n = m := by simpa [CallPc.has] using hret
      rw [hm]
    | sessionErr | openErr | ctxErr => cases hret

/-- A call that has given up has no stream on the way to it. -/
def Spent (s : State) : Prop := ∀ c ∈ s.calls, c.pc = .returned .ctxErr → c.inFlight = []

theorem inFlight_moves {k : Nat} {c c' : Call} (hok : c.Ok) (hm : Moves k l c c') (h : c.inFlight = []) :
    c'.inFlight = [] := by
  cases hm with
  | cancel | refused | giveUp => exact h
  | opens pipe n hp =>
    obtain ⟨hh, hch⟩ := hok.early hp
    simp [Call.inFlight, Call.openOn, hch, HelperPc.has]
  | failed hh =>
    simp only [Call.inFlight, hh, List.append_eq_nil_iff] at h
    simp [Call.inFlight, HelperPc.has, h.2]
  | send r hh =>
    simp only [Call.inFlight, hh, List.append_eq_nil_iff] at h
    have hr : r.toList = [] := by simpa [HelperPc.has] using h.1
    simp [Call.inFlight, HelperPc.has, hr]
  | receive r hp hr =>
    simp only [Call.inFlight, List.append_eq_nil_iff] at h
    simp [Call.inFlight, h.1]

theorem Spent.step (hinv : Inv s) (h : Spent s) (hg : GivesUpNone s l) (hs : step s l = some t) : Spent t := by
  cases step_effect hs with
  | dial =>
    intro c hc hpc
    rcases List.mem_append.1 hc with hc | hc
    · exact h c hc hpc
    · rw [List.mem_singleton.1 hc] at hpc
      cases hpc
  | closes _ _ hcalls _ =>
    intro c hc hpc
    rw [hcalls] at hc
    exact h c hc hpc
  | moves _ _ k c c' hc hm hcalls _ =>
    intro d hd hpc
    rw [hcalls] at hd
    rcases List.mem_or_eq_of_mem_set hd with hd | rfl
    · exact h d hd hpc
    · -- it gave up before, or does so now
      refine inFlight_moves (hinv.ok k c hc) hm ?_
      cases hm with
      | cancel | failed | send => exact h c (List.mem_of_getElem? hc) hpc
      | refused | opens => cases hpc
      | receive r => cases r <;> cases hpc
      | giveUp => exact hg c hc
  | creates _ k c hc hh hcalls _ =>
    intro d hd hpc
    rw [hcalls] at hd
    rcases List.mem_or_eq_of_mem_set hd with hd | rfl
    · exact h d hd hpc
    · exact absurd hpc (hg c hc)

end

/-- **No leaked stream**: in every run in which no call gives up on a stream, once all calls have returned and their
goroutines have finished every stream has been returned to its caller or is closed. -/
theorem no_leaked_stream (ls : List Label) (s : State) (hr : run step .start ls = some s)
    (hm : Meets step GivesUpNone .start ls) (hq : s.Quiet) (n : Nat) (st : Stream) (hst : s.streams[n]? = some st) :
    st.closed = true ∨ ∃ c, s.calls[st.call]? = some c ∧ c.pc = .returned (.stream n) := by
  have hstart : Inv .start ∧ Spent .start :=
    ⟨⟨fun k c h => (by cases h), fun n st h => (by cases h)⟩, fun c h => (by cases h)⟩
  have hspent : Inv s ∧ Spent s :=
    Machine.inv_of_meets (I := fun s => Inv s ∧ Spent s)
      (fun _ _ _ h hg hs => ⟨h.1.step hs, h.2.step h.1 hg hs⟩) ls .start s
      hstart hm hr
  obtain ⟨c, hc, hret | ⟨hctx, hch⟩⟩ := returned_or_abandoned hr hq hst
  · exact .inr ⟨c, hc, hret⟩
  · have hnone := hspent.2 c (List.mem_of_getElem? hc) hctx
    simp [Call.inFlight, hch] at hnone

/-- Three calls over one session: one gets its stream, one is canceled while `OpenStream` fails, and one is canceled
before it has a session. -/
def served : List Label :=
  [.dial, .dial, .dial, .session 0 true, .session 1 true, .cancel 1, .opened 0 true, .giveUp 1, .send 0,
    .opened 1 false, .receive 0, .send 1, .cancel 2, .close, .session 2 true]

theorem no_leaked_stream_served :
    ∃ s, run step .start served = some s ∧ s.streams.length = 1 ∧
      ∀ n st, s.streams[n]? = some st →
        Stream.closed st = true ∨ ∃ c, s.calls[Stream.call st]? = some c ∧ Call.pc c = .returned (.stream n) := by
  have hm : Meets step GivesUpNone .start served := by decide
  have hrun : (run step .start served).map (fun s => (decide s.Quiet, s.streams.length)) = some (true, 1) := by decide
  obtain ⟨s, hs, hfacts⟩ := Option.map_eq_some_iff.1 hrun
  simp only [Prod.mk.injEq, decide_eq_true_eq] at hfacts
  exact ⟨s, hs, hfacts.2, no_leaked_stream served s hs hm hfacts.1⟩

/-- **A stream nobody has.**  The context is canceled while `OpenStream` is still running, or when the stream is already
in the channel: the call returns the context's error, its goroutine finishes, and the stream is open on a live session
with no one to close it. -/
theorem abandoned_stream_leaks :
    (∃ s, run step .start [.dial, .session 0 true, .cancel 0, .giveUp 0, .opened 0 true, .send 0] = some s ∧ s.Quiet ∧
      s.sessions = [false] ∧ s.streams = [⟨0, 0, false⟩] ∧ s.calls.map Call.pc = [.returned .ctxErr]) ∧
    ∃ s, run step .start [.dial, .session 0 true, .opened 0 true, .send 0, .cancel 0, .giveUp 0] = some s ∧ s.Quiet ∧
      s.sessions = [false] ∧ s.streams = [⟨0, 0, false⟩] ∧ s.calls.map Call.pc = [.returned .ctxErr] := by
  exact ⟨⟨_, rfl, by decide, rfl, rfl, rfl⟩, ⟨_, rfl, by decide, rfl, rfl, rfl⟩⟩

end Carrier
end Ccb
