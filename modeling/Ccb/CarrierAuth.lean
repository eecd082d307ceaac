import Ccb.CarrierListener
/-!
# CarrierAuth — whose streams `Accept` returns

Over a WebSocket carrier every stream that `Accept` returns came through a session of its own request, and the verifier
accepted that request's bearer token (`streams_authenticated`); no listener starts without a verifier, and none for a
`wss://` address without TLS.  A stream is with the goroutine of its session, with the one call of `Accept` that
returned it, or closed (`streams_once`).
-/
namespace Ccb
namespace CarrierListener

open Machine (run)

section
variable {s t : State} {l : Label}

/-! ## Requests and their pipes -/

/-- The request a pipe came from. -/
def State.origin (s : State) (p : Nat) : Option Nat := (s.pipes[p]?).bind Pipe.origin

theorem origin_dropPipe (p : Nat) (done : Bool) : (s.dropPipe p done).origin = s.origin := by
  funext q
  unfold State.origin State.dropPipe
  simp only [List.getElem?_modify]
  cases s.pipes[q]? with
  | none => rfl
  | some y =>
    simp only [Option.map_eq_map, Option.map_some, Option.bind_some]
    split <;> rfl

theorem length_dropPipe (p : Nat) (done : Bool) : (s.dropPipe p done).pipes.length = s.pipes.length :=
  List.length_modify ..

theorem origin_concat {y : Pipe} (h : t.pipes = s.pipes ++ [y]) (p : Nat) :
    t.origin p = if p = s.pipes.length then y.origin else s.origin p := by
  unfold State.origin
  rw [h]
  split
  · rename_i hp
    rw [hp, List.getElem?_concat_length, Option.bind_some]
  · rename_i hp
    by_cases hlt : p < s.pipes.length
    · rw [List.getElem?_append_left hlt]
    · rw [List.getElem?_eq_none (by rw [List.length_append, List.length_singleton]; omega),
        List.getElem?_eq_none (by omega)]

theorem origin_lt {p h : Nat} (ho : s.origin p = some h) : p < s.pipes.length := by
  obtain ⟨y, hy, -⟩ := Option.bind_eq_some_iff.1 ho
  exact (List.getElem?_eq_some_iff.1 hy).1

/-- The verifier has accepted the token of a request. -/
def Vouched (s : State) (h : Nat) (header : String) : Prop :=
  bearerToken header ≠ "" ∧ (h, bearerToken header, true) ∈ s.verdicts

/-- What a request has passed at each point of `handle`. -/
def HandlerOk (s : State) (h : Nat) (x : Handler) : Prop :=
  match x.pc with
  | .token | .returned => True
  | .verify token      => token = bearerToken x.header ∧ token ≠ ""
  | .upgrade           => Vouched s h x.header
  | .send p | .hold p  => s.origin p = some h

/-- The request has no pipe yet. -/
def HandlerPc.early : HandlerPc → Bool
  | .token | .verify _ | .upgrade => true
  | .send _ | .hold _ | .returned => false

structure Auth (s : State) : Prop where
  handler : ∀ h x, s.handlers[h]? = some x → HandlerOk s h x
  origin  : ∀ p h, s.origin p = some h → ∃ x, s.handlers[h]? = some x ∧ Vouched s h x.header ∧ x.pc.early = false
  single  : ∀ p q h, s.origin p = some h → s.origin q = some h → p = q
  ws      : s.inner.isWs = true → ∀ p, p < s.pipes.length → (s.origin p).isSome = true

theorem Vouched.mono {h : Nat} {header : String} (hv : s.verdicts ⊆ t.verdicts) (hx : Vouched s h header) :
    Vouched t h header :=
  ⟨hx.1, hv hx.2⟩

theorem HandlerOk.mono {h : Nat} {x : Handler} (hv : s.verdicts ⊆ t.verdicts)
    (ho : ∀ p h, s.origin p = some h → t.origin p = some h) (hx : HandlerOk s h x) : HandlerOk t h x := by
  unfold HandlerOk at hx ⊢
  split at hx
  · trivial
  · trivial
  · exact hx
  · exact hx.mono hv
  · exact ho _ _ hx
  · exact ho _ _ hx

theorem Auth.congr (h : Auth s) (hin : t.inner = s.inner) (hh : t.handlers = s.handlers) (hv : t.verdicts = s.verdicts)
    (ho : t.origin = s.origin) (hlen : t.pipes.length = s.pipes.length) : Auth t := by
  refine ⟨fun i x hx => ?_, fun p i hp => ?_, ?_, ?_⟩
  · rw [hh] at hx
    exact (h.handler i x hx).mono (by rw [hv]; exact List.Subset.refl _) (by rw [ho]; exact fun _ _ hp => hp)
  · rw [ho] at hp
    obtain ⟨x, hx, hvx, he⟩ := h.origin p i hp
    exact ⟨x, by rw [hh]; exact hx, hvx.mono (by rw [hv]; exact List.Subset.refl _), he⟩
  · rw [ho]; exact h.single
  · rw [hin, hlen, ho]; exact h.ws

/-- One request moves on. -/
theorem Auth.setHandler {i : Nat} {x x' : Handler} (h : Auth s) (hx : s.handlers[i]? = some x)
    (ht : t.handlers = s.handlers.set i x') (hhdr : x'.header = x.header)
    (hearly : x'.pc.early = true → x.pc.early = true) (hin : t.inner = s.inner) (hv : s.verdicts ⊆ t.verdicts)
    (ho : t.origin = s.origin) (hlen : t.pipes.length = s.pipes.length) (hok : HandlerOk t i x') : Auth t := by
  refine ⟨fun j y hy => ?_, fun p j hp => ?_, ?_, ?_⟩
  · rw [ht] at hy
    rcases getElem?_set_some hy with ⟨rfl, rfl⟩ | ⟨-, hy⟩
    · exact hok
    · exact (h.handler j y hy).mono hv (by rw [ho]; exact fun _ _ hp => hp)
  · rw [ho] at hp
    obtain ⟨y, hy, hvy, he⟩ := h.origin p j hp
    by_cases hij : i = j
    · subst hij
      rw [hx] at hy
      cases hy
      refine ⟨x', ?_, by rw [hhdr]; exact hvy.mono hv, ?_⟩
      · rw [ht, List.getElem?_set_self (List.getElem?_eq_some_iff.1 hx).1]
      · cases he' : x'.pc.early with
        | false => rfl
        | true => rw [hearly he'] at he; cases he
    · exact ⟨y, by rw [ht, List.getElem?_set_ne hij]; exact hy, hvy.mono hv, he⟩
  · rw [ho]; exact h.single
  · rw [hin, hlen, ho]; exact h.ws

/-- **A request that passed the verifier gets its pipe.** -/
theorem Auth.upgrade {i : Nat} {x : Handler} (h : Auth s) (hx : s.handlers[i]? = some x) (hpc : x.pc = .upgrade)
    (ht : t.handlers = s.handlers.set i { x with pc := .send s.pipes.length }) (hin : t.inner = s.inner)
    (hv : t.verdicts = s.verdicts) (hp : t.pipes = s.pipes ++ [⟨some i, true, false⟩]) : Auth t := by
  have hnew := origin_concat hp
  have hsub : s.verdicts ⊆ t.verdicts := by rw [hv]; exact List.Subset.refl _
  have hvouch : Vouched s i x.header := by
    have hok := h.handler i x hx
    rw [HandlerOk, hpc] at hok
    exact hok
  -- The request had no pipe, so the new one is its first.
  have hnone : ∀ p, s.origin p ≠ some i := by
    intro p hp
    obtain ⟨y, hy, -, he⟩ := h.origin p i hp
    rw [hx] at hy
    cases hy
    rw [hpc] at he
    cases he
  refine ⟨fun j y hy => ?_, fun p j hpj => ?_, fun p q j hpj hqj => ?_, fun hws p hlt => ?_⟩
  · rw [ht] at hy
    rcases getElem?_set_some hy with ⟨rfl, rfl⟩ | ⟨-, hy⟩
    · show t.origin s.pipes.length = some i
      rw [hnew, if_pos rfl]
    · refine (h.handler j y hy).mono hsub (fun p j hpj => ?_)
      rw [hnew, if_neg (Nat.ne_of_lt (origin_lt hpj))]
      exact hpj
  · rw [hnew] at hpj
    split at hpj
    · cases hpj
      refine ⟨{ x with pc := .send s.pipes.length }, ?_, hvouch.mono hsub, rfl⟩
      rw [ht, List.getElem?_set_self (List.getElem?_eq_some_iff.1 hx).1]
    · obtain ⟨y, hy, hvy, he⟩ := h.origin p j hpj
      have hij : i ≠ j := fun hij => hnone p (hij ▸ hpj)
      exact ⟨y, by rw [ht, List.getElem?_set_ne hij]; exact hy, hvy.mono hsub, he⟩
  · rw [hnew] at hpj hqj
    split at hpj <;> split at hqj
    · rename_i h1 h2
      exact h1.trans h2.symm
    · cases hpj
      exact absurd hqj (hnone q)
    · cases hqj
      exact absurd hpj (hnone p)
    · exact h.single p q j hpj hqj
  · rw [hnew]
    split
    · rfl
    · rename_i hne
      rw [hp, List.length_append, List.length_singleton] at hlt
      exact h.ws (hin ▸ hws) p (by omega)

/-- A pipe that comes from no request. -/
theorem Auth.arrive (h : Auth s) (hws : s.inner.isWs = false) (hh : t.handlers = s.handlers) (hin : t.inner = s.inner)
    (hv : t.verdicts = s.verdicts) (hp : t.pipes = s.pipes ++ [⟨none, true, false⟩]) : Auth t := by
  have hnew := origin_concat hp
  have hsub : s.verdicts ⊆ t.verdicts := by rw [hv]; exact List.Subset.refl _
  have hold : ∀ p j, t.origin p = some j → s.origin p = some j := by
    intro p j hpj
    rw [hnew] at hpj
    split at hpj
    · cases hpj
    · exact hpj
  refine ⟨fun i x hx => ?_, fun p i hpi => ?_, fun p q i hpi hqi => ?_, fun h' => ?_⟩
  · rw [hh] at hx
    refine (h.handler i x hx).mono hsub (fun p j hpj => ?_)
    rw [hnew, if_neg (Nat.ne_of_lt (origin_lt hpj))]
    exact hpj
  · obtain ⟨x, hx, hvx, he⟩ := h.origin p i (hold p i hpi)
    exact ⟨x, by rw [hh]; exact hx, hvx.mono hsub, he⟩
  · exact h.single p q i (hold p i hpi) (hold q i hqi)
  · rw [hin, hws] at h'
    cases h'

/-- **Every step of the listener keeps pipes and requests together.** -/
theorem Auth.step (h : Auth s) (hs : step s l = some t) : Auth t := by
  have hdrop : ∀ (u : State) (p : Nat) (done : Bool), Auth u → Auth (u.dropPipe p done) :=
    fun u p done hu => hu.congr rfl rfl rfl (origin_dropPipe p done) (length_dropPipe p done)
  cases step_some hs with
  | request header =>
    have hleft : ∀ (i : Nat) (x : Handler), s.handlers[i]? = some x →
        (s.handlers ++ [({ header := header } : Handler)])[i]? = some x := fun i x hx => getElem?_concat_left hx
    refine ⟨fun i x hx => ?_, fun p i hp => ?_, h.single, h.ws⟩
    · rcases getElem?_concat_some hx with hx | ⟨-, rfl⟩
      · exact HandlerOk.mono (s := s) (List.Subset.refl _) (fun _ _ hp => hp) (h.handler i x hx)
      · trivial
    · obtain ⟨x, hx, hv, he⟩ := h.origin p i hp
      exact ⟨x, hleft i x hx, hv, he⟩
  | arrive hws hacc => exact h.arrive hws rfl rfl rfl rfl
  | lost p => exact hdrop s p false h
  | handle i x hx hpc =>
    unfold CarrierListener.handle
    split
    · exact h.setHandler hx rfl rfl (fun he => by cases he) rfl (List.Subset.refl _) rfl rfl trivial
    · rename_i hne
      refine h.setHandler hx rfl rfl (fun _ => by rw [hpc]; rfl) rfl (List.Subset.refl _) rfl rfl ?_
      exact ⟨rfl, hne⟩
  | verified i x token ok hx hpc =>
    have hok := h.handler i x hx
    rw [HandlerOk, hpc] at hok
    obtain ⟨htok, hne⟩ := hok
    have hsub : s.verdicts ⊆ s.verdicts ++ [(i, token, ok)] := List.subset_append_left _ _
    unfold CarrierListener.verified
    cases ok with
    | false => exact h.setHandler hx rfl rfl (fun he => by cases he) rfl hsub rfl rfl trivial
    | true =>
      refine h.setHandler hx rfl rfl (fun _ => by rw [hpc]; rfl) rfl hsub rfl rfl ?_
      refine ⟨htok ▸ hne, List.mem_append_right _ ?_⟩
      rw [htok]
      exact List.mem_singleton.2 rfl
  | upgraded i x ok hx hpc =>
    unfold CarrierListener.upgraded
    cases ok with
    | false => exact h.setHandler hx rfl rfl (fun he => by cases he) rfl (List.Subset.refl _) rfl rfl trivial
    | true => exact h.upgrade hx hpc rfl rfl rfl rfl
  | handOver i x p hx hpc hacc =>
    have hok := h.handler i x hx
    rw [HandlerOk, hpc] at hok
    exact h.setHandler hx rfl rfl (fun he => by cases he) rfl (List.Subset.refl _) rfl rfl hok
  | leave i x p hx hpc hd =>
    exact hdrop _ p false (h.setHandler hx rfl rfl (fun he => by cases he) rfl (List.Subset.refl _) rfl rfl trivial)
  | release i x p y hx hpc hy hd =>
    exact h.setHandler hx rfl rfl (fun he => by cases he) rfl (List.Subset.refl _) rfl rfl trivial
  | served p ok hacc =>
    unfold CarrierListener.served
    split <;> exact h.congr rfl rfl rfl rfl rfl
  | closePipe p hacc => exact (hdrop s p true h).congr rfl rfl rfl rfl rfl
  | die n x hx hd hup => exact hdrop _ x.pipe true (h.congr rfl rfl rfl rfl rfl)
  | closeSession n x hx hpc => exact hdrop _ x.pipe true (h.congr rfl rfl rfl rfl rfl)
  | stream | hangUp | accept | close | acceptErr | sessionErr | deliver | giveUp | closeStream | refuse | closeInner
  | closeSrv => exact h.congr rfl rfl rfl rfl rfl

/-! ## Pipes and their sessions -/

/-- The pipe a session is on. -/
def State.over (s : State) (n : Nat) : Option Nat := (s.sessions[n]?).map Session.pipe

theorem over_setSession {n : Nat} {x x' : Session} (hx : s.sessions[n]? = some x) (hp : x'.pipe = x.pipe) :
    (s.setSession n x').over = s.over := by
  funext m
  show ((s.sessions.set n x')[m]?).map Session.pipe = _
  by_cases hm : n = m
  · subst hm
    rw [List.getElem?_set_self (List.getElem?_eq_some_iff.1 hx).1, State.over, hx, Option.map_some, Option.map_some, hp]
  · rw [List.getElem?_set_ne hm]
    rfl

/-- The pipe `acceptPipes` has in hand. -/
def PipesPc.pipe : PipesPc → Option Nat
  | .server p | .closing p => some p
  | .accept | .returned    => none

/-- The pipe `handle` offers. -/
def HandlerPc.offers : HandlerPc → Option Nat
  | .send p => some p
  | _       => none

/-- **A pipe is in one place**: offered by its request, with `acceptPipes`, or under one session. -/
structure Served (s : State) : Prop where
  session  : ∀ n p, s.over n = some p → p < s.pipes.length
  apart    : ∀ n m p, s.over n = some p → s.over m = some p → n = m
  acceptor : ∀ p, s.acceptor.pipe = some p → p < s.pipes.length ∧ ∀ n, s.over n ≠ some p
  offered  : ∀ (h : Nat) (x : Handler) (p : Nat), s.handlers[h]? = some x → x.pc.offers = some p →
    s.acceptor.pipe ≠ some p ∧ ∀ n, s.over n ≠ some p

theorem Served.congr (h : Served s) (ho : t.over = s.over) (hlen : s.pipes.length ≤ t.pipes.length)
    (hacc : ∀ p, t.acceptor.pipe = some p → s.acceptor.pipe = some p)
    (hoff : ∀ (i : Nat) (x : Handler) (p : Nat), t.handlers[i]? = some x → x.pc.offers = some p →
      ∃ y : Handler, s.handlers[i]? = some y ∧ y.pc.offers = some p) : Served t := by
  refine ⟨?_, ?_, fun p hp => ?_, fun i x p hx hp => ?_⟩
  · rw [ho]
    exact fun n p hn => Nat.lt_of_lt_of_le (h.session n p hn) hlen
  · rw [ho]; exact h.apart
  · rw [ho]
    obtain ⟨hlt, hno⟩ := h.acceptor p (hacc p hp)
    exact ⟨Nat.lt_of_lt_of_le hlt hlen, hno⟩
  · rw [ho]
    obtain ⟨y, hy, hyp⟩ := hoff i x p hx hp
    obtain ⟨h1, h2⟩ := h.offered i y p hy hyp
    exact ⟨fun hap => h1 (hacc p hap), h2⟩

/-- A request moves on and offers nothing. -/
theorem Served.setHandler {i : Nat} {x' : Handler} (h : Served s) (ht : t.handlers = s.handlers.set i x')
    (hx' : x'.pc.offers = none) (ho : t.over = s.over) (hlen : t.pipes.length = s.pipes.length)
    (hacc : t.acceptor = s.acceptor) : Served t := by
  refine h.congr ho (Nat.le_of_eq hlen.symm) (by rw [hacc]; exact fun p hp => hp) (fun j y p hy hp => ?_)
  rw [ht] at hy
  rcases getElem?_set_some hy with ⟨-, rfl⟩ | ⟨-, hy⟩
  · rw [hx'] at hp
    cases hp
  · exact ⟨y, hy, hp⟩

/-- **Every step of the listener keeps each pipe in one place.** -/
theorem Served.step (h : Served s) (ha : Auth s) (hs : step s l = some t) : Served t := by
  have hsame : ∀ {t : State}, t.over = s.over → t.pipes.length = s.pipes.length → t.acceptor = s.acceptor →
      t.handlers = s.handlers → Served t := fun ho hlen hacc hh =>
    h.congr ho (Nat.le_of_eq hlen.symm) (by rw [hacc]; exact fun p hp => hp)
      (by rw [hh]; exact fun _ x _ hx hp => ⟨x, hx, hp⟩)
  have hlt : ∀ (i : Nat) (x : Handler) (p : Nat), s.handlers[i]? = some x → x.pc.offers = some p →
      p < s.pipes.length := by
    intro i x p hx hp
    have hok := ha.handler i x hx
    cases hpc : x.pc with
    | send q =>
      rw [hpc] at hp
      cases hp
      rw [HandlerOk, hpc] at hok
      exact origin_lt hok
    | _ => rw [hpc] at hp; cases hp
  have hfresh : ∀ n, s.over n ≠ some s.pipes.length := fun n hn => Nat.lt_irrefl _ (h.session n _ hn)
  cases step_some hs with
  | request header =>
    refine h.congr rfl (Nat.le_refl _) (fun p hp => hp) (fun i x p hx hp => ?_)
    rcases getElem?_concat_some hx with hx | ⟨-, rfl⟩
    · exact ⟨x, hx, hp⟩
    · cases hp
  | arrive hws hacc =>
    have hlen : (s.pipes ++ [(⟨none, true, false⟩ : Pipe)]).length = s.pipes.length + 1 := by simp
    refine ⟨fun n p hn => ?_, h.apart, fun p hp => ?_, fun i x p hx hp => ?_⟩
    · have := h.session n p hn
      show p < (s.pipes ++ [(⟨none, true, false⟩ : Pipe)]).length
      omega
    · cases hp
      exact ⟨by rw [hlen]; exact Nat.lt_succ_self _, hfresh⟩
    · have hp' := hlt i x p hx hp
      refine ⟨fun heq => ?_, (h.offered i x p hx hp).2⟩
      cases heq
      exact Nat.lt_irrefl _ hp'
  | lost p => exact hsame rfl (length_dropPipe p false) rfl rfl
  | handle i x hx hpc =>
    unfold CarrierListener.handle
    split <;> exact h.setHandler rfl rfl rfl rfl rfl
  | verified i x token ok hx hpc =>
    unfold CarrierListener.verified
    cases ok <;> exact h.setHandler rfl rfl rfl rfl rfl
  | upgraded i x ok hx hpc =>
    unfold CarrierListener.upgraded
    cases ok with
    | false => exact h.setHandler rfl rfl rfl rfl rfl
    | true =>
      refine ⟨fun n p hn => ?_, h.apart, fun p hp => ?_, fun j y p hy hp => ?_⟩
      · have := h.session n p hn
        show p < (s.pipes ++ [(⟨some i, true, false⟩ : Pipe)]).length
        rw [List.length_append]
        omega
      · obtain ⟨h1, h2⟩ := h.acceptor p hp
        refine ⟨?_, h2⟩
        show p < (s.pipes ++ [(⟨some i, true, false⟩ : Pipe)]).length
        rw [List.length_append]
        omega
      · rcases getElem?_set_some hy with ⟨-, rfl⟩ | ⟨-, hy⟩
        · cases hp
          exact ⟨fun heq => Nat.lt_irrefl _ (h.acceptor _ heq).1, hfresh⟩
        · exact h.offered j y p hy hp
  | handOver i x p hx hpc hacc =>
    have hoff := h.offered i x p hx (by rw [hpc]; rfl)
    refine ⟨h.session, h.apart, fun q hq => ?_, fun j y q hy hq => ?_⟩
    · cases hq
      exact ⟨hlt i x p hx (by rw [hpc]; rfl), hoff.2⟩
    · rcases getElem?_set_some hy with ⟨-, rfl⟩ | ⟨hij, hy⟩
      · cases hq
      · refine ⟨fun heq => hij ?_, (h.offered j y q hy hq).2⟩
        cases heq
        -- Both requests would be where the pipe came from.
        have h1 := ha.handler i x hx
        have h2 := ha.handler j y hy
        rw [HandlerOk, hpc] at h1
        cases hyp : y.pc with
        | send r =>
          rw [hyp] at hq
          cases hq
          rw [HandlerOk, hyp] at h2
          exact Option.some.inj (h1.symm.trans h2)
        | _ => rw [hyp] at hq; cases hq
  | leave i x p hx hpc hd => exact h.setHandler rfl rfl rfl (length_dropPipe p false) rfl
  | release i x p y hx hpc hy hd => exact h.setHandler rfl rfl rfl rfl rfl
  | acceptErr hacc hd =>
    exact h.congr rfl (Nat.le_refl _) (fun p hp => by cases hp) (fun _ x _ hx hp => ⟨x, hx, hp⟩)
  | served p ok hacc =>
    obtain ⟨hp, hno⟩ := h.acceptor p (by rw [hacc]; rfl)
    unfold CarrierListener.served
    cases ok with
    | false =>
      refine h.congr rfl (Nat.le_refl _) (fun q hq => ?_) (fun _ x _ hx hp => ⟨x, hx, hp⟩)
      cases hq
      rw [hacc]
      rfl
    | true =>
      have hover : ∀ n q, ((s.sessions ++ [(⟨p, false, .accept⟩ : Session)])[n]?).map Session.pipe = some q →
          s.over n = some q ∨ (n = s.sessions.length ∧ q = p) := by
        intro n q hn
        obtain ⟨y, hy, rfl⟩ := Option.map_eq_some_iff.1 hn
        rcases getElem?_concat_some hy with hy | ⟨hlast, rfl⟩
        · left
          rw [State.over, hy]
          rfl
        · exact .inr ⟨hlast, rfl⟩
      refine ⟨fun n q hn => ?_, fun n m q hn hm => ?_, (fun q hq => by cases hq), fun i x q hx hq => ?_⟩
      · rcases hover n q hn with hn | ⟨-, rfl⟩
        · exact h.session n q hn
        · exact hp
      · rcases hover n q hn with hn | ⟨rfl, rfl⟩ <;> rcases hover m q hm with hm | ⟨rfl, hq⟩
        · exact h.apart n m q hn hm
        · exact absurd (hq ▸ hn) (hno n)
        · exact absurd hm (hno m)
        · rfl
      · obtain ⟨h1, h2⟩ := h.offered i x q hx hq
        refine ⟨fun heq => (by cases heq), fun n hn => ?_⟩
        rcases hover n q hn with hn | ⟨-, rfl⟩
        · exact h2 n hn
        · exact h1 (by rw [hacc]; rfl)
  | closePipe p hacc =>
    exact h.congr rfl (Nat.le_of_eq (length_dropPipe p true).symm) (fun q hq => by cases hq)
      (fun _ x _ hx hp => ⟨x, hx, hp⟩)
  | stream n x hx => exact hsame (over_setSession hx rfl) rfl rfl rfl
  | die n x hx => exact hsame (over_setSession hx rfl) (length_dropPipe x.pipe true) rfl rfl
  | sessionErr n x hx => exact hsame (over_setSession hx rfl) rfl rfl rfl
  | deliver n k x st hx => exact hsame (over_setSession hx rfl) rfl rfl rfl
  | giveUp n x st hx => exact hsame (over_setSession hx rfl) rfl rfl rfl
  | closeStream n x st hx => exact hsame (over_setSession hx rfl) rfl rfl rfl
  | closeSession n x hx => exact hsame (over_setSession hx rfl) (length_dropPipe x.pipe true) rfl rfl
  | hangUp | accept | close | refuse | closeInner | closeSrv => exact hsame rfl rfl rfl rfl

/-! ## Streams and who has them -/

/-- The session a stream is of. -/
def State.sessionOf (s : State) (st : Nat) : Option Nat := (s.streams[st]?).map Stream.sess

/-- The stream the goroutine of a session has in hand. -/
def SessionPc.held : SessionPc → Option Nat
  | .send st | .closeStream st => some st
  | .accept | .close | .returned => none

def State.holds (s : State) (n : Nat) : Option Nat := (s.sessions[n]?).bind (fun x => x.pc.held)

/-- The call of `Accept` has returned the stream. -/
def State.got (s : State) (k st : Nat) : Prop := s.calls[k]? = some (.returned (some st))

/-- **A stream is in one place**: with the goroutine of its session, with the call that returned it, or closed. -/
structure Once (s : State) : Prop where
  session : ∀ st n, s.sessionOf st = some n → n < s.sessions.length
  held    : ∀ n st, s.holds n = some st → s.sessionOf st = some n
  call    : ∀ k st, s.got k st → (s.sessionOf st).isSome = true ∧ ∀ n, s.holds n ≠ some st
  single  : ∀ k m st, s.got k st → s.got m st → k = m
  placed  : ∀ st y, s.streams[st]? = some y → y.closed = false → s.holds y.sess = some st ∨ ∃ k, s.got k st

theorem holds_setSession {n : Nat} {x x' : Session} (hx : s.sessions[n]? = some x) (m : Nat) :
    (s.setSession n x').holds m = if n = m then x'.pc.held else s.holds m := by
  show ((s.sessions.set n x')[m]?).bind (fun y => y.pc.held) = _
  split
  · rename_i hm
    subst hm
    rw [List.getElem?_set_self (List.getElem?_eq_some_iff.1 hx).1, Option.bind_some]
  · rename_i hm
    rw [List.getElem?_set_ne hm]
    rfl

theorem holds_of_some {n : Nat} {x : Session} (hx : s.sessions[n]? = some x) : s.holds n = x.pc.held := by
  rw [State.holds, hx]
  rfl

/-- A session moves and what its goroutine has in hand stays. -/
theorem holds_keep {n : Nat} {x x' : Session} (hx : s.sessions[n]? = some x) (hh : x'.pc.held = x.pc.held) :
    (s.setSession n x').holds = s.holds := by
  funext m
  rw [holds_setSession hx]
  split
  · rename_i hm
    rw [hh, ← hm, holds_of_some hx]
  · rfl

/-- The same streams, some of them closed since. -/
def Fewer (s t : State) : Prop :=
  t.sessionOf = s.sessionOf ∧ ∀ (st : Nat) (y : Stream), t.streams[st]? = some y → y.closed = false →
    s.streams[st]? = some y

theorem Fewer.of_eq (h : t.streams = s.streams) : Fewer s t := by
  refine ⟨?_, fun st y hy _ => by rw [← h]; exact hy⟩
  funext st
  rw [State.sessionOf, h]
  rfl

theorem fewer_modify (st : Nat) (h : t.streams = s.streams.modify st (fun y => { y with closed := true })) :
    Fewer s t := by
  refine ⟨?_, fun i y hy hc => ?_⟩
  · funext i
    unfold State.sessionOf
    rw [h, List.getElem?_modify]
    cases s.streams[i]? with
    | none => rfl
    | some y =>
      simp only [Option.map_eq_map, Option.map_some, Option.some.injEq]
      split <;> rfl
  · rw [h] at hy
    rcases getElem?_modify_some hy with ⟨-, z, -, rfl⟩ | ⟨-, hz⟩
    · cases hc
    · exact hz

theorem fewer_closeStreams (f : Stream → Bool) : Fewer s (s.closeStreams f) := by
  refine ⟨?_, fun i y hy hc => ?_⟩
  · funext i
    show ((s.streams.map _)[i]?).map Stream.sess = _
    rw [List.getElem?_map, State.sessionOf]
    cases s.streams[i]? with
    | none => rfl
    | some y =>
      simp only [Option.map_some, Option.some.injEq]
      split <;> rfl
  · obtain ⟨z, hz, rfl⟩ := Option.map_eq_some_iff.1 ((List.getElem?_map ..).symm.trans hy)
    split at hc
    · cases hc
    · rename_i hf
      rw [if_neg hf]
      exact hz

/-- Streams are closed, and nothing changes hands. -/
theorem Once.keep (h : Once s) (hf : Fewer s t) (hh : t.holds = s.holds) (hc : t.calls = s.calls)
    (hlen : s.sessions.length ≤ t.sessions.length) : Once t := by
  have hgot : ∀ k st, t.got k st ↔ s.got k st := fun k st => by rw [State.got, State.got, hc]
  refine ⟨fun st n hn => ?_, ?_, fun k st hk => ?_, fun k m st hk hm => ?_, fun st y hy hcl => ?_⟩
  · rw [hf.1] at hn
    exact Nat.lt_of_lt_of_le (h.session st n hn) hlen
  · rw [hh, hf.1]; exact h.held
  · rw [hh, hf.1]
    exact h.call k st ((hgot k st).1 hk)
  · exact h.single k m st ((hgot k st).1 hk) ((hgot m st).1 hm)
  · rw [hh]
    rcases h.placed st y (hf.2 st y hy hcl) hcl with hp | ⟨k, hk⟩
    · exact .inl hp
    · exact .inr ⟨k, (hgot k st).2 hk⟩

/-- `AcceptStream` returns a stream. -/
theorem Once.stream {n : Nat} {x : Session} (h : Once s) (hx : s.sessions[n]? = some x) (hpc : x.pc = .accept) :
    Once { s.setSession n { x with pc := .send s.streams.length } with streams := s.streams ++ [⟨n, false⟩] } := by
  have hlt : n < s.sessions.length := (List.getElem?_eq_some_iff.1 hx).1
  have hnone : s.holds n = none := by rw [holds_of_some hx, hpc]; rfl
  have hof : ∀ st m, ((s.streams ++ [(⟨n, false⟩ : Stream)])[st]?).map Stream.sess = some m →
      s.sessionOf st = some m ∨ (st = s.streams.length ∧ m = n) := by
    intro st m hm
    obtain ⟨y, hy, rfl⟩ := Option.map_eq_some_iff.1 hm
    rcases getElem?_concat_some hy with hy | ⟨hst, rfl⟩
    · left
      rw [State.sessionOf, hy]
      rfl
    · exact .inr ⟨hst, rfl⟩
  have hof' : ∀ st m, s.sessionOf st = some m →
      ((s.streams ++ [(⟨n, false⟩ : Stream)])[st]?).map Stream.sess = some m := by
    intro st m hm
    obtain ⟨y, hy, rfl⟩ := Option.map_eq_some_iff.1 hm
    rw [getElem?_concat_left hy]
    rfl
  -- Nobody has a stream with the number of the new one.
  have hfresh : s.sessionOf s.streams.length = none := by
    rw [State.sessionOf, List.getElem?_eq_none (Nat.le_refl _)]
    rfl
  have hhold : ∀ m, State.holds (s.setSession n { x with pc := .send s.streams.length }) m =
      if n = m then some s.streams.length else s.holds m := holds_setSession hx
  have hlen : (s.sessions.set n { x with pc := .send s.streams.length }).length = s.sessions.length :=
    List.length_set ..
  refine ⟨fun st m hm => ?_, fun m st hm => ?_, fun k st hk => ?_, h.single, fun st y hy hc => ?_⟩
  · show m < (s.sessions.set n _).length
    rw [hlen]
    rcases hof st m hm with hm | ⟨-, rfl⟩
    · exact h.session st m hm
    · exact hlt
  · have hm' := (hhold m).symm.trans hm
    split at hm'
    · rename_i hnm
      cases hm'
      show ((s.streams ++ [(⟨n, false⟩ : Stream)])[s.streams.length]?).map Stream.sess = some m
      rw [List.getElem?_concat_length, ← hnm]
      rfl
    · exact hof' st m (h.held m st hm')
  · obtain ⟨hsome, hno⟩ := h.call k st hk
    obtain ⟨m, hm⟩ := Option.isSome_iff_exists.1 hsome
    refine ⟨Option.isSome_iff_exists.2 ⟨m, hof' st m hm⟩, fun j hj => ?_⟩
    have hj' := (hhold j).symm.trans hj
    split at hj'
    · cases hj'
      rw [hfresh] at hm
      cases hm
    · exact hno j hj'
  · rcases getElem?_concat_some hy with hy | ⟨rfl, rfl⟩
    · rcases h.placed st y hy hc with hp | ⟨k, hk⟩
      · refine .inl ((hhold y.sess).trans ?_)
        rw [if_neg (fun hn => by rw [hn, hp] at hnone; cases hnone)]
        exact hp
      · exact .inr ⟨k, hk⟩
    · exact .inl ((hhold n).trans (if_pos rfl))

/-- **A stream changes hands**: from its session's goroutine to a call of `Accept`. -/
theorem Once.deliver {n k st : Nat} {x : Session} (h : Once s) (hx : s.sessions[n]? = some x) (hpc : x.pc = .send st)
    (hk : s.calls[k]? = some .select) :
    Once { s.setSession n { x with pc := .accept } with calls := s.calls.set k (.returned (some st)) } := by
  have hnst : s.holds n = some st := by rw [holds_of_some hx, hpc]; rfl
  have hhold : ∀ m, State.holds (s.setSession n { x with pc := .accept }) m = if n = m then none else s.holds m :=
    holds_setSession hx
  have hgot : ∀ i r, (s.calls.set k (.returned (some st)))[i]? = some (.returned (some r)) →
      (i = k ∧ r = st) ∨ s.got i r := by
    intro i r hi
    rcases getElem?_set_some hi with ⟨rfl, hr⟩ | ⟨-, hi⟩
    · cases hr
      exact .inl ⟨rfl, rfl⟩
    · exact .inr hi
  have hold : ∀ i r, s.got i r → (s.calls.set k (.returned (some st)))[i]? = some (.returned (some r)) := by
    intro i r hi
    have hne : k ≠ i := by
      rintro rfl
      rw [State.got, hk] at hi
      cases hi
    rw [List.getElem?_set_ne hne]
    exact hi
  have hfree : ∀ i, ¬ s.got i st := fun i hi => (h.call i st hi).2 n hnst
  have hlen : (s.sessions.set n { x with pc := .accept }).length = s.sessions.length := List.length_set ..
  refine ⟨fun r m hm => ?_, fun m r hm => ?_, fun i r hi => ?_, fun i j r hi hj => ?_, fun r y hy hc => ?_⟩
  · show m < (s.sessions.set n _).length
    rw [hlen]
    exact h.session r m hm
  · have hm' := (hhold m).symm.trans hm
    split at hm'
    · cases hm'
    · exact h.held m r hm'
  · rcases hgot i r hi with ⟨-, rfl⟩ | hi
    · refine ⟨Option.isSome_iff_exists.2 ⟨n, h.held n r hnst⟩, fun m hm => ?_⟩
      have hm' := (hhold m).symm.trans hm
      split at hm'
      · cases hm'
      · rename_i hnm
        exact hnm (Option.some.inj ((h.held n r hnst).symm.trans (h.held m r hm')))
    · refine ⟨(h.call i r hi).1, fun m hm => ?_⟩
      have hm' := (hhold m).symm.trans hm
      split at hm'
      · cases hm'
      · exact (h.call i r hi).2 m hm'
  · rcases hgot i r hi with ⟨rfl, rfl⟩ | hi' <;> rcases hgot j r hj with ⟨rfl, hr⟩ | hj'
    · rfl
    · exact absurd hj' (hfree j)
    · exact absurd (hr ▸ hi') (hfree i)
    · exact h.single i j r hi' hj'
  · rcases h.placed r y hy hc with hp | ⟨i, hi⟩
    · by_cases hn : n = y.sess
      · -- The stream in hand is the one delivered.
        have hr : r = st := by
          rw [← hn, hnst] at hp
          exact (Option.some.inj hp).symm
        refine .inr ⟨k, ?_⟩
        show (s.calls.set k (.returned (some st)))[k]? = _
        rw [List.getElem?_set_self (List.getElem?_eq_some_iff.1 hk).1, hr]
      · exact .inl ((hhold y.sess).trans ((if_neg hn).trans hp))
    · exact .inr ⟨i, hold i r hi⟩

/-- **The goroutine of a session closes the stream it has in hand.** -/
theorem Once.closeStream {n st : Nat} {x : Session} (h : Once s) (hx : s.sessions[n]? = some x)
    (hpc : x.pc = .closeStream st) :
    Once { s.setSession n { x with pc := .close } with
      streams := s.streams.modify st (fun y => { y with closed := true }) } := by
  have hnst : s.holds n = some st := by rw [holds_of_some hx, hpc]; rfl
  have hhold : ∀ m, State.holds (s.setSession n { x with pc := .close }) m = if n = m then none else s.holds m :=
    holds_setSession hx
  have hdrop : ∀ m r, State.holds (s.setSession n { x with pc := .close }) m = some r → s.holds m = some r := by
    intro m r hm
    rw [hhold] at hm
    split at hm
    · cases hm
    · exact hm
  have hf := fewer_modify (s := s) (t := { s.setSession n { x with pc := .close } with
    streams := s.streams.modify st (fun y => { y with closed := true }) }) st rfl
  have hlen : (s.sessions.set n { x with pc := .close }).length = s.sessions.length := List.length_set ..
  refine ⟨fun r m hm => ?_, fun m r hm => ?_, fun k r hk => ?_, h.single, fun r y hy hc => ?_⟩
  · show m < (s.sessions.set n _).length
    rw [hlen]
    rw [hf.1] at hm
    exact h.session r m hm
  · rw [hf.1]
    exact h.held m r (hdrop m r hm)
  · rw [hf.1]
    exact ⟨(h.call k r hk).1, fun m hm => (h.call k r hk).2 m (hdrop m r hm)⟩
  · have hy' := hf.2 r y hy hc
    rcases h.placed r y hy' hc with hp | hk
    · refine .inl ((hhold y.sess).trans ((if_neg (fun hn => ?_)).trans hp))
      -- The stream in hand is the one that is closed.
      rw [← hn, hnst] at hp
      cases hp
      rcases getElem?_modify_some hy with ⟨-, z, -, rfl⟩ | ⟨hne, -⟩
      · cases hc
      · exact hne rfl
    · exact .inr hk

theorem Once.step (h : Once s) (hs : step s l = some t) : Once t := by
  have hsame : ∀ {t : State}, t.sessions = s.sessions → t.streams = s.streams → t.calls = s.calls → Once t := by
    intro t hse hst hc
    exact h.keep (.of_eq hst) (by funext m; rw [State.holds, hse]; rfl) hc (Nat.le_of_eq (by rw [hse]))
  have hmove : ∀ {n : Nat} {x x' : Session}, s.sessions[n]? = some x → x'.pc.held = x.pc.held →
      Once (s.setSession n x') := by
    intro n x x' hx hh
    exact h.keep (.of_eq rfl) (holds_keep hx hh) rfl (Nat.le_of_eq (List.length_set ..).symm)
  have hshut : ∀ {n : Nat} {x : Session} {pc : SessionPc}, s.sessions[n]? = some x → pc.held = x.pc.held →
      Once (s.shutdown n x pc) := by
    intro n x pc hx hh
    exact h.keep (fewer_closeStreams _) (holds_keep hx hh) rfl (Nat.le_of_eq (List.length_set ..).symm)
  cases step_some hs with
  | handle i x hx hpc =>
    unfold CarrierListener.handle
    split <;> exact hsame rfl rfl rfl
  | verified i x token ok hx hpc => exact hsame rfl rfl rfl
  | upgraded i x ok hx hpc =>
    unfold CarrierListener.upgraded
    split <;> exact hsame rfl rfl rfl
  | served p ok hacc =>
    unfold CarrierListener.served
    split
    · refine h.keep (.of_eq rfl) ?_ rfl (by rw [List.length_append]; exact Nat.le_add_right _ _)
      funext m
      show ((s.sessions ++ [(⟨p, false, .accept⟩ : Session)])[m]?).bind (fun y => y.pc.held) = _
      by_cases hm : m < s.sessions.length
      · rw [List.getElem?_append_left hm]
        rfl
      · -- The new session has nothing in hand.
        rw [State.holds, List.getElem?_append_right (Nat.le_of_not_lt hm), List.getElem?_singleton,
          List.getElem?_eq_none (Nat.le_of_not_lt hm)]
        split <;> rfl
    · exact hsame rfl rfl rfl
  | stream n x hx hpc => exact h.stream hx hpc
  | hangUp st => exact h.keep (fewer_modify st rfl) rfl rfl (Nat.le_refl _)
  | accept =>
    refine ⟨h.session, h.held, fun k st hk => ?_, fun k m st hk hm => ?_, fun st y hy hc => ?_⟩
    · rcases getElem?_concat_some hk with hk | ⟨-, hk⟩
      · exact h.call k st hk
      · cases hk
    · rcases getElem?_concat_some hk with hk | ⟨-, hk⟩
      · rcases getElem?_concat_some hm with hm | ⟨-, hm⟩
        · exact h.single k m st hk hm
        · cases hm
      · cases hk
    · rcases h.placed st y hy hc with hp | ⟨k, hk⟩
      · exact .inl hp
      · exact .inr ⟨k, getElem?_concat_left hk⟩
  | die n x hx => exact hshut hx rfl
  | sessionErr n x hx hpc => exact hmove hx (by rw [hpc]; rfl)
  | deliver n k x st hx hpc hk => exact h.deliver hx hpc hk
  | giveUp n x st hx hpc => exact hmove hx (by rw [hpc]; rfl)
  | closeStream n x st hx hpc => exact h.closeStream hx hpc
  | closeSession n x hx hpc => exact hshut hx (by rw [hpc]; rfl)
  | refuse k hk =>
    have hgot : ∀ i r, (s.calls.set k (.returned none))[i]? = some (.returned (some r)) ↔ s.got i r := by
      intro i r
      by_cases hki : k = i
      · subst hki
        rw [List.getElem?_set_self (List.getElem?_eq_some_iff.1 hk).1, State.got, hk]
        exact ⟨(fun he => by cases he), (fun he => by cases he)⟩
      · rw [List.getElem?_set_ne hki]
        exact Iff.rfl
    refine ⟨h.session, h.held, fun i r hi => h.call i r ((hgot i r).1 hi),
      fun i j r hi hj => h.single i j r ((hgot i r).1 hi) ((hgot j r).1 hj), fun r y hy hc => ?_⟩
    rcases h.placed r y hy hc with hp | ⟨i, hi⟩
    · exact .inl hp
    · exact .inr ⟨i, (hgot i r).2 hi⟩
  | request | arrive | lost | close | handOver | leave | release | acceptErr | closePipe | closeInner | closeSrv =>
    exact hsame rfl rfl rfl

end

/-! ## Runs -/

/-- The request whose WebSocket a session runs over. -/
def State.opener (s : State) (n : Nat) : Option Nat := (s.over n).bind s.origin

/-- The request whose session a stream is of. -/
def State.requestOf (s : State) (st : Nat) : Option Nat := (s.sessionOf st).bind s.opener

/-- All that is kept of who comes from whom. -/
structure Kept (s : State) : Prop where
  auth   : Auth s
  served : Served s
  once   : Once s

theorem Kept.step {s t : State} {l : Label} (h : Kept s) (hs : step s l = some t) : Kept t :=
  ⟨h.auth.step hs, h.served.step h.auth hs, h.once.step hs⟩

theorem Kept.start (inner : Inner) : Kept (.start inner) where
  auth   := by
    refine ⟨?_, ?_, ?_, ?_⟩
    · exact fun h x hx => by cases hx
    · exact fun p h hp => by cases hp
    · exact fun p q h hp => by cases hp
    · exact fun _ p hp => by cases hp
  served := by
    refine ⟨?_, ?_, ?_, ?_⟩
    · exact fun n p hp => by cases hp
    · exact fun n m p hp => by cases hp
    · exact fun p hp => by cases hp
    · exact fun h x p hx => by cases hx
  once   := by
    refine ⟨?_, ?_, ?_, ?_, ?_⟩
    · exact fun st n hn => by cases hn
    · exact fun n st hn => by cases hn
    · exact fun k st hk => by cases hk
    · exact fun k m st hk => by cases hk
    · exact fun st y hy => by cases hy

theorem kept_of_run {inner : Inner} {ls : List Label} {s : State} (hr : run step (.start inner) ls = some s) : Kept s :=
  Machine.inv_of_step (I := Kept) (fun _ _ _ h hs => h.step hs) ls _ s (.start inner) hr

theorem inner_step {s t : State} {l : Label} (hs : step s l = some t) : t.inner = s.inner := by
  cases step_some hs with
  | handle i x => unfold CarrierListener.handle; split <;> rfl
  | upgraded i x ok => unfold CarrierListener.upgraded; split <;> rfl
  | served p ok => unfold CarrierListener.served; split <;> rfl
  | _ => rfl

theorem startCarrierListener_ok {x : Ext} {cfg : Config} {s : State} (h : startCarrierListener x cfg = .ok s) :
    ∃ ref inner, parseCarrierRef cfg.carrierListen = some ref ∧ carrierNetListener x cfg ref = .ok inner ∧
      s = .start inner := by
  unfold startCarrierListener at h
  split at h
  · cases h
  · rename_i ref href
    cases hl : carrierNetListener x cfg ref with
    | error e => rw [hl] at h; cases h
    | ok inner =>
      rw [hl] at h
      cases h
      exact ⟨ref, inner, href, hl, rfl⟩

/-- **A WebSocket listener has a verifier, and TLS if its address asks for it.** -/
theorem carrierNetListener_ok {x : Ext} {cfg : Config} {ref : CarrierRef} {inner : Inner}
    (h : carrierNetListener x cfg ref = .ok inner) (hws : inner.isWs = true) :
    cfg.carrierTokenVerify = true ∧ ∀ url, ref = .ws url true → ∃ addr path, inner = .ws addr path true := by
  unfold carrierNetListener at h
  split at h
  · cases h
    cases hws
  · rename_i url tls
    split at h
    · cases h
    · rename_i hv
      split at h
      · cases h
      · rename_i host path _
        split at h
        · cases h
        · rename_i htls
          rw [listen, if_pos (Bool.of_not_eq_false hv)] at h
          cases h
          refine ⟨Bool.of_not_eq_false hv, fun url' he => ?_⟩
          cases he
          exact ⟨host, _, by rw [Bool.of_not_eq_false (fun hf => htls ⟨rfl, hf⟩)]⟩

/-- **Over a WebSocket carrier every stream `Accept` returns is of a request the verifier accepted**, in every run of
the listener, and no request has opened two sessions. -/
theorem streams_authenticated (x : Ext) (cfg : Config) (ls : List Label) (s₀ s : State)
    (h0 : startCarrierListener x cfg = .ok s₀) (hws : s₀.inner.isWs = true) (hr : run step s₀ ls = some s) :
    cfg.carrierTokenVerify = true ∧
      (∀ url, parseCarrierRef cfg.carrierListen = some (.ws url true) → ∃ addr path, s.inner = .ws addr path true) ∧
      (∀ k st, s.got k st → ∃ h y, s.requestOf st = some h ∧ s.handlers[h]? = some y ∧ Vouched s h y.header) ∧
      ∀ n m h, s.opener n = some h → s.opener m = some h → n = m := by
  obtain ⟨ref, inner, href, hl, rfl⟩ := startCarrierListener_ok h0
  obtain ⟨hv, htls⟩ := carrierNetListener_ok hl hws
  have hk := kept_of_run hr
  have hin : s.inner = inner := Machine.inv_of_step (I := fun s => s.inner = inner)
    (fun _ _ _ h hs => (inner_step hs).trans h) ls _ s rfl hr
  refine ⟨hv, fun url hurl => ?_, fun k st hgot => ?_, fun n m h hn hm => ?_⟩
  · rw [hin]
    exact htls url (Option.some.inj (href.symm.trans hurl))
  · obtain ⟨n, hn⟩ := Option.isSome_iff_exists.1 (hk.once.call k st hgot).1
    have hlt := hk.once.session st n hn
    have hover : s.over n = some s.sessions[n].pipe := by
      rw [State.over, List.getElem?_eq_getElem hlt]
      rfl
    have hsome := hk.auth.ws (by rw [hin]; exact hws) _ (hk.served.session n _ hover)
    obtain ⟨h, hh⟩ := Option.isSome_iff_exists.1 hsome
    obtain ⟨y, hy, hvouch, -⟩ := hk.auth.origin _ h hh
    exact ⟨h, y, by rw [State.requestOf, hn, Option.bind_some, State.opener, hover, Option.bind_some, hh], hy, hvouch⟩
  · obtain ⟨p, hnp, hpo⟩ := Option.bind_eq_some_iff.1 hn
    obtain ⟨q, hmq, hqo⟩ := Option.bind_eq_some_iff.1 hm
    rw [hk.auth.single q p h hqo hpo] at hmq
    exact hk.served.apart n m p hnp hmq

/-- A `wss://` listener. -/
def secureExt : Ext := ⟨fun _ => .ok ("outside:9618", ""), fun s => s⟩

def secureConfig : Config := ⟨" wss://outside:9618", true, true⟩

/-- A request whose token is accepted, and the stream over its session; one whose token is not, and one without. -/
def threeRequests : List Label :=
  [.request "bearer  good ", .request "Bearer bad", .request "Basic good", .handle 0, .handle 1, .handle 2,
   .verified 1 false, .verified 0 true, .upgraded 0 true, .handOver 0, .accept, .served true, .stream 0, .deliver 0 0]

theorem streams_authenticated_threeRequests :
    ∃ s₀ s, startCarrierListener secureExt secureConfig = .ok s₀ ∧ run step s₀ threeRequests = some s ∧ s.got 0 0 ∧
      s.handlers.map Handler.reply = [none, some "unauthorized", some "missing bearer token"] ∧
      ∃ h y, s.requestOf 0 = some h ∧ s.handlers[h]? = some y ∧ Vouched s h y.header := by
  have hstart : startCarrierListener secureExt secureConfig =
      .ok (.start (.ws "outside:9618" defaultPath true)) := rfl
  obtain ⟨s, hs⟩ : ∃ s, run step (.start (.ws "outside:9618" defaultPath true)) threeRequests = some s :=
    Option.isSome_iff_exists.1 (by decide)
  have hseen : (run step (.start (.ws "outside:9618" defaultPath true)) threeRequests).map
      (fun s => (s.calls[0]?, s.handlers.map Handler.reply)) =
        some (some (.returned (some 0)), [none, some "unauthorized", some "missing bearer token"]) := by decide
  rw [hs, Option.map_some, Option.some.injEq, Prod.mk.injEq] at hseen
  exact ⟨_, s, hstart, hs, hseen.1, hseen.2,
    (streams_authenticated secureExt secureConfig threeRequests _ s hstart rfl hs).2.2.1 0 0 hseen.1⟩

/-- **No stream is lost and none is returned twice**, whatever the carrier and however the goroutines interleave. -/
theorem streams_once (inner : Inner) (ls : List Label) (s : State) (hr : run step (.start inner) ls = some s) :
    Once s :=
  (kept_of_run hr).once

theorem streams_once_threeRequests :
    ∃ s, run step (.start (.ws "outside:9618" defaultPath true)) threeRequests = some s ∧
      s.streams = [⟨0, false⟩] ∧ Once s := by
  obtain ⟨s, hs⟩ : ∃ s, run step (.start (.ws "outside:9618" defaultPath true)) threeRequests = some s :=
    Option.isSome_iff_exists.1 (by decide)
  have hseen : (run step (.start (.ws "outside:9618" defaultPath true)) threeRequests).map State.streams =
      some [⟨0, false⟩] := by decide
  rw [hs, Option.map_some, Option.some.injEq] at hseen
  exact ⟨s, hs, hseen, streams_once _ _ s hs⟩

end CarrierListener
end Ccb
