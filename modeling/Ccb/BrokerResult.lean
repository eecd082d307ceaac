import Ccb.BrokerRoute
/-!
# BrokerResult — whose report a requester is relayed

`handleStandardRequest` relays what it finds in its reply channel, and `deliverResult` puts there any report that names
the request's id, whichever target's connection it arrived on: `forged_report_relayed` is a run in which a target the
request was never sent to decides it.  In every run whose reports name no request sent to another target, what is
relayed is the report of the target the request was forwarded to, on that very request (`relayed_from_target`).
-/
namespace Ccb
namespace Broker

open Machine (run Meets)

/-- The delivery a request relays, or has relayed, to its requester. -/
def ReqPc.relays : ReqPc → Option Delivery
  | .exit (.relayed d) | .returned (.relayed d) => some d
  | _ => none

/-- The delivery is a report of the request's target on the request. -/
def Delivery.Own (d : Delivery) (k : Request) : Prop := d.from_ = k.target ∧ d.reqID = k.id

/-- **What is relayed arrived on the connection of the target the request was forwarded to, under the request's id.** -/
def Authentic (s : State) : Prop :=
  ∀ (q : Nat) k d, s.reqs[q]? = some k → k.pc.relays = some d → d.Own k ∧ (k.target, k.forwardAd) ∈ s.wire

/-- A report that names a pending request arrives from the target that request is for. -/
def ReportsOwn (s : State) : Label → Prop
  | .reg (.read h (some (.report requestID _ _))) =>
    ∀ q ∈ (parseUint requestID).bind (fun reqID => s.requests.lookup reqID), ∀ k ∈ s.reqs[q]?, k.target = h
  | _ => True

instance (s : State) (l : Label) : Decidable (ReportsOwn s l) := by
  unfold ReportsOwn; split <;> infer_instance

/-- A request as its own handler leaves it: what is in its channel and what it relays came from its target on it, it is
past its forward only with the ad on the wire, and before its insert nobody has sent it anything. -/
structure RequestOk (wire : List (Nat × ForwardAd)) (k : Request) : Prop where
  channel : ∀ d, k.replyCh = some d → d.Own k
  relayed : ∀ d, k.pc.relays = some d → d.Own k ∧ (k.target, k.forwardAd) ∈ wire
  waiting : k.pc = .wait → (k.target, k.forwardAd) ∈ wire
  silent  : k.pc = .insert → k.replyCh = none

/-- The request has its id, for good. -/
def Request.Entered (k : Request) (id : UInt64) : Prop := k.id = id ∧ k.pc ≠ .insert

/-- The invariant of the runs whose reports are the targets' own. -/
structure ResultInv (s : State) : Prop where
  request : ∀ (q : Nat) k, s.reqs[q]? = some k → RequestOk s.wire k
  pending : ∀ id q, s.requests.lookup id = some q → ∃ k, s.reqs[q]? = some k ∧ k.Entered id
  deliver : ∀ (h : Nat) k req reqID res, s.handlers[h]? = some k → k.pc = .deliver req reqID res →
    ∃ r, s.reqs[req]? = some r ∧ r.target = h ∧ r.Entered reqID

theorem RequestOk.mono {w w' : List (Nat × ForwardAd)} {k : Request} (hw : ∀ e ∈ w, e ∈ w') (h : RequestOk w k) :
    RequestOk w' k :=
  ⟨h.channel, fun d hd => ⟨(h.relayed d hd).1, hw _ (h.relayed d hd).2⟩, fun hp => hw _ (h.waiting hp), h.silent⟩

/-- A step that leaves requests and their table alone, adds to the wire only, and starts no delivery. -/
theorem ResultInv.frame {s t : State} (hi : ResultInv s) (hq : t.reqs = s.reqs) (hm : t.requests = s.requests)
    (hw : ∀ e ∈ s.wire, e ∈ t.wire)
    (hd : ∀ (h : Nat) k req reqID res, t.handlers[h]? = some k → k.pc = .deliver req reqID res →
      ∃ k', s.handlers[h]? = some k' ∧ k'.pc = .deliver req reqID res) : ResultInv t where
  request q k hk := (hi.request q k (hq ▸ hk)).mono hw
  pending id q h := by rw [hq]; exact hi.pending id q (hm ▸ h)
  deliver h k req reqID res hk hp := by
    obtain ⟨k', hk', hp'⟩ := hd h k req reqID res hk hp
    rw [hq]; exact hi.deliver h k' req reqID res hk' hp'

/-- A handler moved to `pc`: the deliveries after are those before, but for its own. -/
theorem deliver_of_setHandler {s : State} {h : Nat} {pc : RegPc} {n : Nat} {k : Handler} {req : Nat} {reqID : UInt64}
    {res : ReplyResult} (hk : (setHandler s h pc).handlers[n]? = some k) (hp : k.pc = .deliver req reqID res) :
    (∃ k', s.handlers[n]? = some k' ∧ k'.pc = .deliver req reqID res) ∨ (n = h ∧ pc = .deliver req reqID res) := by
  rcases getElem?_modify_some hk with ⟨rfl, k₀, -, rfl⟩ | ⟨-, hk⟩
  · exact Or.inr ⟨rfl, hp⟩
  · exact Or.inl ⟨k, hk, hp⟩

theorem ResultInv.setHandler {s : State} (hi : ResultInv s) (h : Nat) {pc : RegPc}
    (hpc : ∀ req reqID res, pc ≠ .deliver req reqID res) : ResultInv (setHandler s h pc) :=
  hi.frame rfl rfl (fun _ he => he) (fun n k req reqID res hk hp => by
    rcases deliver_of_setHandler hk hp with hk | ⟨-, hk⟩
    · exact hk
    · exact absurd hk (hpc req reqID res))

/-- **One request changes**: the others, the wire they rely on and the deliveries to them stand.  It keeps its target,
and its id once it has one. -/
theorem ResultInv.modify {s t : State} (hi : ResultInv s) (q : Nat) (f : Request → Request)
    (hq : t.reqs = s.reqs.modify q f) (hf : ∀ k, (f k).target = k.target)
    (hid : ∀ k id, s.reqs[q]? = some k → k.Entered id → (f k).Entered id)
    (hok : ∀ k, s.reqs[q]? = some k → RequestOk s.wire k → RequestOk t.wire (f k))
    (hm : ∀ id q', t.requests.lookup id = some q' →
      s.requests.lookup id = some q' ∨ q' = q ∧ ∃ k, s.reqs[q]? = some k ∧ (f k).Entered id)
    (hw : ∀ e ∈ s.wire, e ∈ t.wire) (hh : t.handlers = s.handlers) : ResultInv t := by
  have hget : ∀ (n : Nat) k id, s.reqs[n]? = some k → k.Entered id →
      ∃ k', t.reqs[n]? = some k' ∧ k'.target = k.target ∧ k'.Entered id := by
    intro n k id hk hent
    by_cases he : q = n
    · subst he; exact ⟨f k, by rw [hq]; simp [hk], hf k, hid k id hk hent⟩
    · exact ⟨k, by rw [hq, List.getElem?_modify_ne _ _ he]; exact hk, rfl, hent⟩
  refine ⟨fun n k hk => ?_, fun id n h => ?_, fun h k req reqID res hk hp => ?_⟩
  · rw [hq] at hk
    rcases getElem?_modify_some hk with ⟨rfl, k₀, hk₀, rfl⟩ | ⟨-, hk⟩
    · exact hok k₀ hk₀ (hi.request q k₀ hk₀)
    · exact (hi.request n k hk).mono hw
  · rcases hm id n h with h | ⟨rfl, k, hk⟩
    · obtain ⟨k, hk, hent⟩ := hi.pending id n h
      obtain ⟨k', hk', -, hent'⟩ := hget n k id hk hent
      exact ⟨k', hk', hent'⟩
    · exact ⟨f k, by rw [hq]; simp [hk.1], hk.2⟩
  · rw [hh] at hk
    obtain ⟨r, hr, ht, hent⟩ := hi.deliver h k req reqID res hk hp
    obtain ⟨r', hr', ht', hent'⟩ := hget req r reqID hr hent
    exact ⟨r', hr', ht'.trans ht, hent'⟩

/-- A request that relays nothing and does not wait owes only what is in its channel. -/
theorem RequestOk.of_channel {w : List (Nat × ForwardAd)} {k : Request} (hc : ∀ d, k.replyCh = some d → d.Own k)
    (hr : k.pc.relays = none) (hw : k.pc ≠ .wait) (hs : k.pc = .insert → k.replyCh = none) : RequestOk w k :=
  ⟨hc, fun d hd => (by rw [hr] at hd; cases hd), fun hp => absurd hp hw, hs⟩

/-- A request moved to `pc` with its channel as it was. -/
theorem ResultInv.setReq {s : State} (hi : ResultInv s) (q : Nat) {pc : ReqPc} (hr : pc.relays = none)
    (hw : pc ≠ .wait) (hn : pc ≠ .insert) : ResultInv (setReq s q pc) :=
  hi.modify q _ rfl (fun _ => rfl) (fun _ _ _ hent => ⟨hent.1, hn⟩)
    (fun _ _ ok => .of_channel ok.channel hr hw (fun h => absurd h hn)) (fun _ _ h => Or.inl h) (fun _ he => he) rfl

theorem ResultInv.register {s : State} (hi : ResultInv s) (x : Ext) (cfg : Config) (r : RegisterInput) :
    ResultInv (handleRegister x cfg s r) := by
  rcases handleRegister_cases x cfg s r with ⟨heq, -⟩ | ⟨ad, tgt, reused, nextID, -, heq, -⟩ <;> rw [heq]
  · exact hi
  · refine hi.frame rfl rfl (fun e he => he) (fun h k req reqID res hk hp => ?_)
    rcases getElem?_concat_some hk with hk | ⟨-, rfl⟩
    · exact ⟨k, hk, hp⟩
    · -- the new handler stands at its store call
      cases hp

theorem ResultInv.reported {s : State} (hi : ResultInv s) {h req : Nat} {requestID : String} {reqID : UInt64}
    {result : Bool} {errorString : String}
    (hg : ReportsOwn s (.reg (.read h (some (.report requestID result errorString)))))
    (hid : parseUint requestID = some reqID) (hreq : s.requests.lookup reqID = some req) :
    ResultInv (Broker.setHandler s h (.deliver req reqID ⟨result, errorString⟩)) := by
  obtain ⟨k, hk, hent⟩ := hi.pending reqID req hreq
  have ht : k.target = h := hg req (by rw [hid]; exact hreq) k hk
  refine ⟨hi.request, hi.pending, fun n k' req' reqID' res hk' hpc => ?_⟩
  rcases deliver_of_setHandler hk' hpc with ⟨k'', hk'', hp''⟩ | ⟨rfl, hpc⟩
  · exact hi.deliver n k'' req' reqID' res hk'' hp''
  · cases hpc; exact ⟨k, hk, ht, hent⟩

theorem ResultInv.sendReply {s : State} (hi : ResultInv s) (h req : Nat) (reqID : UInt64) (res : ReplyResult)
    (k : Handler) (hk : s.handlers[h]? = some k) (hp : k.pc = .deliver req reqID res) :
    ResultInv (sendReply s req ⟨res, reqID, h⟩) := by
  obtain ⟨r, hr, ht, hent⟩ := hi.deliver h k req reqID res hk hp
  refine hi.modify req _ rfl (fun _ => rfl) (fun _ _ _ hent => hent) (fun k' hk' ok => ?_) (fun _ _ h => Or.inl h)
    (fun _ he => he) rfl
  rw [hr] at hk'
  cases hk'
  refine ⟨fun d hd => ?_, ok.relayed, ok.waiting, fun hins => absurd hins hent.2⟩
  cases hc : r.replyCh with
  | none =>
    simp only [hc, Option.none_or, Option.some.injEq] at hd
    rw [← hd]; exact ⟨ht.symm, hent.1.symm⟩
  | some d' =>
    simp only [hc, Option.some_or, Option.some.injEq] at hd
    exact hd ▸ ok.channel d' hc

theorem ResultInv.stepReg {x : Ext} {cfg : Config} {s t : State} {l : RegLabel} (hi : ResultInv s)
    (hg : ReportsOwn s (.reg l)) (hs : stepReg x cfg s l = some t) : ResultInv t := by
  -- `removeTarget` changes the tables of the registrations only.
  have htables : ∀ (tg : GoMap UInt64 Nat) (rc : GoMap UInt64 ReconnectRecord),
      ResultInv { s with targets := tg, reconnects := rc } := fun _ _ => ⟨hi.request, hi.pending, hi.deliver⟩
  cases stepReg_cases hs with
  | register r => exact hi.register x cfg r
  | ignored => exact hi
  | reported hk hid hreq => exact hi.reported hg hid hreq
  | deliver hk => exact (hi.sendReply _ _ _ _ _ hk rfl).setHandler _ (fun _ _ _ h => by cases h)
  | removed => exact (htables _ _).setHandler _ (fun _ _ _ h => by cases h)
  | unrecorded => exact (htables _ s.reconnects).setHandler _ (fun _ _ _ h => by cases h)
  | put | accepted | unheard | ended | putRemoved => exact hi.setHandler _ (fun _ _ _ h => by cases h)
  | sweep | sweepDelete => exact ⟨hi.request, hi.pending, hi.deliver⟩

theorem ResultInv.append {s : State} (hi : ResultInv s) (r : RequestInput) (h : Nat) :
    ResultInv { s with reqs := s.reqs ++ [newRequest r h] } := by
  refine ⟨fun q k hk => ?_, fun id q hl => ?_, fun n k req reqID res hk hp => ?_⟩
  · rcases getElem?_concat_some hk with hk | ⟨-, rfl⟩
    · exact hi.request q k hk
    · exact .of_channel (fun d hd => by cases hd) rfl (fun h => by cases h) (fun _ => rfl)
  · obtain ⟨k, hk, hent⟩ := hi.pending id q hl
    exact ⟨k, getElem?_concat_left hk, hent⟩
  · obtain ⟨r', hr', ht⟩ := hi.deliver n k req reqID res hk hp
    exact ⟨r', getElem?_concat_left hr', ht⟩

/-- `handleStandardRequest` enters its request under the next id. -/
theorem ResultInv.insertRequest {s : State} {q : Nat} {k : Request} (hi : ResultInv s) (hk : s.reqs[q]? = some k)
    (hpc : k.pc = .insert) : ResultInv (insertRequest s q) := by
  refine hi.modify q _ rfl (fun _ => rfl) (fun k' id hk' hent => ?_) (fun k' hk' ok => ?_) (fun id q' hl => ?_)
    (fun _ he => he) rfl
  · rw [hk] at hk'
    cases hk'
    exact absurd hpc hent.2
  · rw [hk] at hk'
    cases hk'
    refine .of_channel (fun d hd => ?_) rfl (fun h => by cases h) (fun h => by cases h)
    have hnone := ok.silent hpc
    rw [show k.replyCh = some d from hd] at hnone
    cases hnone
  by_cases he : id = s.nextReq + 1
  · subst he
    simp only [Broker.insertRequest, AList.lookup_insert, Option.some.injEq] at hl
    exact Or.inr ⟨hl.symm, k, hk, rfl, fun h => by cases h⟩
  · simp only [Broker.insertRequest, AList.lookup_insert_ne he] at hl
    exact Or.inl hl

/-- The request is forwarded: it waits with its ad on the wire. -/
theorem ResultInv.forward {s : State} {q : Nat} {k : Request} (hi : ResultInv s) (hk : s.reqs[q]? = some k) :
    ResultInv { Broker.setReq s q .wait with wire := s.wire ++ [(k.target, k.forwardAd)] } := by
  refine hi.modify q (fun k => { k with pc := .wait }) rfl (fun _ => rfl)
    (fun _ _ _ hent => ⟨hent.1, fun h => by cases h⟩)
    (fun k' hk' ok => ?_) (fun _ _ h => Or.inl h) (fun e he => List.mem_append_left _ he) rfl
  rw [hk] at hk'
  cases hk'
  exact ⟨ok.channel, (fun d hd => by cases hd), fun _ => List.mem_append_right _ (List.mem_singleton.2 rfl),
    fun h => by cases h⟩

/-- What is relayed was in the channel, of a request that waited. -/
theorem ResultInv.receive {s : State} {q : Nat} {k : Request} {d : Delivery} (hi : ResultInv s)
    (hk : s.reqs[q]? = some k) (hpc : k.pc = .wait) (hch : k.replyCh = some d) :
    ResultInv { s with reqs := s.reqs.modify q (fun k => { k with replyCh := none, pc := .exit (.relayed d) }) } := by
  refine hi.modify q _ rfl (fun _ => rfl) (fun _ _ _ hent => ⟨hent.1, fun h => by cases h⟩) (fun k' hk' ok => ?_)
    (fun _ _ h => Or.inl h) (fun _ he => he) rfl
  rw [hk] at hk'
  cases hk'
  refine ⟨(fun d' hd' => by cases hd'), fun d' hd' => ?_, (fun h => by cases h), fun h => by cases h⟩
  simp only [ReqPc.relays, Option.some.injEq] at hd'
  exact hd' ▸ ⟨ok.channel d hch, ok.waiting hpc⟩

/-- The handler's return leaves what it relayed. -/
theorem ResultInv.delete {s : State} {q : Nat} {k : Request} {r : Reply} (hi : ResultInv s) (hk : s.reqs[q]? = some k)
    (hpc : k.pc = .exit r) :
    ResultInv { Broker.setReq s q (.returned r) with requests := s.requests.erase k.id } := by
  refine hi.modify q (fun k => { k with pc := .returned r }) rfl (fun _ => rfl)
    (fun _ _ _ hent => ⟨hent.1, fun h => by cases h⟩) (fun k' hk' ok => ?_) (fun id q' hl => ?_) (fun _ he => he) rfl
  · rw [hk] at hk'
    cases hk'
    have hrel : (ReqPc.returned r).relays = k.pc.relays := by
      rw [hpc]
      cases r <;> rfl
    exact ⟨ok.channel, fun d hd => ok.relayed d (hrel ▸ hd), (fun h => by cases h), fun h => by cases h⟩
  · by_cases he : id = k.id
    · subst he
      simp at hl
    · simp only [AList.lookup_erase_ne he] at hl
      exact Or.inl hl

theorem ResultInv.stepReq {x : Ext} {cfg : Config} {s t : State} {l : ReqLabel} (hi : ResultInv s)
    (hs : stepReq x cfg s l = some t) : ResultInv t := by
  cases stepReq_cases hs with
  | refused => exact hi
  | standard => exact hi.append _ _
  | proxied => exact ⟨hi.request, hi.pending, hi.deliver⟩
  | inserted hk hpc => exact hi.insertRequest hk hpc
  | forwarded hk => exact hi.forward hk
  | received hk hpc hch => exact hi.receive hk hpc hch
  | unforwarded | timedOut | cancelled => exact hi.setReq _ rfl (fun h => by cases h) (fun h => by cases h)
  | deleted hk hpc => exact hi.delete hk hpc

/-- A proxy step leaves the standard requests alone and only adds to the wire. -/
theorem ResultInv.stepProxy {cfg : Config} {s t : State} {l : ProxyLabel} (hi : ResultInv s)
    (hs : stepProxy cfg s l = some t) : ResultInv t := by
  have hfr : t.reqs = s.reqs ∧ t.requests = s.requests ∧ (∀ e ∈ s.wire, e ∈ t.wire) ∧ t.handlers = s.handlers := by
    cases l with
    | start k =>
      simp only [Broker.stepProxy] at hs
      (repeat' split at hs) <;> cases hs
      unfold startRelay
      dsimp only
      split <;> exact ⟨rfl, rfl, fun _ he => he, rfl⟩
    | _ =>
      simp only [Broker.stepProxy] at hs
      (repeat' split at hs) <;> cases hs <;>
        first
          | exact ⟨rfl, rfl, fun _ he => he, rfl⟩
          | exact ⟨rfl, rfl, fun _ he => List.mem_append_left _ he, rfl⟩
  exact hi.frame hfr.1 hfr.2.1 hfr.2.2.1 (fun h k req reqID res hk hp => ⟨k, hfr.2.2.2 ▸ hk, hp⟩)

theorem ResultInv.init : ResultInv State.init :=
  ⟨fun _ _ h => by simp [State.init] at h, fun _ _ h => by simp [State.init] at h,
    fun _ _ _ _ _ h => by simp [State.init] at h⟩

/-- **In every run whose reports name only requests of the target they come from, a requester is relayed only reports
of the target its request was forwarded to, under the request's own id.** -/
theorem relayed_from_target (x : Ext) (cfg : Config) (ls : List Label) (s : State)
    (hm : Meets (step x cfg) ReportsOwn State.init ls) (hr : run (step x cfg) State.init ls = some s) :
    Authentic s := by
  have hi : ResultInv s := by
    refine Machine.inv_of_meets (I := ResultInv) (fun s a t hi hg hs => ?_) ls State.init s ResultInv.init hm hr
    cases a with
    | reg l => exact hi.stepReg hg hs
    | req l => exact hi.stepReq hs
    | proxy l => exact hi.stepProxy hs
  exact fun q k d hk hd => (hi.request q k hk).relayed d hd

/-! ## Reports on a request sent to another target -/

/-- Two targets register as CCBIDs 1 and 2, and a requester asks for CCBID 1: request 1 goes to the first target. -/
def twoTargets : List Label :=
  [.reg (.register ⟨"10.0.0.7:4000", "condor@pool", some ⟨"startd", "", ""⟩, some "c1", 10⟩), .reg (.put 0),
   .reg (.replied 0 true),
   .reg (.register ⟨"10.0.0.8:4000", "condor@pool", some ⟨"rogue", "", ""⟩, some "c2", 11⟩), .reg (.put 1),
   .reg (.replied 1 true),
   .req (.request ⟨"10.0.0.9:5000", "alice@pool", "1", "secret", "<10.0.0.9:5001>", "tool", false, ""⟩),
   .req (.insert 0), .req (.forward 0 true)]

/-- The target on connection `h` reports success for request 1, and the requester is answered. -/
def reportFrom (h : Nat) : List Label :=
  [.reg (.read h (some (.report "1" true ""))), .reg (.deliver h), .req (.receive 0), .req (.delete 0)]

/-- **A target the request was never sent to decides it.** -/
theorem forged_report_relayed :
    ∃ s, run (step splitExt plainConfig) State.init (twoTargets ++ reportFrom 1) = some s ∧
      (s.reqs[0]?).bind (fun k => k.pc.relays) = some ⟨⟨true, ""⟩, 1, 1⟩ ∧
      s.wire.map Prod.fst = [0] ∧ ¬ Authentic s := by
  obtain ⟨s, hs⟩ : ∃ s, run (step splitExt plainConfig) State.init (twoTargets ++ reportFrom 1) = some s := ⟨_, rfl⟩
  have hreq : (run (step splitExt plainConfig) State.init (twoTargets ++ reportFrom 1)).bind (fun s => s.reqs[0]?) =
      some ⟨0, "secret", "<10.0.0.9:5001>", "tool", 1, none, .returned (.relayed ⟨⟨true, ""⟩, 1, 1⟩)⟩ := by decide
  have hwire : (run (step splitExt plainConfig) State.init (twoTargets ++ reportFrom 1)).map
      (fun s => s.wire.map Prod.fst) = some [0] := by decide
  simp only [hs, Option.bind_some, Option.map_some, Option.some.injEq] at hreq hwire
  refine ⟨s, hs, by rw [hreq]; rfl, hwire, fun ha => ?_⟩
  have := (ha 0 _ _ hreq rfl).1.1
  cases this

/-- The same requester answered by the target it asked for. -/
theorem relayed_from_target_own :
    ∃ s, run (step splitExt plainConfig) State.init (twoTargets ++ reportFrom 0) = some s ∧
      (s.reqs[0]?).bind (fun k => k.pc.relays) = some ⟨⟨true, ""⟩, 1, 0⟩ ∧ Authentic s := by
  obtain ⟨s, hs⟩ : ∃ s, run (step splitExt plainConfig) State.init (twoTargets ++ reportFrom 0) = some s := ⟨_, rfl⟩
  have hreq : (run (step splitExt plainConfig) State.init (twoTargets ++ reportFrom 0)).bind
      (fun s => (s.reqs[0]?).bind (fun k => k.pc.relays)) = some ⟨⟨true, ""⟩, 1, 0⟩ := by decide
  rw [hs, Option.bind_some] at hreq
  exact ⟨s, hs, hreq, relayed_from_target splitExt plainConfig _ s (by decide) hs⟩

end Broker
end Ccb
