import Ccb.BrokerProxyInv
import Ccb.BrokerWire
/-!
# BrokerTables — whose the entries of the server's maps are

Every entry of `s.targets`, `s.requests` and `s.proxies` is that of a handler which has yet to delete it, so no entry
outlives the goroutine it belongs to; and a handler between its insert and its delete is found under its RequestID or
its connect id (`tables_exact`).  A registration need not be found: a newer one under its CCBID may have taken its
place.

A report therefore reaches the request its RequestID was drawn for, and targets that report on nothing but what they
were sent decide their own requests only, each by a report on that request (`honest_targets_suffice`).
-/
namespace Ccb
namespace Broker

open Machine (run Meets)

/-- The handler is between its insert and its `removeTarget`. -/
def RegPc.listed : RegPc → Bool
  | .put _ | .reply | .serve | .deliver _ _ _ | .remove => true
  | .restamp _ | .returned => false

/-- The handler is between its insert and its deferred delete. -/
def ReqPc.listed : ReqPc → Bool
  | .forward | .wait | .exit _ => true
  | .insert | .returned _ => false

/-- Every entry is that of a handler which has yet to delete it. -/
structure Owners (s : State) : Prop where
  target  : ∀ id h, s.targets.lookup id = some h → ∃ k, s.handlers[h]? = some k ∧ k.target.id = id ∧ k.pc.listed = true
  request : ∀ id q, s.requests.lookup id = some q → ∃ k, s.reqs[q]? = some k ∧ k.id = id ∧ k.pc.listed = true

section
variable {x : Ext} {cfg : Config} {s t : State} {l : Label}

theorem Owners.congr (h : Owners s) (ht : t.targets = s.targets) (hh : t.handlers = s.handlers)
    (hm : t.requests = s.requests) (hq : t.reqs = s.reqs) : Owners t := by
  refine ⟨fun id n hn => ?_, fun id q hl => ?_⟩
  · rw [hh]; exact h.target id n (ht ▸ hn)
  · rw [hq]; exact h.request id q (hm ▸ hl)

/-- A handler moves on and stays listed. -/
theorem Owners.setHandler (h : Owners s) {n : Nat} {k : Handler} {pc : RegPc} (hk : s.handlers[n]? = some k)
    (hpc : k.pc.listed = true → pc.listed = true) : Owners (setHandler s n pc) := by
  refine ⟨fun id n' hn => ?_, h.request⟩
  obtain ⟨k', hk', hid, hl⟩ := h.target id n' hn
  by_cases he : n = n'
  · subst he
    rw [hk] at hk'
    cases hk'
    exact ⟨{ k with pc := pc }, by simp [Broker.setHandler, hk], hid, hpc hl⟩
  · exact ⟨k', by simp only [Broker.setHandler]; rw [List.getElem?_modify_ne _ _ he]; exact hk', hid, hl⟩

/-- `removeTarget`: the entry goes before the handler does. -/
theorem Owners.remove (h : Owners s) {n : Nat} {k : Handler} {pc : RegPc} (hk : s.handlers[n]? = some k)
    (ht : t.targets = s.targets.erase k.target.id)
    (hh : t.handlers = s.handlers.modify n (fun k => { k with pc := pc }))
    (hm : t.requests = s.requests) (hq : t.reqs = s.reqs) : Owners t := by
  refine ⟨fun id n' hn => ?_, fun id q hl => ?_⟩
  · rw [ht] at hn
    have hne : id ≠ k.target.id := by
      rintro rfl
      simp at hn
    rw [AList.lookup_erase_ne hne] at hn
    obtain ⟨k', hk', hid, hl⟩ := h.target id n' hn
    have he : n ≠ n' := by
      rintro rfl
      rw [hk] at hk'
      cases hk'
      exact hne hid.symm
    exact ⟨k', by rw [hh, List.getElem?_modify_ne _ _ he]; exact hk', hid, hl⟩
  · rw [hq]; exact h.request id q (hm ▸ hl)

theorem Owners.register (h : Owners s) (r : RegisterInput) : Owners (handleRegister x cfg s r) := by
  rcases handleRegister_cases x cfg s r with ⟨heq, -⟩ | ⟨ad, tgt, reused, nextID, -, heq, -⟩ <;> rw [heq]
  · exact h
  · refine ⟨fun id n hn => ?_, h.request⟩
    by_cases he : id = tgt.id
    · subst he
      simp only [insertTarget, AList.lookup_insert, Option.some.injEq] at hn
      subst hn
      exact ⟨⟨tgt, reused, .put ⟨tgt.id, tgt.cookie, x.peerIPString r.remoteAddr, tgt.name, r.now⟩⟩,
        by simp [insertTarget], rfl, rfl⟩
    · simp only [insertTarget, AList.lookup_insert_ne he] at hn
      obtain ⟨k, hk, hid, hl⟩ := h.target id n hn
      exact ⟨k, getElem?_concat_left hk, hid, hl⟩

/-- A request moves on and stays listed. -/
theorem Owners.modifyReq (h : Owners s) {q : Nat} {f : Request → Request} (ht : t.targets = s.targets)
    (hh : t.handlers = s.handlers) (hm : t.requests = s.requests) (hq : t.reqs = s.reqs.modify q f)
    (hf : ∀ k, (f k).id = k.id) (hpc : ∀ k, s.reqs[q]? = some k → k.pc.listed = true → (f k).pc.listed = true) :
    Owners t := by
  refine ⟨fun id n hn => ?_, fun id q' hl => ?_⟩
  · rw [hh]; exact h.target id n (ht ▸ hn)
  · obtain ⟨k, hk, hid, hlist⟩ := h.request id q' (hm ▸ hl)
    by_cases he : q = q'
    · subst he
      exact ⟨f k, by rw [hq]; simp [hk], (hf k).trans hid, hpc k hk hlist⟩
    · exact ⟨k, by rw [hq, List.getElem?_modify_ne _ _ he]; exact hk, hid, hlist⟩

theorem Owners.insertRequest (h : Owners s) {q : Nat} {k : Request} (hk : s.reqs[q]? = some k) (hp : k.pc = .insert) :
    Owners (insertRequest s q) := by
  refine ⟨h.target, fun id q' hl => ?_⟩
  by_cases he : id = s.nextReq + 1
  · subst he
    simp only [Broker.insertRequest, AList.lookup_insert, Option.some.injEq] at hl
    subst hl
    exact ⟨{ k with id := s.nextReq + 1, pc := .forward }, by simp [Broker.insertRequest, hk], rfl, rfl⟩
  · simp only [Broker.insertRequest, AList.lookup_insert_ne he] at hl
    obtain ⟨k', hk', hid, hlist⟩ := h.request id q' hl
    have hne : q ≠ q' := by
      rintro rfl
      rw [hk] at hk'
      cases hk'
      rw [hp] at hlist
      cases hlist
    exact ⟨k', by simp only [Broker.insertRequest]; rw [List.getElem?_modify_ne _ _ hne]; exact hk', hid, hlist⟩

theorem Owners.deleteRequest (h : Owners s) {q : Nat} {k : Request} {r : Reply} (hk : s.reqs[q]? = some k) :
    Owners { setReq s q (.returned r) with requests := s.requests.erase k.id } := by
  refine ⟨h.target, fun id q' hl => ?_⟩
  have hne : id ≠ k.id := by
    rintro rfl
    simp at hl
  simp only [AList.lookup_erase_ne hne] at hl
  obtain ⟨k', hk', hid, hlist⟩ := h.request id q' hl
  have he : q ≠ q' := by
    rintro rfl
    rw [hk] at hk'
    cases hk'
    exact hne hid.symm
  exact ⟨k', by simp only [setReq]; rw [List.getElem?_modify_ne _ _ he]; exact hk', hid, hlist⟩

theorem Owners.stepReg {l : RegLabel} (h : Owners s) (hs : stepReg x cfg s l = some t) : Owners t := by
  cases stepReg_cases hs with
  | register r => exact h.register r
  | put hk | accepted hk | unheard hk | reported hk | ended hk => exact h.setHandler hk (fun _ => rfl)
  | ignored => exact h
  | @deliver n _ _ req reqID res hk =>
    have hsend : Owners (sendReply s req ⟨res, reqID, n⟩) :=
      h.modifyReq rfl rfl rfl rfl (fun _ => rfl) (fun _ _ hl => hl)
    exact hsend.setHandler (k := ⟨_, _, _⟩) hk (fun _ => rfl)
  | removed hk => exact h.remove hk rfl rfl rfl rfl
  | unrecorded hk => exact h.remove hk rfl rfl rfl rfl
  | putRemoved hk => exact h.setHandler hk (fun hl => by cases hl)
  | sweep => exact h.congr rfl rfl rfl rfl
  | sweepDelete => exact h.congr rfl rfl rfl rfl

theorem Owners.stepReq {l : ReqLabel} (h : Owners s) (hs : stepReq x cfg s l = some t) : Owners t := by
  cases stepReq_cases hs with
  | refused => exact h
  | standard =>
    refine ⟨h.target, fun id q hl => ?_⟩
    obtain ⟨k, hk, hid, hlist⟩ := h.request id q hl
    exact ⟨k, getElem?_concat_left hk, hid, hlist⟩
  | proxied => exact h.congr rfl rfl rfl rfl
  | inserted hk hp => exact h.insertRequest hk hp
  | forwarded | unforwarded | timedOut | cancelled =>
    exact h.modifyReq rfl rfl rfl rfl (fun _ => rfl) (fun _ _ _ => rfl)
  | received => exact h.modifyReq rfl rfl rfl rfl (fun _ => rfl) (fun _ _ _ => rfl)
  | deleted hk => exact h.deleteRequest hk

/-- A proxy step leaves the standard requests alone. -/
theorem requests_of_proxy {l : ProxyLabel} (hs : stepProxy cfg s l = some t) :
    t.requests = s.requests ∧ t.reqs = s.reqs := by
  cases l with
  | start k =>
    simp only [stepProxy] at hs
    (repeat' split at hs) <;> cases hs
    unfold startRelay
    dsimp only
    split <;> exact ⟨rfl, rfl⟩
  | _ =>
    simp only [stepProxy] at hs
    (repeat' split at hs) <;> cases hs <;> exact ⟨rfl, rfl⟩

theorem Owners.step (h : Owners s) (hs : step x cfg s l = some t) : Owners t := by
  cases l with
  | reg l => exact h.stepReg hs
  | req l => exact h.stepReq hs
  | proxy l =>
    obtain ⟨-, ht, -, hh, -⟩ := tables_of_not_reg hs (fun r hr => by cases hr)
    obtain ⟨hm, hq⟩ := requests_of_proxy hs
    exact h.congr ht hh hm hq

theorem owners_of_run {ls : List Label} (hr : run (Broker.step x cfg) .init ls = some s) : Owners s := by
  refine Machine.inv_of_step (I := Owners) (fun _ _ _ h hs => h.step hs) ls .init s ⟨?_, ?_⟩ hr <;>
    exact fun id n h => by simp [State.init] at h

/-! ## The other way round -/

/-- A request between its insert and its delete is found under its RequestID. -/
def Found (s : State) : Prop :=
  ∀ (q : Nat) k, s.reqs[q]? = some k → k.pc.listed = true → s.requests.lookup k.id = some q

theorem Found.modify (h : Found s) {q : Nat} {f : Request → Request} (hm : t.requests = s.requests)
    (hq : t.reqs = s.reqs.modify q f) (hf : ∀ k, (f k).id = k.id)
    (hpc : ∀ k, s.reqs[q]? = some k → (f k).pc.listed = true → k.pc.listed = true) : Found t := by
  intro q' k hk hl
  rw [hq] at hk
  rw [hm]
  rcases getElem?_modify_some hk with ⟨rfl, k₀, hk₀, rfl⟩ | ⟨-, hk⟩
  · rw [hf]
    exact h q k₀ hk₀ (hpc k₀ hk₀ hl)
  · exact h q' k hk hl

theorem job_of_request {q : Nat} {k : Request} (hk : s.reqs[q]? = some k) : s.job cfg (.inl q) = some k.job := by
  simp [State.job, hk]

/-- A request that is listed has drawn its RequestID. -/
theorem Request.drawn {k : Request} (hl : k.pc.listed = true) : k.job.phase ≠ .before := by
  intro hp
  simp only [Request.job] at hp
  cases hpc : k.pc <;> rw [hpc] at hl hp <;> cases hl <;> cases hp

/-- What the numbering says of a request that is listed. -/
theorem Numbered.of_listed (hn : Numbered cfg s) {q : Nat} {k : Request} (hk : s.reqs[q]? = some k)
    (hl : k.pc.listed = true) : k.id.toNat ≤ s.nextReq.toNat ∧
      ∀ (q' : Nat) k', s.reqs[q']? = some k' → k'.pc.listed = true → k'.id = k.id → q' = q := by
  refine ⟨hn.le _ _ (job_of_request hk) (Request.drawn hl), fun q' k' hk' hl' hid => ?_⟩
  have hkey := hn.inj _ _ _ _ (job_of_request hk') (job_of_request hk) (Request.drawn hl') (Request.drawn hl) hid
  exact Sum.inl.inj hkey

theorem Found.insertRequest (h : Found s) (hn : Numbered cfg s) (hlt : s.nextReq.toNat + 1 < UInt64.size) (q : Nat) :
    Found (insertRequest s q) := by
  intro q' k hk hl
  simp only [Broker.insertRequest] at hk ⊢
  rcases getElem?_modify_some hk with ⟨rfl, k₀, hk₀, rfl⟩ | ⟨-, hk⟩
  · exact AList.lookup_insert _
  · have hne : k.id ≠ s.nextReq + 1 := by
      intro heq
      have hle := (hn.of_listed hk hl).1
      have hsucc : (s.nextReq + 1).toNat = s.nextReq.toNat + 1 := by
        rw [UInt64.toNat_add]
        exact Nat.mod_eq_of_lt hlt
      rw [heq, hsucc] at hle
      omega
    rw [AList.lookup_insert_ne hne]
    exact h q' k hk hl

theorem Found.deleteRequest (h : Found s) (hn : Numbered cfg s) {q : Nat} {k : Request} {r : Reply}
    (hk : s.reqs[q]? = some k) (hp : k.pc = .exit r) :
    Found { setReq s q (.returned r) with requests := s.requests.erase k.id } := by
  intro q' k' hk' hl
  simp only [setReq] at hk' ⊢
  rcases getElem?_modify_some hk' with ⟨rfl, k₀, hk₀, rfl⟩ | ⟨hne, hk'⟩
  · cases hl
  · have hid : k'.id ≠ k.id := fun heq => hne ((hn.of_listed hk (by rw [hp]; rfl)).2 q' k' hk' hl heq).symm
    rw [AList.lookup_erase_ne hid]
    exact h q' k' hk' hl

theorem Found.stepReq {l : ReqLabel} (h : Found s) (hn : Numbered cfg s) (hlt : s.nextReq.toNat + 1 < UInt64.size)
    (hs : stepReq x cfg s l = some t) : Found t := by
  -- A request that moves on had been listed before.
  have hmove : ∀ {q : Nat} {k : Request} {f : Request → Request} {t : State}, s.reqs[q]? = some k → k.pc.listed = true →
      t.requests = s.requests → t.reqs = s.reqs.modify q f → (∀ k, (f k).id = k.id) → Found t := by
    intro q k f t hk hl hm hq hf
    refine h.modify hm hq hf fun k' hk' _ => ?_
    rw [hk] at hk'
    cases hk'
    exact hl
  cases stepReq_cases hs with
  | refused => exact h
  | proxied => exact h
  | standard =>
    intro q k hk hl
    rcases getElem?_concat_some hk with hk | ⟨-, rfl⟩
    · exact h q k hk hl
    · cases hl
  | inserted => exact h.insertRequest hn hlt _
  | forwarded hk hp => exact hmove hk (by rw [hp]; rfl) rfl rfl (fun _ => rfl)
  | unforwarded hk hp => exact hmove hk (by rw [hp]; rfl) rfl rfl (fun _ => rfl)
  | received hk hp => exact hmove hk (by rw [hp]; rfl) rfl rfl (fun _ => rfl)
  | timedOut hk hp => exact hmove hk (by rw [hp]; rfl) rfl rfl (fun _ => rfl)
  | cancelled hk hp => exact hmove hk (by rw [hp]; rfl) rfl rfl (fun _ => rfl)
  | deleted hk hp => exact h.deleteRequest hn hk hp

theorem Found.stepReg {l : RegLabel} (h : Found s) (hs : stepReg x cfg s l = some t) : Found t := by
  cases stepReg_cases hs with
  | register r =>
    rcases handleRegister_cases x cfg s r with ⟨heq, -⟩ | ⟨ad, tgt, reused, nextID, -, heq, -⟩ <;> rw [heq] <;> exact h
  | @deliver n _ _ req reqID res =>
    exact h.modify (f := fun q => { q with replyCh := q.replyCh.or (some ⟨res, reqID, n⟩) }) rfl rfl (fun _ => rfl)
      (fun _ _ hl => hl)
  | _ => exact h

theorem found_of_run {ls : List Label} (hr : run (Broker.step x cfg) .init ls = some s)
    (hlen : ls.length < UInt64.size) :
    Found s := by
  have h := Machine.run_history (P := fun ls s => ls.length < UInt64.size → Found s) ?_ ?_ hr
  · exact h hlen
  · intro _ q k hk
    simp [State.init] at hk
  · intro as t a u hr h hs hlen
    rw [List.length_append, List.length_singleton] at hlen
    have hf := h (by omega)
    cases a with
    | reg l => exact hf.stepReg hs
    | req l => exact hf.stepReq (numbered_of_run hr (by omega)) (by have := nextReq_of_run hr; omega) hs
    | proxy l =>
      obtain ⟨hm, hq⟩ := requests_of_proxy hs
      intro q k hk hl
      rw [hm]
      exact hf q k (hq ▸ hk) hl

/-- **No entry of the server's maps outlives the goroutine it belongs to**, and a session, or a request until the
counter has gone round, is found for as long as its handler has not deleted it. -/
theorem tables_exact (x : Ext) (cfg : Config) (ls : List Label) (s : State)
    (hr : run (Broker.step x cfg) .init ls = some s) :
    (∀ id h, s.targets.lookup id = some h → ∃ k, s.handlers[h]? = some k ∧ k.target.id = id ∧ k.pc.listed = true) ∧
      (∀ id q, s.requests.lookup id = some q → ∃ k, s.reqs[q]? = some k ∧ k.id = id ∧ k.pc.listed = true) ∧
      (∀ id k, s.proxies.lookup id = some k ↔
        ∃ r, s.relays[k]? = some r ∧ r.connectID = id ∧ r.pc.pending = true) ∧
      (ls.length < UInt64.size → ∀ q k, s.reqs[q]? = some k → k.pc.listed = true → s.requests.lookup k.id = some q) :=
  ⟨(owners_of_run hr).target, (owners_of_run hr).request, (proxyInv_of_run hr).table, found_of_run hr⟩

theorem tables_exact_answered :
    ∃ s, run (Broker.step splitExt plainConfig) .init (twoTargets ++ reportFrom 0) = some s ∧
      ∀ id, s.requests.lookup id = none := by
  obtain ⟨s, hs⟩ : ∃ s, run (Broker.step splitExt plainConfig) .init (twoTargets ++ reportFrom 0) = some s := ⟨_, rfl⟩
  have hreqs : (run (Broker.step splitExt plainConfig) .init (twoTargets ++ reportFrom 0)).map
      (fun s => s.reqs.map (fun k => k.pc.listed)) = some [false] := by decide
  rw [hs, Option.map_some, Option.some.injEq] at hreqs
  refine ⟨s, hs, fun id => ?_⟩
  cases hl : s.requests.lookup id with
  | none => rfl
  | some q =>
    obtain ⟨k, hk, -, hlist⟩ := (tables_exact splitExt plainConfig _ s hs).2.1 id q hl
    have hmem := List.mem_map_of_mem (f := fun k : Request => k.pc.listed) (List.mem_of_getElem? hk)
    rw [hreqs, List.mem_singleton, hlist] at hmem
    cases hmem

/-! ## Honest targets -/

/-- The report a step reads: on which connection, and about which RequestID. -/
def Label.reports : Label → Option (Nat × String)
  | .reg (.read h (some (.report requestID _ _))) => some (h, requestID)
  | _ => none

/-- A report names a RequestID that was sent on the connection it arrives on. -/
def Echoes (s : State) (l : Label) : Prop :=
  ∀ r ∈ l.reports, ∃ e ∈ s.wire, e.1 = r.1 ∧ e.2.requestID = r.2

instance (s : State) (l : Label) : Decidable (Echoes s l) :=
  inferInstanceAs (Decidable (∀ r ∈ l.reports, ∃ e ∈ s.wire, e.1 = r.1 ∧ e.2.requestID = r.2))

/-- **A RequestID that was sent to a target leads to no request but one of its own.** -/
theorem reportsOwn_of_echoes (hsent : Sent cfg s) (how : Owners s) (hn : Numbered cfg s) (h : Echoes s l) :
    ReportsOwn s l := by
  unfold ReportsOwn
  split
  · rename_i n requestID _ _
    intro q hq k hk
    obtain ⟨⟨n', ad⟩, he, hn', hid⟩ : ∃ e ∈ s.wire, e.1 = n ∧ e.2.requestID = requestID :=
      h (n, requestID) rfl
    obtain ⟨key, j, hj, hpast, hej⟩ := hsent _ he
    obtain ⟨rfl, rfl⟩ := Prod.mk.inj hej
    obtain ⟨id, hparse, hl⟩ := Option.bind_eq_some_iff.1 hq
    rw [← hid, job_requestID hj, parseUint_formatUint, Option.some.injEq] at hparse
    obtain ⟨k', hk', hid', hlist⟩ := how.request id q hl
    rw [Option.mem_def] at hk
    rw [hk] at hk'
    cases hk'
    -- The request found and the job whose ad was sent drew the same RequestID.
    have hjob : s.job cfg (.inl q) = some k.job := job_of_request hk
    have hkey :=
      hn.inj key (.inl q) j k.job hj hjob (by rw [hpast]; decide) (Request.drawn hlist) (hparse.trans hid'.symm)
    rw [hkey, hjob] at hj
    cases hj
    exact hn'
  · trivial

/-- **Honest targets suffice**: where every target reports only on RequestIDs it was sent, a requester is relayed
nothing but what the target its request was forwarded to reported on it. -/
theorem honest_targets_suffice (x : Ext) (cfg : Config) (ls : List Label) (s : State) (hlen : ls.length < UInt64.size)
    (hm : Meets (Broker.step x cfg) Echoes .init ls) (hr : run (Broker.step x cfg) .init ls = some s) :
    Authentic s := by
  have h := Machine.run_history
    (P := fun ls s => ls.length < UInt64.size → Meets (Broker.step x cfg) Echoes .init ls → ResultInv s) ?_ ?_ hr
  · exact fun q k d hk hd => ((h hlen hm).request q k hk).relayed d hd
  · exact fun _ _ => ResultInv.init
  · intro as t a u hr h hs hlen hm
    rw [List.length_append, List.length_singleton] at hlen
    obtain ⟨hm, hlast⟩ := hm.of_append as hr
    have hi := h (by omega) hm
    have hown := reportsOwn_of_echoes (sent_of_run hr) (owners_of_run hr) (numbered_of_run hr (by omega)) (hlast u hs).1
    cases a with
    | reg l => exact hi.stepReg hown hs
    | req l => exact hi.stepReq hs
    | proxy l => exact hi.stepProxy hs

theorem honest_targets_suffice_own :
    ∃ s, run (Broker.step splitExt plainConfig) .init (twoTargets ++ reportFrom 0) = some s ∧
      (s.reqs[0]?).bind (fun k => k.pc.relays) = some ⟨⟨true, ""⟩, 1, 0⟩ ∧ Authentic s := by
  obtain ⟨s, hs⟩ : ∃ s, run (Broker.step splitExt plainConfig) .init (twoTargets ++ reportFrom 0) = some s := ⟨_, rfl⟩
  have hreq : (run (Broker.step splitExt plainConfig) .init (twoTargets ++ reportFrom 0)).bind
      (fun s => (s.reqs[0]?).bind (fun k => k.pc.relays)) = some ⟨⟨true, ""⟩, 1, 0⟩ := by decide
  rw [hs, Option.bind_some] at hreq
  exact ⟨s, hs, hreq, honest_targets_suffice splitExt plainConfig _ s (by decide) (by decide) hs⟩

end

end Broker
end Ccb
