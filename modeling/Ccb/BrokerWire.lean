import Mathlib.Data.Sum.Basic
import Ccb.BrokerProxy
import Ccb.BrokerResult
/-!
# BrokerWire — what the targets are sent, and for whom

A standard request and a `proxyRelay` call are one job each: an ad for one target, forwarded once, under a RequestID of
its own.  `step_jobs` says what a step does to the jobs, to the ads on the wire and to the counter the RequestIDs come
from. Every ad forwarded is what an authorised request, or a tunnel's next hop, asked for, for the target registered
when it asked, and no two ads have one RequestID (`forwarded_as_asked`).
-/
namespace Ccb
namespace Broker

open Machine (run Meets)

/-! ## RequestIDs in decimal -/

/-- **A RequestID echoed as it was sent is parsed back.** -/
theorem parseUint_formatUint (n : UInt64) : parseUint (formatUint n) = some n := by
  have hchars : (formatUint n).toList = Nat.toDigits 10 n.toNat := by
    show (Nat.repr n.toNat).toList = _
    rw [Nat.repr_eq_ofList_toDigits, String.toList_ofList]
  have hvalue : digitsToNat (Nat.toDigits 10 n.toNat) = n.toNat := by
    refine Eq.trans ?_ (Nat.ofDigitChars_toDigits (by decide) (Nat.le_refl 10))
    unfold digitsToNat
    rw [Nat.ofDigitChars_eq_foldl]
    simp only [Nat.mul_comm]
  have hdigits : (Nat.toDigits 10 n.toNat).all isDigit = true := by
    rw [List.all_eq_true]
    intro c hc
    have hd := Nat.isDigit_of_mem_toDigits (by decide) (Nat.le_refl 10) hc
    simpa [Char.isDigit, isDigit, Char.le_def] using hd
  have hne : (Nat.toDigits 10 n.toNat).isEmpty = false := by
    rw [List.isEmpty_eq_false_iff]
    exact Nat.toDigits_ne_nil
  have hlt : ¬ UInt64.size ≤ n.toNat := Nat.not_le.2 n.toNat_lt
  unfold parseUint
  dsimp only
  rw [hchars, hvalue, hdigits, hne, decide_eq_false hlt, UInt64.ofNat_toNat]
  rfl

theorem formatUint_inj {m n : UInt64} (h : formatUint m = formatUint n) : m = n := by
  have hm := parseUint_formatUint m
  rw [h, parseUint_formatUint] at hm
  exact (Option.some.inj hm).symm

/-! ## Jobs -/

/-- A job before it has drawn its RequestID, with its ad still to be written, and after that. -/
inductive Phase where
  | before
  | ready
  | past
  deriving DecidableEq, Repr

structure Job where
  target : Nat
  ad     : ForwardAd
  id     : UInt64
  phase  : Phase
  deriving DecidableEq, Repr

def ReqPc.phase : ReqPc → Phase
  | .insert  => .before
  | .forward => .ready
  | .wait | .exit _ | .returned _ => .past

def RelayPc.phase : RelayPc → Phase
  | .start | .duplicate => .before
  | .forward => .ready
  | .wait | .reply _ | .splice _ | .finish | .exit | .returned => .past

def Request.job (k : Request) : Job := ⟨k.target, k.forwardAd, k.id, k.pc.phase⟩

def Relay.job (cfg : Config) (r : Relay) : Job := ⟨r.target, r.forwardAd cfg, r.requestID, r.pc.phase⟩

/-- A standard request, or a `proxyRelay` call. -/
abbrev JobKey := Nat ⊕ Nat

def State.job (cfg : Config) (s : State) : JobKey → Option Job :=
  Sum.elim (fun q => (s.reqs[q]?).map Request.job) (fun k => (s.relays[k]?).map (Relay.job cfg))

theorem getElem?_map_modify {α β : Type} {l : List α} {k : Nat} {a : α} (f : α → α) (g : α → β) (hk : l[k]? = some a) :
    (fun n => ((l.modify k f)[n]?).map g) = Function.update (fun n => (l[n]?).map g) k (some (g (f a))) := by
  funext n
  by_cases hn : n = k
  · subst hn
    simp [hk]
  · rw [Function.update_of_ne hn, List.getElem?_modify_ne _ _ (Ne.symm hn)]

theorem getElem?_map_concat {α β : Type} (l : List α) (a : α) (g : α → β) :
    (fun n => ((l ++ [a])[n]?).map g) = Function.update (fun n => (l[n]?).map g) l.length (some (g a)) := by
  funext n
  by_cases hn : n = l.length
  · subst hn
    simp
  · rw [Function.update_of_ne hn, List.getElem?_append]
    split
    · rfl
    · have hgt : l.length < n := by omega
      rw [List.getElem?_eq_none (Nat.le_of_lt hgt), List.getElem?_eq_none (by simp; omega)]

section
variable {x : Ext} {cfg : Config} {s t : State} {l : Label}

theorem job_congr (hq : t.reqs = s.reqs) (hr : t.relays = s.relays) : t.job cfg = s.job cfg := by
  unfold State.job
  rw [hq, hr]

theorem job_modifyReq {q : Nat} {k : Request} {f : Request → Request} (hk : s.reqs[q]? = some k)
    (hq : t.reqs = s.reqs.modify q f) (hr : t.relays = s.relays) :
    t.job cfg = Function.update (s.job cfg) (.inl q) (some (f k).job) := by
  unfold State.job
  rw [hq, hr, getElem?_map_modify f _ hk, Sum.update_elim_inl]

theorem job_modifyRelay {k : Nat} {r : Relay} {f : Relay → Relay} (hk : s.relays[k]? = some r) (hq : t.reqs = s.reqs)
    (hr : t.relays = s.relays.modify k f) :
    t.job cfg = Function.update (s.job cfg) (.inr k) (some ((f r).job cfg)) := by
  unfold State.job
  rw [hq, hr, getElem?_map_modify f _ hk, Sum.update_elim_inr]

/-- What the arrival of a request, or of a tunnel's next hop, asks to be forwarded, but for the RequestID, and the
registration it asks for. -/
inductive Asks (x : Ext) (cfg : Config) (s : State) : Label → Nat → ForwardAd → Prop
  | standard {r : RequestInput} {id : UInt64} {h : Nat} : authorize cfg requestPerms r.remoteAddr r.user = true →
      parseTargetID r.ccbid = some id → s.targets.lookup id = some h →
      ¬ (r.streamingRequired = true ∨ x.sinfulIsCCB r.myAddress = true ∨ r.route ≠ "") →
      Asks x cfg s (.req (.request r)) h ⟨r.myAddress, r.claimID, "", r.name, "", "", ""⟩
  | proxied {r : RequestInput} {id : UInt64} {h : Nat} : authorize cfg requestPerms r.remoteAddr r.user = true →
      parseTargetID r.ccbid = some id → s.targets.lookup id = some h →
      (r.streamingRequired = true ∨ x.sinfulIsCCB r.myAddress = true ∨ r.route ≠ "") →
      Asks x cfg s (.req (.request r)) h
        ⟨proxyAddrSinful cfg, r.claimID, "", r.name, r.route, requesterIdentity r, proxyAddrSinful cfg⟩
  | inbound {route orig cid : String} {id : UInt64} {h : Nat} : parseTargetID (splitRoute route).1 = some id →
      s.targets.lookup id = some h →
      Asks x cfg s (.proxy (.inbound route orig (some cid))) h
        ⟨proxyAddrSinful cfg, cid, "", "inbound-relay", (splitRoute route).2, orig, proxyAddrSinful cfg⟩

/-- **What a step does to the jobs**, to the ads on the wire and to the counter of the RequestIDs. -/
inductive JobStep (x : Ext) (cfg : Config) (s : State) (l : Label) (t : State) : Prop
  | frame : t.job cfg = s.job cfg → t.wire = s.wire → t.nextReq = s.nextReq → JobStep x cfg s l t
  | enter (k : JobKey) (j : Job) : s.job cfg k = none → j.phase = .before →
      (∃ ad, Asks x cfg s l j.target ad ∧ j.ad = { ad with requestID := formatUint j.id }) →
      t.job cfg = Function.update (s.job cfg) k (some j) → t.wire = s.wire → t.nextReq = s.nextReq → JobStep x cfg s l t
  | draw (k : JobKey) (j : Job) : s.job cfg k = some j → j.phase = .before →
      t.job cfg = Function.update (s.job cfg) k (some { j with
        id := s.nextReq + 1, ad := { j.ad with requestID := formatUint (s.nextReq + 1) }, phase := .ready }) →
      t.wire = s.wire → t.nextReq = s.nextReq + 1 → JobStep x cfg s l t
  | burn : t.job cfg = s.job cfg → t.wire = s.wire → t.nextReq = s.nextReq + 1 → JobStep x cfg s l t
  | send (k : JobKey) (j : Job) : s.job cfg k = some j → j.phase = .ready →
      t.job cfg = Function.update (s.job cfg) k (some { j with phase := .past }) →
      t.wire = s.wire ++ [(j.target, j.ad)] → t.nextReq = s.nextReq → JobStep x cfg s l t
  | drop (k : JobKey) (j : Job) : s.job cfg k = some j → j.phase ≠ .before →
      t.job cfg = Function.update (s.job cfg) k (some { j with phase := .past }) → t.wire = s.wire →
      t.nextReq = s.nextReq → JobStep x cfg s l t

theorem JobStep.enterReq {k : Request} (hp : k.pc = .insert)
    (ha : ∃ ad, Asks x cfg s l k.target ad ∧ k.forwardAd = { ad with requestID := formatUint k.id })
    (hq : t.reqs = s.reqs ++ [k]) (hr : t.relays = s.relays) (hw : t.wire = s.wire) (hn : t.nextReq = s.nextReq) :
    JobStep x cfg s l t := by
  refine .enter (.inl s.reqs.length) k.job (by simp [State.job]) (by rw [Request.job, hp]; rfl) ha ?_ hw hn
  unfold State.job
  rw [hq, hr, getElem?_map_concat, Sum.update_elim_inl]

theorem JobStep.enterRelay {r : Relay} (hp : r.pc = .start)
    (ha : ∃ ad, Asks x cfg s l r.target ad ∧ r.forwardAd cfg = { ad with requestID := formatUint r.requestID })
    (hq : t.reqs = s.reqs) (hr : t.relays = s.relays ++ [r]) (hw : t.wire = s.wire) (hn : t.nextReq = s.nextReq) :
    JobStep x cfg s l t := by
  refine .enter (.inr s.relays.length) (r.job cfg) (by simp [State.job]) (by rw [Relay.job, hp]; rfl) ha ?_ hw hn
  unfold State.job
  rw [hq, hr, getElem?_map_concat, Sum.update_elim_inr]

theorem asks_of_standard {r : RequestInput} {h : Nat} (hp : handleRequest x cfg s r = .standard h) :
    Asks x cfg s (.req (.request r)) h ⟨r.myAddress, r.claimID, "", r.name, "", "", ""⟩ := by
  unfold handleRequest at hp
  split at hp
  · cases hp
  rename_i hauth
  (repeat' split at hp) <;> cases hp
  exact .standard (by simpa using hauth) (by assumption) (by assumption) (by assumption)

theorem asks_of_proxy {r : RequestInput} {h : Nat} {rc : RouteContext} (hp : handleRequest x cfg s r = .proxy h rc) :
    Asks x cfg s (.req (.request r)) h
      ⟨proxyAddrSinful cfg, r.claimID, "", r.name, rc.route, rc.originalRequester, rc.priorHop⟩ := by
  unfold handleRequest at hp
  split at hp
  · cases hp
  rename_i hauth
  (repeat' split at hp) <;> cases hp
  exact .proxied (by simpa using hauth) (by assumption) (by assumption) (by assumption)

theorem asks_of_inbound {route orig : String} {cid : Option String} {r : Relay}
    (h : startInboundRelay cfg s route orig cid = some r) :
    ∃ ad, Asks x cfg s (.proxy (.inbound route orig cid)) r.target ad ∧
      r.forwardAd cfg = { ad with requestID := formatUint r.requestID } := by
  unfold startInboundRelay at h
  dsimp only at h
  (repeat' split at h) <;> cases h
  rename_i _ _ id hid _ _ h cid hl
  exact ⟨_, .inbound hid hl, rfl⟩

/-- A step that leaves a request's job as it is. -/
theorem JobStep.keepReq {q : Nat} {f : Request → Request} (hf : ∀ k, (f k).job = k.job)
    (hq : t.reqs = s.reqs.modify q f) (hr : t.relays = s.relays) (hw : t.wire = s.wire) (hn : t.nextReq = s.nextReq) :
    JobStep x cfg s l t := by
  refine .frame ?_ hw hn
  cases hk : s.reqs[q]? with
  | none => exact job_congr (by rw [hq, List.modify_eq_self (by simpa using hk)]) hr
  | some k =>
    rw [job_modifyReq hk hq hr, hf]
    exact Function.update_eq_self_iff.2 (by simp [State.job, hk])

theorem JobStep.keepRelay {k : Nat} {f : Relay → Relay} (hf : ∀ r, (f r).job cfg = r.job cfg) (hq : t.reqs = s.reqs)
    (hr : t.relays = s.relays.modify k f) (hw : t.wire = s.wire) (hn : t.nextReq = s.nextReq) :
    JobStep x cfg s l t := by
  refine .frame ?_ hw hn
  cases hk : s.relays[k]? with
  | none => exact job_congr hq (by rw [hr, List.modify_eq_self (by simpa using hk)])
  | some r =>
    rw [job_modifyRelay hk hq hr, hf]
    exact Function.update_eq_self_iff.2 (by simp [State.job, hk])

theorem stepReg_jobs {l : RegLabel} (hs : stepReg x cfg s l = some t) : JobStep x cfg s (.reg l) t := by
  cases stepReg_cases hs with
  | register r =>
    rcases handleRegister_cases x cfg s r with ⟨heq, -⟩ | ⟨ad, tgt, reused, nextID, -, heq, -⟩ <;> rw [heq] <;>
      exact .frame (job_congr rfl rfl) rfl rfl
  | @deliver h _ _ req reqID res =>
    exact .keepReq (q := req) (f := fun q => { q with replyCh := q.replyCh.or (some ⟨res, reqID, h⟩) }) (fun _ => rfl)
      rfl rfl rfl rfl
  | _ => exact .frame (job_congr rfl rfl) rfl rfl

theorem stepReq_jobs {l : ReqLabel} (hs : stepReq x cfg s l = some t) : JobStep x cfg s (.req l) t := by
  -- A request past its forward: its job is over.
  have hover : ∀ {q : Nat} {k : Request} {f : Request → Request} {t : State}, s.reqs[q]? = some k →
      decide (k.pc.phase = .before) = false → (f k).job = { k.job with phase := .past } → t.reqs = s.reqs.modify q f →
      t.relays = s.relays → t.wire = s.wire → t.nextReq = s.nextReq → JobStep x cfg s (.req l) t := by
    intro q k f t hk hp hf hq hr hw hn
    exact .drop (.inl q) k.job (by simp [State.job, hk]) (of_decide_eq_false hp)
      (by rw [job_modifyReq hk hq hr, hf]) hw hn
  cases stepReq_cases hs with
  | refused => exact .frame rfl rfl rfl
  | standard hp => exact .enterReq rfl ⟨_, asks_of_standard hp, rfl⟩ rfl rfl rfl rfl
  | proxied hp => exact .enterRelay rfl ⟨_, asks_of_proxy hp, rfl⟩ rfl rfl rfl rfl
  | @inserted q k hk hp =>
    refine .draw (.inl q) k.job (by simp [State.job, hk]) (by rw [Request.job, hp]; rfl) ?_ rfl rfl
    exact job_modifyReq (f := fun k => { k with id := s.nextReq + 1, pc := .forward }) hk rfl rfl
  | @forwarded q k hk hp =>
    refine .send (.inl q) k.job (by simp [State.job, hk]) (by rw [Request.job, hp]; rfl) ?_ rfl rfl
    exact job_modifyReq (f := fun k => { k with pc := .wait }) hk rfl rfl
  | unforwarded hk hp => exact hover hk (by rw [hp]; rfl) rfl rfl rfl rfl rfl
  | received hk hp => exact hover hk (by rw [hp]; rfl) rfl rfl rfl rfl rfl
  | timedOut hk hp => exact hover hk (by rw [hp]; rfl) rfl rfl rfl rfl rfl
  | cancelled hk hp => exact hover hk (by rw [hp]; rfl) rfl rfl rfl rfl rfl
  | deleted hk hp => exact hover hk (by rw [hp]; rfl) rfl rfl rfl rfl rfl

theorem startRelay_jobs {k : Nat} {r : Relay} (hk : s.relays[k]? = some r) (hp : r.pc = .start) :
    JobStep x cfg s l (startRelay s k r) := by
  have hjob : s.job cfg (.inr k) = some (r.job cfg) := by simp [State.job, hk]
  have hbefore : (r.job cfg).phase = .before := by rw [Relay.job, hp]; rfl
  unfold startRelay
  dsimp only
  split
  · -- The RequestID is drawn all the same, and not used.
    refine .burn ?_ rfl rfl
    have hsame : ({ r with pc := .duplicate } : Relay).job cfg = r.job cfg := by
      rw [Relay.job, Relay.job, hp]
      rfl
    have hmod : State.job cfg (setRelay { s with nextReq := s.nextReq + 1 } k .duplicate) = _ :=
      job_modifyRelay (f := fun r => { r with pc := .duplicate }) hk rfl rfl
    rw [hmod, hsame]
    exact Function.update_eq_self_iff.2 hjob.symm
  · refine .draw (.inr k) (r.job cfg) hjob hbefore ?_ rfl rfl
    exact job_modifyRelay (f := fun r => { r with requestID := s.nextReq + 1, pc := .forward }) hk rfl rfl

theorem stepProxy_jobs {l : ProxyLabel} (hs : stepProxy cfg s l = some t) : JobStep x cfg s (.proxy l) t := by
  have hover : ∀ {k : Nat} {r : Relay} {f : Relay → Relay} {t : State}, s.relays[k]? = some r →
      decide (r.pc.phase = .before) = false → (f r).job cfg = { r.job cfg with phase := .past } → t.reqs = s.reqs →
      t.relays = s.relays.modify k f → t.wire = s.wire → t.nextReq = s.nextReq → JobStep x cfg s (.proxy l) t := by
    intro k r f t hk hp hf hq hr hw hn
    exact .drop (.inr k) (r.job cfg) (by simp [State.job, hk]) (of_decide_eq_false hp)
      (by rw [job_modifyRelay hk hq hr, hf]) hw hn
  cases l with
  | inbound route orig cid =>
    simp only [stepProxy] at hs
    split at hs <;> cases hs
    · exact .frame rfl rfl rfl
    · rename_i r hr
      exact .enterRelay (startInboundRelay_start hr).1 (asks_of_inbound hr) rfl rfl rfl rfl
  | start k =>
    simp only [stepProxy] at hs
    (repeat' split at hs) <;> cases hs
    rename_i r hk hp
    exact startRelay_jobs hk hp
  | forward k ok =>
    simp only [stepProxy] at hs
    (repeat' split at hs) <;> cases hs
    · rename_i r hk hp _
      refine .send (.inr k) (r.job cfg) (by simp [State.job, hk]) (by rw [Relay.job, hp]; rfl) ?_ rfl rfl
      exact job_modifyRelay (f := fun r => { r with pc := .wait }) hk rfl rfl
    · rename_i r hk hp _
      exact hover hk (by rw [hp]; rfl) rfl rfl rfl rfl rfl
  | receive k =>
    simp only [stepProxy] at hs
    split at hs
    · rename_i r hk
      split at hs
      · rename_i c hp hch
        cases hs
        split
        · exact hover (f := fun r => { r with targetCh := none, pc := .reply c }) hk (by rw [hp]; rfl) rfl rfl
            (modify_modify ..) rfl rfl
        · exact hover (f := fun r => { r with targetCh := none, pc := .splice c }) hk (by rw [hp]; rfl) rfl rfl
            (modify_modify ..) rfl rfl
      · cases hs
    · cases hs
  | timeout k | cancel k =>
    simp only [stepProxy] at hs
    (repeat' split at hs) <;> cases hs
    rename_i r hk hp
    exact hover hk (by rw [hp]; rfl) rfl rfl rfl rfl rfl
  | replied k ok =>
    simp only [stepProxy] at hs
    (repeat' split at hs) <;> cases hs
    · rename_i r hk _ c hp _
      exact hover hk (by rw [hp]; rfl) rfl rfl rfl rfl rfl
    · rename_i r hk _ c hp _
      exact hover hk (by rw [hp]; rfl) rfl rfl rfl rfl rfl
  | spliceEnd k =>
    simp only [stepProxy] at hs
    (repeat' split at hs) <;> cases hs
    rename_i r hk _ c hp
    exact hover hk (by rw [hp]; rfl) rfl rfl rfl rfl rfl
  | finish k =>
    simp only [stepProxy] at hs
    (repeat' split at hs) <;> cases hs
    rename_i r hk hp
    exact hover hk (by rw [hp]; rfl) rfl rfl rfl rfl rfl
  | delete k =>
    simp only [stepProxy] at hs
    (repeat' split at hs) <;> cases hs
    rename_i r hk hp
    exact hover hk (by rw [hp]; rfl) rfl rfl rfl rfl rfl
  | send c =>
    simp only [stepProxy] at hs
    (repeat' split at hs) <;> cases hs
    · exact .frame (job_congr rfl rfl) rfl rfl
    · rename_i _ _ _ k _ _ r _ _ _
      exact .keepRelay (k := k) (f := fun r => { r with targetCh := some c }) (fun _ => rfl) rfl rfl rfl rfl
  | hello claimID =>
    cases hs
    exact .frame (job_congr rfl rfl) rfl rfl
  | lookup c | helloDone c | helloCancel c =>
    simp only [stepProxy] at hs
    (repeat' split at hs) <;> cases hs <;> exact .frame (job_congr rfl rfl) rfl rfl

/-- **Every step, as the jobs see it.** -/
theorem step_jobs (hs : step x cfg s l = some t) : JobStep x cfg s l t := by
  cases l with
  | reg l => exact stepReg_jobs hs
  | req l => exact stepReq_jobs hs
  | proxy l => exact stepProxy_jobs hs

/-! ## What is on the wire -/

/-- Every ad on the wire is that of a job that is past its forward. -/
def Sent (cfg : Config) (s : State) : Prop :=
  ∀ e ∈ s.wire, ∃ k j, s.job cfg k = some j ∧ j.phase = .past ∧ e = (j.target, j.ad)

theorem job_requestID {k : JobKey} {j : Job} (h : s.job cfg k = some j) : j.ad.requestID = formatUint j.id := by
  cases k with
  | inl q =>
    obtain ⟨k, -, rfl⟩ := Option.map_eq_some_iff.1 h
    rfl
  | inr k =>
    obtain ⟨r, -, rfl⟩ := Option.map_eq_some_iff.1 h
    rfl

/-- One job changes, and keeps its ad if it is past its forward. -/
theorem Sent.update (h : Sent cfg s) {k : JobKey} {j' : Job}
    (hjob : t.job cfg = Function.update (s.job cfg) k (some j')) (hw : t.wire = s.wire)
    (hk : ∀ j, s.job cfg k = some j → j.phase = .past → j'.phase = .past ∧ j'.target = j.target ∧ j'.ad = j.ad) :
    Sent cfg t := by
  intro e he
  rw [hw] at he
  obtain ⟨i, j, hj, hp, rfl⟩ := h e he
  by_cases hi : i = k
  · subst hi
    obtain ⟨hp', ht, had⟩ := hk j hj hp
    exact ⟨i, j', by rw [hjob, Function.update_self], hp', by rw [ht, had]⟩
  · exact ⟨i, j, by rw [hjob, Function.update_of_ne hi]; exact hj, hp, rfl⟩

theorem Sent.step (h : Sent cfg s) (hs : JobStep x cfg s l t) : Sent cfg t := by
  cases hs with
  | frame hj hw | burn hj hw =>
    intro e he
    rw [hw] at he
    rw [hj]
    exact h e he
  | enter k j hnone _ _ hj hw =>
    refine h.update hj hw fun j' hj' => ?_
    rw [hnone] at hj'
    cases hj'
  | draw k j hk hp hj hw =>
    refine h.update hj hw fun j' hj' hp' => ?_
    rw [hk] at hj'
    cases hj'
    rw [hp] at hp'
    cases hp'
  | drop k j hk hp hj hw =>
    refine h.update hj hw fun j' hj' _ => ?_
    rw [hk] at hj'
    cases hj'
    exact ⟨rfl, rfl, rfl⟩
  | send k j hk hp hj hw =>
    intro e he
    rw [hw] at he
    rcases List.mem_append.1 he with he | he
    · refine (h.update (t := { t with wire := s.wire }) hj rfl fun j' hj' hp' => ?_) e he
      rw [hk] at hj'
      cases hj'
      rw [hp] at hp'
      cases hp'
    · rw [List.mem_singleton.1 he]
      exact ⟨k, { j with phase := .past }, by rw [hj, Function.update_self], rfl, rfl⟩

/-- The RequestIDs drawn so far: none above the counter, no two alike, and no two ads under one. -/
structure Numbered (cfg : Config) (s : State) : Prop where
  le    : ∀ k j, s.job cfg k = some j → j.phase ≠ .before → j.id.toNat ≤ s.nextReq.toNat
  inj   : ∀ k k' j j', s.job cfg k = some j → s.job cfg k' = some j' → j.phase ≠ .before → j'.phase ≠ .before →
            j.id = j'.id → k = k'
  nodup : (s.wire.map (fun e => e.2.requestID)).Nodup

/-- One job changes and keeps its RequestID, or has none. -/
theorem Numbered.update (h : Numbered cfg s) {k : JobKey} {j' : Job}
    (hjob : t.job cfg = Function.update (s.job cfg) k (some j')) (hn : s.nextReq.toNat ≤ t.nextReq.toNat)
    (hnew : j'.phase ≠ .before → j'.id.toNat ≤ t.nextReq.toNat ∧
      ∀ i j, i ≠ k → s.job cfg i = some j → j.phase ≠ .before → j.id ≠ j'.id)
    (hd : (t.wire.map (fun e => e.2.requestID)).Nodup) : Numbered cfg t := by
  have hold : ∀ i, i ≠ k → t.job cfg i = s.job cfg i := fun i hi => by rw [hjob, Function.update_of_ne hi]
  have hself : ∀ j, t.job cfg k = some j → j = j' := by
    intro j hj
    rw [hjob, Function.update_self] at hj
    exact (Option.some.inj hj).symm
  refine ⟨fun i j hj hp => ?_, fun i i' j₁ j₂ h₁ h₂ hp₁ hp₂ heq => ?_, hd⟩
  · by_cases hi : i = k
    · subst hi
      cases hself j hj
      exact (hnew hp).1
    · exact Nat.le_trans (h.le i j (hold i hi ▸ hj) hp) hn
  · by_cases hi : i = k <;> by_cases hi' : i' = k
    · rw [hi, hi']
    · subst hi
      cases hself _ h₁
      exact absurd heq.symm ((hnew hp₁).2 i' j₂ hi' (hold i' hi' ▸ h₂) hp₂)
    · subst hi'
      cases hself _ h₂
      exact absurd heq ((hnew hp₂).2 i j₁ hi (hold i hi ▸ h₁) hp₁)
    · exact h.inj i i' j₁ j₂ (hold i hi ▸ h₁) (hold i' hi' ▸ h₂) hp₁ hp₂ heq

theorem Numbered.step (h : Numbered cfg s) (hsent : Sent cfg s) (hlt : s.nextReq.toNat + 1 < UInt64.size)
    (hs : JobStep x cfg s l t) : Numbered cfg t := by
  have hsucc : (s.nextReq + 1).toNat = s.nextReq.toNat + 1 := by
    rw [UInt64.toNat_add]
    exact Nat.mod_eq_of_lt hlt
  cases hs with
  | frame hj hw hn =>
    refine ⟨fun k j hk hp => ?_, fun k k' j j' hk hk' => ?_, by rw [hw]; exact h.nodup⟩
    · rw [hn]; exact h.le k j (hj ▸ hk) hp
    · exact h.inj k k' j j' (hj ▸ hk) (hj ▸ hk')
  | burn hj hw hn =>
    refine ⟨fun k j hk hp => ?_, fun k k' j j' hk hk' => ?_, by rw [hw]; exact h.nodup⟩
    · rw [hn, hsucc]; exact Nat.le_succ_of_le (h.le k j (hj ▸ hk) hp)
    · exact h.inj k k' j j' (hj ▸ hk) (hj ▸ hk')
  | enter k j hnone hp _ hj hw hn =>
    exact h.update hj (by rw [hn]) (fun hp' => absurd hp hp') (by rw [hw]; exact h.nodup)
  | draw k j hk hp hj hw hn =>
    refine h.update hj (by rw [hn, hsucc]; omega) (fun _ => ⟨by rw [hn], fun i j' _ hj' hp' heq => ?_⟩)
      (by rw [hw]; exact h.nodup)
    -- The counter has not been this high before.
    have hle := h.le i j' hj' hp'
    rw [heq, hsucc] at hle
    omega
  | drop k j hk hp hj hw hn =>
    refine h.update hj (by rw [hn]) (fun _ => ⟨by rw [hn]; exact h.le k j hk hp, fun i j' hi hj' hp' heq => ?_⟩)
      (by rw [hw]; exact h.nodup)
    exact hi (h.inj i k j' j hj' hk hp' hp heq)
  | send k j hk hp hj hw hn =>
    have hp' : j.phase ≠ .before := by rw [hp]; decide
    refine h.update hj (by rw [hn]) (fun _ => ⟨by rw [hn]; exact h.le k j hk hp', fun i j' hi hj' hp' heq => ?_⟩) ?_
    · exact hi (h.inj i k j' j hj' hk hp' (by rw [hp]; decide) heq)
    · rw [hw, List.map_append, List.nodup_append]
      refine ⟨h.nodup, by simp, ?_⟩
      rintro a ha b hb rfl
      obtain ⟨e, he, rfl⟩ := List.mem_map.1 ha
      obtain ⟨i, j', hj', hpast, rfl⟩ := hsent e he
      -- The ad of another job under the same RequestID: it would be the same job, which has sent nothing.
      have hid : j'.id = j.id := by
        refine formatUint_inj ?_
        rw [← job_requestID hj', ← job_requestID hk]
        exact List.mem_singleton.1 hb
      have hi := h.inj i k j' j hj' hk (by rw [hpast]; decide) hp' hid
      rw [hi, hk] at hj'
      cases hj'
      rw [hp] at hpast
      cases hpast

/-! ## Over whole runs -/

/-- The job was asked for at some step of the run. -/
def Origin (x : Ext) (cfg : Config) (ls : List Label) (j : Job) : Prop :=
  ∃ before l after s ad, ls = before ++ l :: after ∧ run (Broker.step x cfg) .init before = some s ∧
    Asks x cfg s l j.target ad ∧ j.ad = { ad with requestID := formatUint j.id }

/-- A job's RequestID may be drawn, and the run may go on. -/
theorem Origin.later {ls : List Label} {j j' : Job} (h : Origin x cfg ls j) (l : Label) (ht : j'.target = j.target)
    (had : j'.ad = { j.ad with requestID := formatUint j'.id }) : Origin x cfg (ls ++ [l]) j' := by
  obtain ⟨before, l', after, s, ad, rfl, hr, ha, hj⟩ := h
  refine ⟨before, l', after ++ [l], s, ad, by simp, hr, ht ▸ ha, ?_⟩
  rw [had, hj]

theorem origin_step {ls : List Label} (hr : run (Broker.step x cfg) .init ls = some s)
    (h : ∀ k j, s.job cfg k = some j → Origin x cfg ls j) (hs : JobStep x cfg s l t) :
    ∀ k j, t.job cfg k = some j → Origin x cfg (ls ++ [l]) j := by
  have hkeep : ∀ {k j}, s.job cfg k = some j → Origin x cfg (ls ++ [l]) j := by
    intro k j hj
    exact (h k j hj).later l rfl (by rw [← job_requestID hj])
  -- One job has changed, the others are the same.
  have hone : ∀ {k j'}, t.job cfg = Function.update (s.job cfg) k (some j') → Origin x cfg (ls ++ [l]) j' →
      ∀ i j, t.job cfg i = some j → Origin x cfg (ls ++ [l]) j := by
    intro k j' hj ho i j hi
    rw [hj] at hi
    by_cases hik : i = k
    · rw [hik, Function.update_self] at hi
      exact Option.some.inj hi ▸ ho
    · rw [Function.update_of_ne hik] at hi
      exact hkeep hi
  cases hs with
  | frame hj | burn hj =>
    intro k j hk
    exact hkeep (hj ▸ hk)
  | enter k j _ _ ha hj =>
    obtain ⟨ad, ha, had⟩ := ha
    exact hone hj ⟨ls, l, [], s, ad, rfl, hr, ha, had⟩
  | draw k j hk _ hj => exact hone hj ((h k j hk).later l rfl rfl)
  | send k j hk _ hj | drop k j hk _ hj => exact hone hj ((h k j hk).later l rfl (by rw [← job_requestID hk]))

theorem origin_of_run {ls : List Label} (hr : run (Broker.step x cfg) .init ls = some s) :
    ∀ k j, s.job cfg k = some j → Origin x cfg ls j := by
  refine Machine.run_history (P := fun ls s => ∀ k j, s.job cfg k = some j → Origin x cfg ls j) ?_ ?_ hr
  · intro k j h
    cases k <;> simp [State.job, State.init] at h
  · intro as t a u hr h hs
    exact origin_step hr h (step_jobs hs)

theorem sent_init : Sent cfg .init := fun e he => by simp [State.init] at he

theorem sent_of_run {ls : List Label} (hr : run (Broker.step x cfg) .init ls = some s) : Sent cfg s :=
  Machine.inv_of_step (I := Sent cfg) (fun _ _ _ h hs => h.step (step_jobs hs)) ls .init s sent_init hr

theorem JobStep.nextReq_le (hs : JobStep x cfg s l t) : t.nextReq.toNat ≤ s.nextReq.toNat + 1 := by
  cases hs with
  | frame _ _ hn => rw [hn]; omega
  | enter _ _ _ _ _ _ _ hn => rw [hn]; omega
  | send _ _ _ _ _ _ hn | drop _ _ _ _ _ _ hn => rw [hn]; omega
  | draw _ _ _ _ _ _ hn | burn _ _ hn =>
    rw [hn, UInt64.toNat_add]
    exact Nat.mod_le _ _

theorem nextReq_of_run {ls : List Label} (hr : run (Broker.step x cfg) .init ls = some s) :
    s.nextReq.toNat ≤ ls.length := by
  refine Machine.run_history (P := fun ls s => s.nextReq.toNat ≤ ls.length) (Nat.le_refl 0) ?_ hr
  intro as t a u _ h hs
  have hle := (step_jobs hs).nextReq_le
  rw [List.length_append, List.length_singleton]
  omega

theorem numbered_of_run {ls : List Label} (hr : run (Broker.step x cfg) .init ls = some s)
    (hlen : ls.length < UInt64.size) :
    Numbered cfg s := by
  have h := Machine.run_history (P := fun ls s => ls.length < UInt64.size → Numbered cfg s) ?_ ?_ hr
  · exact h hlen
  · intro _
    refine ⟨fun k j h => ?_, fun k k' j j' h => ?_, List.nodup_nil⟩ <;> cases k <;> simp [State.job, State.init] at h
  · intro as t a u hr h hs hlen
    rw [List.length_append, List.length_singleton] at hlen
    have hle := nextReq_of_run hr
    exact (h (by omega)).step (sent_of_run hr) (by omega) (step_jobs hs)

/-- **A target is sent what was asked of it, once**: every ad forwarded is what an authorised request, or a tunnel's
next hop, asked for, to the registration its CCBID had at that moment, with nothing changed but the RequestID; and,
until the counter has gone round, no two ads have the same one. -/
theorem forwarded_as_asked (x : Ext) (cfg : Config) (ls : List Label) (s : State)
    (hr : run (Broker.step x cfg) .init ls = some s) :
    (∀ e ∈ s.wire, ∃ before l after t ad id, ls = before ++ l :: after ∧ run (Broker.step x cfg) .init before = some t ∧
        Asks x cfg t l e.1 ad ∧ e.2 = { ad with requestID := formatUint id }) ∧
      (ls.length < UInt64.size → (s.wire.map (fun e => e.2.requestID)).Nodup) := by
  refine ⟨fun e he => ?_, fun hlen => (numbered_of_run hr hlen).nodup⟩
  obtain ⟨k, j, hj, -, rfl⟩ := sent_of_run hr e he
  obtain ⟨before, l, after, t, ad, hls, ht, ha, had⟩ := origin_of_run hr k j hj
  exact ⟨before, l, after, t, ad, j.id, hls, ht, ha, had⟩

theorem forwarded_as_asked_twoTargets : ∃ s, run (Broker.step splitExt plainConfig) .init twoTargets = some s ∧
    s.wire = [(0, ⟨"<10.0.0.9:5001>", "secret", "1", "tool", "", "", ""⟩)] ∧
      (s.wire.map (fun e => e.2.requestID)).Nodup := by
  obtain ⟨s, hs⟩ : ∃ s, run (Broker.step splitExt plainConfig) .init twoTargets = some s := ⟨_, rfl⟩
  have hwire : (run (Broker.step splitExt plainConfig) .init twoTargets).map (fun s => s.wire) =
      some [(0, ⟨"<10.0.0.9:5001>", "secret", "1", "tool", "", "", ""⟩)] := by decide
  rw [hs, Option.map_some, Option.some.injEq] at hwire
  exact ⟨s, hs, hwire, (forwarded_as_asked splitExt plainConfig twoTargets s hs).2 (by decide)⟩

end

end Broker
end Ccb
