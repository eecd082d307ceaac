import Ccb.Broker
/-!
# BrokerEffect — what one step does to the registration tables

`step_effect` says, once for every label, how a step changes `nextID`, `targets`, `reconnects` and the registration
handlers: it leaves them alone, moves one handler's program counter, inserts a registration, removes one, or sweeps.
Every invariant of the registrations is a case analysis on it.
-/
namespace Ccb
namespace Broker

/-- The handler has not yet started its own removal. -/
def RegPc.live : RegPc → Bool
  | .put _ | .reply | .serve | .deliver _ _ _ => true
  | .remove | .restamp _ | .returned        => false

/-- The handler whose `removeTarget` a label is. -/
def Label.removal : Label → Option Nat
  | .reg (.removeTarget h _) => some h
  | _ => none

/-- Where a registration's CCBID and cookie come from: a record it reclaims, or the counter. -/
inductive Assigned (s : State) (t : Target) (reused : Bool) (nextID : UInt64) : Prop
  | reclaimed (r : ReconnectRecord) : reused = true → s.reconnects.lookup t.id = some r → r.cookie = t.cookie →
      nextID = s.nextID → Assigned s t reused nextID
  | fresh : reused = false → t.id = s.nextID + 1 → nextID = s.nextID + 1 → Assigned s t reused nextID

/-- The table after `removeTarget` stamps the record of `id`. -/
def stampRecord (m : GoMap UInt64 ReconnectRecord) (id : UInt64) (now : Int) : GoMap UInt64 ReconnectRecord :=
  match m.lookup id with
  | none   => m
  | some r => m.insert id { r with updatedAt := now }

/-- The registration tables of `t` are those of `s` after the step `l`. -/
inductive RegEffect (cfg : Config) (s : State) (l : Label) (t : State) : Prop
  | frame : l.removal = none → t.nextID = s.nextID → t.targets = s.targets → t.reconnects = s.reconnects →
      t.handlers = s.handlers → RegEffect cfg s l t
  | move (h : Nat) (pc : RegPc) : l.removal = none → t.nextID = s.nextID → t.targets = s.targets →
      t.reconnects = s.reconnects → t.handlers = s.handlers.modify h (fun k => { k with pc := pc }) →
      (∀ k, s.handlers[h]? = some k → pc.live = true → k.pc.live = true) → RegEffect cfg s l t
  | insert (tgt : Target) (reused : Bool) (rec : ReconnectRecord) : l.removal = none →
      Assigned s tgt reused t.nextID → t.targets = s.targets.insert tgt.id s.handlers.length →
      t.reconnects = s.reconnects.insert tgt.id rec → t.handlers = s.handlers ++ [⟨tgt, reused, .put rec⟩] →
      rec.ccbid = tgt.id → rec.cookie = tgt.cookie → RegEffect cfg s l t
  | remove (h : Nat) (k : Handler) (pc : RegPc) (now : Int) : l.removal = some h → s.handlers[h]? = some k →
      k.pc = .remove → pc.live = false → t.nextID = s.nextID → t.targets = s.targets.erase k.target.id →
      t.reconnects = stampRecord s.reconnects k.target.id now →
      t.handlers = s.handlers.modify h (fun k => { k with pc := pc }) → RegEffect cfg s l t
  | sweep (now : Int) : l = .reg (.sweep now) → t.nextID = s.nextID → t.targets = s.targets →
      t.reconnects = (stale cfg s now).foldl (fun m id => m.erase id) s.reconnects →
      t.handlers = s.handlers → RegEffect cfg s l t

theorem reclaim_eq_some {x : Ext} {cfg : Config} {s : State} {ip : String} {ad : RegisterAd} {id : UInt64} {c : String}
    (h : reclaim x cfg s ip ad = some (id, c)) :
    ∃ r, parseContactID x ad.ccbid = some id ∧ s.reconnects.lookup id = some r ∧ r.cookie = c ∧ c = ad.claimID ∧
      ad.claimID ≠ "" ∧ (cfg.reconnectAllowAnyIP = true ∨ r.peerIP = ip) := by
  unfold reclaim at h
  split at h
  · cases h
  rename_i hne
  split at h
  · cases h
  rename_i prevID hp
  split at h
  · cases h
  rename_i r hr
  split at h
  · rename_i hc
    simp only [Option.some.injEq, Prod.mk.injEq] at h
    obtain ⟨rfl, rfl⟩ := h
    exact ⟨r, hp, hr, rfl, hc.1, fun hn => hne (Or.inr hn), hc.2⟩
  · cases h

/-- **What a registration does**: it is refused, and then presented no credentials, or it inserts a target under the
CCBID of the record it reclaims or under the next one. -/
theorem handleRegister_cases (x : Ext) (cfg : Config) (s : State) (r : RegisterInput) :
    (handleRegister x cfg s r = s ∧ ∀ ad, authorize cfg registerPerms r.remoteAddr r.user = true → r.ad = some ad →
        reclaim x cfg s (x.peerIPString r.remoteAddr) ad = none) ∨
      ∃ ad tgt reused nextID, r.ad = some ad ∧
        handleRegister x cfg s r =
          insertTarget { s with nextID := nextID } tgt reused (x.peerIPString r.remoteAddr) r.now ∧
        (reused = true ∧ nextID = s.nextID ∧
            reclaim x cfg s (x.peerIPString r.remoteAddr) ad = some (tgt.id, tgt.cookie) ∨
          reused = false ∧ nextID = s.nextID + 1 ∧ tgt.id = s.nextID + 1 ∧
            reclaim x cfg s (x.peerIPString r.remoteAddr) ad = none) := by
  unfold handleRegister
  split
  · rename_i hauth
    exact Or.inl ⟨rfl, fun ad h => absurd h (by simp [hauth])⟩
  split
  · rename_i had
    exact Or.inl ⟨rfl, fun ad _ h => by rw [had] at h; cases h⟩
  rename_i ad had
  dsimp only
  split
  · rename_i prevID cookie hrec
    exact Or.inr ⟨ad, ⟨prevID, ad.name, cookie⟩, true, s.nextID, had, rfl, Or.inl ⟨rfl, rfl, hrec⟩⟩
  rename_i hrec
  split
  · refine Or.inl ⟨rfl, fun ad' _ h => ?_⟩
    cases had.symm.trans h
    exact hrec
  · rename_i cookie _
    exact Or.inr ⟨ad, ⟨s.nextID + 1, ad.name, cookie⟩, false, s.nextID + 1, had, rfl,
      Or.inr ⟨rfl, rfl, rfl, hrec⟩⟩

theorem handleRegister_effect (x : Ext) (cfg : Config) (s : State) (r : RegisterInput) :
    RegEffect cfg s (.reg (.register r)) (handleRegister x cfg s r) := by
  rcases handleRegister_cases x cfg s r with
    ⟨heq, -⟩ | ⟨ad, tgt, reused, nextID, -, heq, ⟨hru, hn, hrec⟩ | ⟨hru, hn, hid, -⟩⟩ <;> rw [heq]
  · exact .frame rfl rfl rfl rfl rfl
  · obtain ⟨rec, -, hr, hcook, -, -, -⟩ := reclaim_eq_some hrec
    exact .insert tgt reused _ rfl (.reclaimed rec hru hr hcook hn) rfl rfl rfl rfl rfl
  · exact .insert tgt reused _ rfl (.fresh hru hid hn) rfl rfl rfl rfl rfl

/-- What a registration handler, or the sweep, can do in one step. -/
inductive RegStep (x : Ext) (cfg : Config) (s : State) : RegLabel → State → Prop
  | register (r : RegisterInput) : RegStep x cfg s (.register r) (handleRegister x cfg s r)
  | put {h : Nat} {tgt : Target} {reused : Bool} {rec : ReconnectRecord} :
      s.handlers[h]? = some ⟨tgt, reused, .put rec⟩ → RegStep x cfg s (.put h) (setHandler s h .reply)
  | accepted {h : Nat} {tgt : Target} {reused : Bool} :
      s.handlers[h]? = some ⟨tgt, reused, .reply⟩ → RegStep x cfg s (.replied h true) (setHandler s h .serve)
  | unheard {h : Nat} {tgt : Target} {reused : Bool} :
      s.handlers[h]? = some ⟨tgt, reused, .reply⟩ → RegStep x cfg s (.replied h false) (setHandler s h .remove)
  | ignored {h : Nat} {tgt : Target} {reused : Bool} {ad : TargetAd} :
      s.handlers[h]? = some ⟨tgt, reused, .serve⟩ → RegStep x cfg s (.read h (some ad)) s
  | reported {h : Nat} {tgt : Target} {reused : Bool} {requestID : String} {result : Bool} {errorString : String}
      {req : Nat} {reqID : UInt64} : s.handlers[h]? = some ⟨tgt, reused, .serve⟩ → parseUint requestID = some reqID →
      s.requests.lookup reqID = some req →
      RegStep x cfg s (.read h (some (.report requestID result errorString)))
        (setHandler s h (.deliver req reqID ⟨result, errorString⟩))
  | ended {h : Nat} {tgt : Target} {reused : Bool} :
      s.handlers[h]? = some ⟨tgt, reused, .serve⟩ → RegStep x cfg s (.read h none) (setHandler s h .remove)
  | deliver {h : Nat} {tgt : Target} {reused : Bool} {req : Nat} {reqID : UInt64} {res : ReplyResult} :
      s.handlers[h]? = some ⟨tgt, reused, .deliver req reqID res⟩ →
      RegStep x cfg s (.deliver h) (setHandler (sendReply s req ⟨res, reqID, h⟩) h .serve)
  | removed {h : Nat} {tgt : Target} {reused : Bool} {now : Int} {rec : ReconnectRecord} :
      s.handlers[h]? = some ⟨tgt, reused, .remove⟩ → s.reconnects.lookup tgt.id = some rec →
      RegStep x cfg s (.removeTarget h now)
        (setHandler { s with
          targets    := s.targets.erase tgt.id
          reconnects := s.reconnects.insert tgt.id { rec with updatedAt := now } } h
          (.restamp (some { rec with updatedAt := now })))
  | unrecorded {h : Nat} {tgt : Target} {reused : Bool} {now : Int} :
      s.handlers[h]? = some ⟨tgt, reused, .remove⟩ → s.reconnects.lookup tgt.id = none →
      RegStep x cfg s (.removeTarget h now)
        (setHandler { s with targets := s.targets.erase tgt.id } h (.restamp none))
  | putRemoved {h : Nat} {tgt : Target} {reused : Bool} {rec : Option ReconnectRecord} :
      s.handlers[h]? = some ⟨tgt, reused, .restamp rec⟩ → RegStep x cfg s (.putRemoved h) (setHandler s h .returned)
  | sweep (now : Int) : RegStep x cfg s (.sweep now) (sweepReconnects cfg s now)
  | sweepDelete {k : Nat} {id : UInt64} {rest : List UInt64} : s.sweeps[k]? = some (id :: rest) →
      RegStep x cfg s (.sweepDelete k) { s with sweeps := s.sweeps.set k rest }

theorem serveAd_cases {x : Ext} {cfg : Config} {s : State} {h : Nat} {tgt : Target} {reused : Bool}
    (hk : s.handlers[h]? = some ⟨tgt, reused, .serve⟩) (ad : TargetAd) :
    RegStep x cfg s (.read h (some ad)) (serveAd s h ad) := by
  cases ad with
  | alive => exact .ignored hk
  | report requestID result errorString =>
    simp only [serveAd]
    split
    · exact .ignored hk
    · rename_i reqID hid
      split
      · exact .ignored hk
      · rename_i req hreq
        exact .reported hk hid hreq

theorem removeTarget_cases {x : Ext} {cfg : Config} {s : State} {h : Nat} {tgt : Target} {reused : Bool}
    (hk : s.handlers[h]? = some ⟨tgt, reused, .remove⟩) (now : Int) :
    RegStep x cfg s (.removeTarget h now) (removeTarget s h tgt.id now) := by
  simp only [removeTarget]
  split
  · rename_i hrec
    exact .unrecorded hk hrec
  · rename_i rec hrec
    exact .removed hk hrec

/-- **Every registration step is one of these.** -/
theorem stepReg_cases {x : Ext} {cfg : Config} {s t : State} {l : RegLabel} (hs : stepReg x cfg s l = some t) :
    RegStep x cfg s l t := by
  cases l with
  | register r =>
    cases hs
    exact .register r
  | put h =>
    simp only [stepReg] at hs
    split at hs <;> cases hs
    rename_i hk
    exact .put hk
  | replied h ok =>
    simp only [stepReg] at hs
    split at hs <;> cases hs
    rename_i hk
    cases ok with
    | true => exact .accepted hk
    | false => exact .unheard hk
  | read h ad =>
    simp only [stepReg] at hs
    split at hs
    · rename_i hk
      cases ad with
      | some ad =>
        cases hs
        exact serveAd_cases hk ad
      | none =>
        cases hs
        exact .ended hk
    · cases hs
  | deliver h =>
    simp only [stepReg] at hs
    split at hs <;> cases hs
    rename_i hk
    exact .deliver hk
  | removeTarget h now =>
    simp only [stepReg] at hs
    split at hs <;> cases hs
    rename_i hk
    exact removeTarget_cases hk now
  | putRemoved h =>
    simp only [stepReg] at hs
    split at hs <;> cases hs
    rename_i hk
    exact .putRemoved hk
  | sweep now =>
    cases hs
    exact .sweep now
  | sweepDelete k =>
    simp only [stepReg] at hs
    split at hs <;> cases hs
    rename_i hk
    exact .sweepDelete hk

/-- A handler that is still alive is moved. -/
theorem RegEffect.of_live {cfg : Config} {s : State} {l : Label} {h : Nat} {k : Handler} (hk : s.handlers[h]? = some k)
    (hl : k.pc.live = true) (hrem : l.removal = none) (pc : RegPc) : RegEffect cfg s l (setHandler s h pc) :=
  .move h pc hrem rfl rfl rfl rfl (fun k' hk' _ => by rw [hk] at hk'; cases hk'; exact hl)

theorem stepReg_effect {x : Ext} {cfg : Config} {s t : State} {l : RegLabel} (hs : stepReg x cfg s l = some t) :
    RegEffect cfg s (.reg l) t := by
  cases stepReg_cases hs with
  | register r => exact handleRegister_effect x cfg s r
  | put hk => exact .of_live hk rfl rfl _
  | accepted hk => exact .of_live hk rfl rfl _
  | unheard hk => exact .of_live hk rfl rfl _
  | ignored => exact .frame rfl rfl rfl rfl rfl
  | reported hk => exact .of_live hk rfl rfl _
  | ended hk => exact .of_live hk rfl rfl _
  | deliver hk =>
    exact .move _ .serve rfl rfl rfl rfl rfl (fun k' hk' _ => by rw [hk] at hk'; cases hk'; rfl)
  | @removed h tgt reused now rec hk hrec =>
    exact .remove h _ _ now rfl hk rfl rfl rfl rfl (by simp [stampRecord, hrec, setHandler]) rfl
  | @unrecorded h tgt reused now hk hrec =>
    exact .remove h _ _ now rfl hk rfl rfl rfl rfl (by simp [stampRecord, hrec, setHandler]) rfl
  | putRemoved => exact .move _ .returned rfl rfl rfl rfl rfl (fun k _ hl => by cases hl)
  | sweep now => exact .sweep now rfl rfl rfl rfl rfl
  | sweepDelete => exact .frame rfl rfl rfl rfl rfl

theorem startRelay_frame (s : State) (k : Nat) (r : Relay) :
    (startRelay s k r).nextID = s.nextID ∧ (startRelay s k r).targets = s.targets ∧
      (startRelay s k r).reconnects = s.reconnects ∧ (startRelay s k r).handlers = s.handlers ∧
      (startRelay s k r).sweeps = s.sweeps := by
  unfold startRelay
  simp only
  split <;> exact ⟨rfl, rfl, rfl, rfl, rfl⟩

/-- What a standard request, or the arrival of any request, can do in one step. -/
inductive ReqStep (x : Ext) (cfg : Config) (s : State) : ReqLabel → State → Prop
  | refused {r : RequestInput} {msg : String} : handleRequest x cfg s r = .refuse msg → ReqStep x cfg s (.request r) s
  | standard {r : RequestInput} {h : Nat} : handleRequest x cfg s r = .standard h →
      ReqStep x cfg s (.request r) { s with reqs := s.reqs ++ [newRequest r h] }
  | proxied {r : RequestInput} {h : Nat} {rc : RouteContext} : handleRequest x cfg s r = .proxy h rc →
      ReqStep x cfg s (.request r) { s with relays := s.relays ++ [newRelay true h r.claimID r.name rc] }
  | inserted {q : Nat} {k : Request} : s.reqs[q]? = some k → k.pc = .insert →
      ReqStep x cfg s (.insert q) (insertRequest s q)
  | forwarded {q : Nat} {k : Request} : s.reqs[q]? = some k → k.pc = .forward →
      ReqStep x cfg s (.forward q true) { setReq s q .wait with wire := s.wire ++ [(k.target, k.forwardAd)] }
  | unforwarded {q : Nat} {k : Request} : s.reqs[q]? = some k → k.pc = .forward →
      ReqStep x cfg s (.forward q false) (setReq s q (.exit .forwardFailed))
  | received {q : Nat} {k : Request} {d : Delivery} : s.reqs[q]? = some k → k.pc = .wait → k.replyCh = some d →
      ReqStep x cfg s (.receive q)
        { s with reqs := s.reqs.modify q (fun k => { k with replyCh := none, pc := .exit (.relayed d) }) }
  | timedOut {q : Nat} {k : Request} : s.reqs[q]? = some k → k.pc = .wait →
      ReqStep x cfg s (.timeout q) (setReq s q (.exit .timedOut))
  | cancelled {q : Nat} {k : Request} : s.reqs[q]? = some k → k.pc = .wait →
      ReqStep x cfg s (.cancel q) (setReq s q (.exit .cancelled))
  | deleted {q : Nat} {k : Request} {r : Reply} : s.reqs[q]? = some k → k.pc = .exit r →
      ReqStep x cfg s (.delete q) { setReq s q (.returned r) with requests := s.requests.erase k.id }

/-- **Every step of a request is one of these.** -/
theorem stepReq_cases {x : Ext} {cfg : Config} {s t : State} {l : ReqLabel} (hs : stepReq x cfg s l = some t) :
    ReqStep x cfg s l t := by
  cases l with
  | request r =>
    simp only [stepReq] at hs
    split at hs <;> cases hs
    · exact .refused (by assumption)
    · exact .standard (by assumption)
    · exact .proxied (by assumption)
  | insert q =>
    simp only [stepReq] at hs
    (repeat' split at hs) <;> cases hs
    exact .inserted (by assumption) (by assumption)
  | forward q ok =>
    simp only [stepReq] at hs
    (repeat' split at hs) <;> cases hs
    · rename_i hok
      rw [hok]
      exact .forwarded (by assumption) (by assumption)
    · rename_i hok
      rw [Bool.not_eq_true] at hok
      rw [hok]
      exact .unforwarded (by assumption) (by assumption)
  | receive q =>
    simp only [stepReq] at hs
    (repeat' split at hs) <;> cases hs
    exact .received (by assumption) (by assumption) (by assumption)
  | timeout q =>
    simp only [stepReq] at hs
    (repeat' split at hs) <;> cases hs
    exact .timedOut (by assumption) (by assumption)
  | cancel q =>
    simp only [stepReq] at hs
    (repeat' split at hs) <;> cases hs
    exact .cancelled (by assumption) (by assumption)
  | delete q =>
    simp only [stepReq] at hs
    (repeat' split at hs) <;> cases hs
    exact .deleted (by assumption) (by assumption)

/-- Requests and proxy sessions leave the registration tables alone. -/
theorem tables_of_not_reg {x : Ext} {cfg : Config} {s t : State} {l : Label} (hs : step x cfg s l = some t)
    (hl : ∀ r, l ≠ .reg r) :
    t.nextID = s.nextID ∧ t.targets = s.targets ∧ t.reconnects = s.reconnects ∧ t.handlers = s.handlers ∧
      t.sweeps = s.sweeps := by
  cases l with
  | reg r => exact absurd rfl (hl r)
  | req l =>
    have hs : stepReq x cfg s l = some t := hs
    cases stepReq_cases hs <;> exact ⟨rfl, rfl, rfl, rfl, rfl⟩
  | proxy l =>
    cases l <;> simp only [step, stepProxy] at hs <;> (repeat' split at hs) <;> cases hs <;>
      first
        | exact startRelay_frame s _ _
        | exact ⟨rfl, rfl, rfl, rfl, rfl⟩

/-- **Every step, as the registration tables see it.** -/
theorem step_effect {x : Ext} {cfg : Config} {s t : State} {l : Label} (hs : step x cfg s l = some t) :
    RegEffect cfg s l t := by
  cases l with
  | reg l => exact stepReg_effect hs
  | req l | proxy l =>
    obtain ⟨hn, ht, hr, hh, -⟩ := tables_of_not_reg hs (fun r hr => by cases hr)
    exact .frame rfl hn ht hr hh

end Broker
end Ccb
