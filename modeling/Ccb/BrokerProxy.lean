import Ccb.BrokerEffect
/-!
# BrokerProxy — what one step does to the proxy sessions

`step_proxyEffect` lists the ways a step changes the session table, the `proxyRelay` calls and the hellos.
-/
namespace Ccb
namespace Broker

/-- The session is in the table: inserted, and its deferred delete still to come. -/
def RelayPc.pending : RelayPc → Bool
  | .forward | .wait | .reply _ | .splice _ | .finish | .exit => true
  | .start | .returned | .duplicate => false

/-- The session has been in the table. -/
def RelayPc.inserted : RelayPc → Bool
  | .start | .duplicate => false
  | _ => true

/-- The owner has taken nothing from `targetCh`. -/
def RelayPc.untaken : RelayPc → Bool
  | .start | .duplicate | .forward | .wait => true
  | _ => false

/-- The target connection the owner is holding. -/
def RelayPc.taken : RelayPc → Option Nat
  | .reply c | .splice c => some c
  | _ => none

def RelayPc.beforeSplice : RelayPc → Bool
  | .start | .duplicate | .forward | .wait | .reply _ => true
  | _ => false

/-- The hello has not handed its connection over. -/
def HelloPc.keeps : HelloPc → Bool
  | .lookup | .send _ | .refused => true
  | .waitDone _ | .kept => false

/-- The moves of a `proxyRelay` call that touch nothing but its program counter. -/
inductive PlainMove : RelayPc → RelayPc → Prop
  | duplicate : PlainMove .start .duplicate
  | forwarded : PlainMove .forward .wait
  | forwardFailed : PlainMove .forward .exit
  | gaveUp : PlainMove .wait .exit

/-- The proxy tables of `t` are those of `s` after the step `l`. -/
inductive ProxyEffect (s : State) (l : Label) (t : State) : Prop
  | frame : t.proxies = s.proxies → t.relays = s.relays → t.hellos = s.hellos → t.handed = s.handed →
      t.splices = s.splices → t.closed = s.closed → ProxyEffect s l t
  | newRelay (r : Relay) : r.pc = .start → r.targetCh = none → t.proxies = s.proxies → t.relays = s.relays ++ [r] →
      t.hellos = s.hellos → t.handed = s.handed → t.splices = s.splices → t.closed = s.closed → ProxyEffect s l t
  | start (k : Nat) (r : Relay) (n : UInt64) : s.relays[k]? = some r → r.pc = .start →
      s.proxies.lookup r.connectID = none → t.proxies = s.proxies.insert r.connectID k →
      t.relays = s.relays.modify k (fun r => { r with requestID := n, pc := .forward }) → t.hellos = s.hellos →
      t.handed = s.handed → t.splices = s.splices → t.closed = s.closed → ProxyEffect s l t
  | move (k : Nat) (r : Relay) (pc : RelayPc) : s.relays[k]? = some r → PlainMove r.pc pc → t.proxies = s.proxies →
      t.relays = s.relays.modify k (fun r => { r with pc := pc }) → t.hellos = s.hellos → t.handed = s.handed →
      t.splices = s.splices → t.closed = s.closed → ProxyEffect s l t
  | take (k : Nat) (r : Relay) (c : Nat) (pc : RelayPc) : s.relays[k]? = some r → r.pc = .wait → r.targetCh = some c →
      (pc = .reply c ∧ t.splices = s.splices ∨ pc = .splice c ∧ t.splices = s.splices ++ [(k, c)]) →
      t.proxies = s.proxies → t.relays = s.relays.modify k (fun r => { r with targetCh := none, pc := pc }) →
      t.hellos = s.hellos → t.handed = s.handed → t.closed = s.closed → ProxyEffect s l t
  | splice (k : Nat) (r : Relay) (c : Nat) : s.relays[k]? = some r → r.pc = .reply c → t.proxies = s.proxies →
      t.relays = s.relays.modify k (fun r => { r with pc := .splice c }) → t.hellos = s.hellos → t.handed = s.handed →
      t.splices = s.splices ++ [(k, c)] → t.closed = s.closed → ProxyEffect s l t
  | close (k : Nat) (r : Relay) (c : Nat) : s.relays[k]? = some r → r.pc.taken = some c → t.proxies = s.proxies →
      t.relays = s.relays.modify k (fun r => { r with pc := .finish }) → t.hellos = s.hellos → t.handed = s.handed →
      t.splices = s.splices → t.closed = c :: s.closed → ProxyEffect s l t
  | finish (k : Nat) (r : Relay) : s.relays[k]? = some r → r.pc = .finish → t.proxies = s.proxies →
      t.relays = s.relays.modify k (fun r => { r with done := true, pc := .exit }) → t.hellos = s.hellos →
      t.handed = s.handed → t.splices = s.splices → t.closed = s.closed → ProxyEffect s l t
  | delete (k : Nat) (r : Relay) : l = .proxy (.delete k) → s.relays[k]? = some r → r.pc = .exit →
      t.proxies = s.proxies.erase r.connectID →
      t.relays = s.relays.modify k (fun r => { r with pc := .returned }) → t.hellos = s.hellos → t.handed = s.handed →
      t.splices = s.splices → t.closed = s.closed → ProxyEffect s l t
  | hello (h : Hello) : h.pc = .lookup → t.proxies = s.proxies → t.relays = s.relays → t.hellos = s.hellos ++ [h] →
      t.handed = s.handed → t.splices = s.splices → t.closed = s.closed → ProxyEffect s l t
  | found (c : Nat) (h : Hello) (k : Nat) : s.hellos[c]? = some h → h.pc = .lookup →
      s.proxies.lookup h.claimID = some k → t.proxies = s.proxies → t.relays = s.relays →
      t.hellos = s.hellos.modify c (fun h => { h with pc := .send k }) → t.handed = s.handed →
      t.splices = s.splices → t.closed = s.closed → ProxyEffect s l t
  | refuse (c : Nat) (h : Hello) : s.hellos[c]? = some h → h.pc.keeps = true → t.proxies = s.proxies →
      t.relays = s.relays → t.hellos = s.hellos.modify c (fun h => { h with pc := .refused }) → t.handed = s.handed →
      t.splices = s.splices → t.closed = s.closed → ProxyEffect s l t
  | hand (c : Nat) (h : Hello) (k : Nat) (r : Relay) : s.hellos[c]? = some h → h.pc = .send k →
      s.relays[k]? = some r → r.targetCh = none → t.proxies = s.proxies →
      t.relays = s.relays.modify k (fun r => { r with targetCh := some c }) →
      t.hellos = s.hellos.modify c (fun h => { h with pc := .waitDone k }) → t.handed = s.handed ++ [(c, k)] →
      t.splices = s.splices → t.closed = s.closed → ProxyEffect s l t
  | leave (c : Nat) (h : Hello) (k : Nat) : s.hellos[c]? = some h → h.pc = .waitDone k → t.proxies = s.proxies →
      t.relays = s.relays → t.hellos = s.hellos.modify c (fun h => { h with pc := .kept }) → t.handed = s.handed →
      t.splices = s.splices → t.closed = s.closed → ProxyEffect s l t

theorem stepReg_proxyEffect {x : Ext} {cfg : Config} {s t : State} {l : RegLabel} (hs : stepReg x cfg s l = some t) :
    ProxyEffect s (.reg l) t := by
  have hfr : t.proxies = s.proxies ∧ t.relays = s.relays ∧ t.hellos = s.hellos ∧ t.handed = s.handed ∧
      t.splices = s.splices ∧ t.closed = s.closed := by
    cases stepReg_cases hs with
    | register r =>
      rcases handleRegister_cases x cfg s r with ⟨heq, -⟩ | ⟨ad, tgt, reused, nextID, -, heq, -⟩ <;> rw [heq] <;>
        exact ⟨rfl, rfl, rfl, rfl, rfl, rfl⟩
    | _ => exact ⟨rfl, rfl, rfl, rfl, rfl, rfl⟩
  exact .frame hfr.1 hfr.2.1 hfr.2.2.1 hfr.2.2.2.1 hfr.2.2.2.2.1 hfr.2.2.2.2.2

theorem stepReq_proxyEffect {x : Ext} {cfg : Config} {s t : State} {l : ReqLabel} (hs : stepReq x cfg s l = some t) :
    ProxyEffect s (.req l) t := by
  cases stepReq_cases hs with
  | proxied => exact .newRelay _ rfl rfl rfl rfl rfl rfl rfl rfl
  | _ => exact .frame rfl rfl rfl rfl rfl rfl

theorem startRelay_effect {s : State} {l : Label} {k : Nat} {r : Relay} (hk : s.relays[k]? = some r)
    (hpc : r.pc = .start) : ProxyEffect s l (startRelay s k r) := by
  unfold startRelay
  dsimp only
  split
  · exact .move k r .duplicate hk (by rw [hpc]; exact .duplicate) rfl rfl rfl rfl rfl rfl
  · rename_i hn
    exact .start k r _ hk hpc (by simpa using hn) rfl rfl rfl rfl rfl rfl

theorem startInboundRelay_start {cfg : Config} {s : State} {route orig : String} {cid : Option String} {r : Relay}
    (h : startInboundRelay cfg s route orig cid = some r) : r.pc = .start ∧ r.targetCh = none := by
  unfold startInboundRelay at h
  dsimp only at h
  (repeat' split at h) <;> cases h
  exact ⟨rfl, rfl⟩

theorem modify_modify (l : List Relay) (k : Nat) (f g : Relay → Relay) :
    (l.modify k f).modify k g = l.modify k (fun r => g (f r)) := by
  rw [List.modify_modify_eq]; rfl

theorem stepProxy_proxyEffect {cfg : Config} {s t : State} {l : ProxyLabel} (hs : stepProxy cfg s l = some t) :
    ProxyEffect s (.proxy l) t := by
  cases l with
  | inbound route orig cid =>
    simp only [stepProxy] at hs
    split at hs
    · cases hs; exact .frame rfl rfl rfl rfl rfl rfl
    · rename_i r hr
      cases hs
      obtain ⟨h1, h2⟩ := startInboundRelay_start hr
      exact .newRelay r h1 h2 rfl rfl rfl rfl rfl rfl
  | start k =>
    simp only [stepProxy] at hs
    (repeat' split at hs) <;> cases hs
    rename_i r hk hpc
    exact startRelay_effect hk hpc
  | forward k ok =>
    simp only [stepProxy] at hs
    (repeat' split at hs) <;> cases hs
    · rename_i r hk hpc _
      exact .move k r .wait hk (by rw [hpc]; exact .forwarded) rfl rfl rfl rfl rfl rfl
    · rename_i r hk hpc _
      exact .move k r .exit hk (by rw [hpc]; exact .forwardFailed) rfl rfl rfl rfl rfl rfl
  | receive k =>
    simp only [stepProxy] at hs
    split at hs
    · rename_i r hk
      split at hs
      · rename_i c hpc hch
        cases hs
        split
        · exact .take k r c (.reply c) hk hpc hch (Or.inl ⟨rfl, rfl⟩) rfl (modify_modify ..) rfl rfl rfl
        · exact .take k r c (.splice c) hk hpc hch (Or.inr ⟨rfl, rfl⟩) rfl (modify_modify ..) rfl rfl rfl
      · cases hs
    · cases hs
  | timeout k =>
    simp only [stepProxy] at hs
    (repeat' split at hs) <;> cases hs
    rename_i r hk hpc
    exact .move k r .exit hk (by rw [hpc]; exact .gaveUp) rfl rfl rfl rfl rfl rfl
  | cancel k =>
    simp only [stepProxy] at hs
    (repeat' split at hs) <;> cases hs
    rename_i r hk hpc
    exact .move k r .exit hk (by rw [hpc]; exact .gaveUp) rfl rfl rfl rfl rfl rfl
  | replied k ok =>
    simp only [stepProxy] at hs
    (repeat' split at hs) <;> cases hs
    · rename_i r hk _ c hpc _
      exact .splice k r c hk hpc rfl rfl rfl rfl rfl rfl
    · rename_i r hk _ c hpc _
      exact .close k r c hk (by rw [hpc]; rfl) rfl rfl rfl rfl rfl rfl
  | spliceEnd k =>
    simp only [stepProxy] at hs
    (repeat' split at hs) <;> cases hs
    rename_i r hk _ c hpc
    exact .close k r c hk (by rw [hpc]; rfl) rfl rfl rfl rfl rfl rfl
  | finish k =>
    simp only [stepProxy] at hs
    (repeat' split at hs) <;> cases hs
    rename_i r hk hpc
    exact .finish k r hk hpc rfl rfl rfl rfl rfl rfl
  | delete k =>
    simp only [stepProxy] at hs
    (repeat' split at hs) <;> cases hs
    rename_i r hk hpc
    exact .delete k r rfl hk hpc rfl rfl rfl rfl rfl rfl
  | hello claimID =>
    simp only [stepProxy, Option.some.injEq] at hs
    subst hs
    exact .hello _ rfl rfl rfl rfl rfl rfl rfl
  | lookup c =>
    simp only [stepProxy] at hs
    (repeat' split at hs) <;> cases hs
    · rename_i h hc hpc _ k hk
      exact .found c h k hc hpc hk rfl rfl rfl rfl rfl rfl
    · rename_i h hc hpc _ hk
      exact .refuse c h hc (by rw [hpc]; rfl) rfl rfl rfl rfl rfl rfl
  | send c =>
    simp only [stepProxy] at hs
    (repeat' split at hs) <;> cases hs
    · rename_i h hc _ k hpc _ r hk _ _ hch
      exact .refuse c h hc (by rw [hpc]; rfl) rfl rfl rfl rfl rfl rfl
    · rename_i h hc _ k hpc _ r hk _ hch
      exact .hand c h k r hc hpc hk hch rfl rfl rfl rfl rfl rfl
  | helloDone c =>
    simp only [stepProxy] at hs
    (repeat' split at hs) <;> cases hs
    rename_i h hc _ k hpc _ r hk hd
    exact .leave c h k hc hpc rfl rfl rfl rfl rfl rfl
  | helloCancel c =>
    simp only [stepProxy] at hs
    (repeat' split at hs) <;> cases hs
    rename_i h hc _ k hpc
    exact .leave c h k hc hpc rfl rfl rfl rfl rfl rfl

/-- **Every step, as the proxy sessions see it.** -/
theorem step_proxyEffect {x : Ext} {cfg : Config} {s t : State} {l : Label} (hs : step x cfg s l = some t) :
    ProxyEffect s l t := by
  cases l with
  | reg l => exact stepReg_proxyEffect hs
  | req l => exact stepReq_proxyEffect hs
  | proxy l => exact stepProxy_proxyEffect hs

end Broker
end Ccb
