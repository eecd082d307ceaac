import Ccb.BrokerRoute
import Ccb.BrokerProxyInv
/-!
# BrokerRendezvous — the proxy sessions over whole runs

`rendezvous_safe`: whatever the order of requests, relay hops, hellos and exits, one pending session per connect id is
in the table, a session splices at most one connection, whose hello carried the session's connect id, and a hello's
connection goes to one session.  What is not true is that nothing is left behind: `orphaned_hello` is a run in which a
hello delivers into a session whose owner has timed out.  In every run whose sessions return with an empty channel and
no hello still about to send, nothing is (`no_orphan_of_clean_returns`).
-/
namespace Ccb
namespace Broker

open Machine (run Meets)

/-! ## Rendezvous safety -/

/-- What the rendezvous promises at a state, and of the steps taken from it. -/
structure Rendezvous (x : Ext) (cfg : Config) (s : State) : Prop where
  /-- The table holds exactly the sessions between their insert and their deferred delete, each under its connect id. -/
  table : ∀ id k, s.proxies.lookup id = some k ↔
    ∃ r, s.relays[k]? = some r ∧ r.connectID = id ∧ r.pc.pending = true
  /-- One pending session per connect id. -/
  onePending : ∀ (j k : Nat) rj rk, s.relays[j]? = some rj → s.relays[k]? = some rk → rj.pc.pending = true →
    rk.pc.pending = true → rj.connectID = rk.connectID → j = k
  /-- No session appears twice among the splices. -/
  spliceOnce : (s.splices.map Prod.fst).Nodup
  /-- A spliced connection was handed to that session, by a hello with its connect id. -/
  spliceOwn : ∀ k c, (k, c) ∈ s.splices → (c, k) ∈ s.handed ∧
    ∃ r h, s.relays[k]? = some r ∧ s.hellos[c]? = some h ∧ h.claimID = r.connectID
  /-- No hello appears twice among the hand-offs. -/
  handOnce : (s.handed.map Prod.fst).Nodup
  /-- A duplicate connect id touches neither the table nor any other session. -/
  duplicate : ∀ k r t, s.relays[k]? = some r → step x cfg s (.proxy (.start k)) = some t →
    (s.proxies.lookup r.connectID).isSome = true →
      t.relays[k]? = some { r with pc := .duplicate } ∧ t.proxies = s.proxies ∧ t.hellos = s.hellos ∧
        ∀ j, j ≠ k → t.relays[j]? = s.relays[j]?
  /-- A handler's exit takes its own session out of the table, and nothing else. -/
  exit : ∀ k t, step x cfg s (.proxy (.delete k)) = some t →
    (∃ r, s.relays[k]? = some r ∧ s.proxies.lookup r.connectID = some k) ∧
      (∀ id j, t.proxies.lookup id = some j ↔ s.proxies.lookup id = some j ∧ j ≠ k) ∧
      ∀ j, j ≠ k → t.relays[j]? = s.relays[j]?
  /-- Nothing but its own handler's exit takes a session out of the table. -/
  onlyExit : ∀ l t id k, step x cfg s l = some t → s.proxies.lookup id = some k → t.proxies.lookup id ≠ some k →
    l = .proxy (.delete k)

theorem ProxyInv.onePending {s : State} (hi : ProxyInv s) {j k : Nat} {rj rk : Relay} (hj : s.relays[j]? = some rj)
    (hk : s.relays[k]? = some rk) (hpj : rj.pc.pending = true) (hpk : rk.pc.pending = true)
    (hid : rj.connectID = rk.connectID) : j = k := by
  have h1 := (hi.table rj.connectID j).2 ⟨rj, hj, rfl, hpj⟩
  have h2 := (hi.table rj.connectID k).2 ⟨rk, hk, hid.symm, hpk⟩
  rw [h1] at h2
  exact Option.some.inj h2

theorem start_duplicate {x : Ext} {cfg : Config} {s t : State} {k : Nat} {r : Relay} (hk : s.relays[k]? = some r)
    (hs : step x cfg s (.proxy (.start k)) = some t) (hd : (s.proxies.lookup r.connectID).isSome = true) :
    t.relays[k]? = some { r with pc := .duplicate } ∧ t.proxies = s.proxies ∧ t.hellos = s.hellos ∧
      ∀ j, j ≠ k → t.relays[j]? = s.relays[j]? := by
  simp only [step, stepProxy, hk] at hs
  split at hs
  · cases hs
    unfold startRelay
    dsimp only
    rw [if_pos hd]
    refine ⟨by simp [setRelay, hk], rfl, rfl, fun j hj => ?_⟩
    exact List.getElem?_modify_ne _ _ (Ne.symm hj)
  · cases hs

theorem ProxyInv.exit {x : Ext} {cfg : Config} {s t : State} {k : Nat} (hi : ProxyInv s)
    (hs : Broker.step x cfg s (.proxy (.delete k)) = some t) :
    (∃ r, s.relays[k]? = some r ∧ s.proxies.lookup r.connectID = some k) ∧
      (∀ id j, t.proxies.lookup id = some j ↔ s.proxies.lookup id = some j ∧ j ≠ k) ∧
      ∀ j, j ≠ k → t.relays[j]? = s.relays[j]? := by
  simp only [Broker.step, stepProxy] at hs
  (repeat' split at hs) <;> cases hs
  rename_i r hk hpc
  have hown : s.proxies.lookup r.connectID = some k := (hi.table _ _).2 ⟨r, hk, rfl, by rw [hpc]; rfl⟩
  refine ⟨⟨r, hk, hown⟩, fun id j => ?_, fun j hj => List.getElem?_modify_ne _ _ (Ne.symm hj)⟩
  dsimp only
  by_cases hid : id = r.connectID
  · subst hid
    rw [AList.lookup_erase, hown]
    constructor
    · rintro ⟨⟩
    · rintro ⟨hj, hne⟩
      exact absurd (Option.some.inj hj).symm hne
  · rw [AList.lookup_erase_ne hid]
    refine ⟨fun hj => ⟨hj, ?_⟩, And.left⟩
    rintro rfl
    obtain ⟨r', hr', hid', -⟩ := (hi.table _ _).1 hj
    rw [hk] at hr'
    cases hr'
    exact hid hid'.symm

theorem ProxyInv.onlyExit {x : Ext} {cfg : Config} {s t : State} {l : Label} {id : String} {k : Nat} (hi : ProxyInv s)
    (hs : Broker.step x cfg s l = some t) (hk : s.proxies.lookup id = some k) (hgone : t.proxies.lookup id ≠ some k) :
    l = .proxy (.delete k) := by
  have hkept : t.proxies ≠ s.proxies := fun h => hgone (h ▸ hk)
  cases step_proxyEffect hs with
  | start j r n hj hpc hf h1 =>
    rw [h1] at hgone
    by_cases he : id = r.connectID
    · subst he
      rw [hf] at hk; cases hk
    · rw [AList.lookup_insert_ne he] at hgone
      exact absurd hk hgone
  | delete j r hl hj hpc h1 =>
    rw [h1] at hgone
    by_cases he : id = r.connectID
    · subst he
      have hown : s.proxies.lookup r.connectID = some j := (hi.table _ _).2 ⟨r, hj, rfl, by rw [hpc]; rfl⟩
      rw [hown] at hk
      cases hk
      exact hl
    · rw [AList.lookup_erase_ne he] at hgone
      exact absurd hk hgone
  | frame h1 => exact absurd h1 hkept
  | newRelay _ _ _ h1 => exact absurd h1 hkept
  | move _ _ _ _ _ h1 => exact absurd h1 hkept
  | take _ _ _ _ _ _ _ _ h1 => exact absurd h1 hkept
  | splice _ _ _ _ _ h1 => exact absurd h1 hkept
  | close _ _ _ _ _ h1 => exact absurd h1 hkept
  | finish _ _ _ _ h1 => exact absurd h1 hkept
  | hello _ _ h1 => exact absurd h1 hkept
  | found _ _ _ _ _ _ h1 => exact absurd h1 hkept
  | refuse _ _ _ _ h1 => exact absurd h1 hkept
  | hand _ _ _ _ _ _ _ _ h1 => exact absurd h1 hkept
  | leave _ _ _ _ _ h1 => exact absurd h1 hkept

/-- **The rendezvous is safe at every state of every run.** -/
theorem rendezvous_safe (x : Ext) (cfg : Config) (ls : List Label) (s : State)
    (hr : run (step x cfg) State.init ls = some s) : Rendezvous x cfg s := by
  have hi := proxyInv_of_run hr
  exact
    { table      := hi.table
      onePending := fun _ _ _ _ hj hk hpj hpk hid => hi.onePending hj hk hpj hpk hid
      spliceOnce := hi.splicedOnce
      spliceOwn  := fun _ _ hkc => hi.spliceOwn hkc
      handOnce   := hi.handedOnce
      duplicate  := fun _ _ _ hk hs hd => start_duplicate hk hs hd
      exit       := fun _ _ hs => hi.exit hs
      onlyExit   := fun _ _ _ _ hs hk hg => hi.onlyExit hs hk hg }

/-- A target registers as CCBID 1 and a requester asks to be proxied to it: session 0 waits for the hello. -/
def proxyPending : List Label :=
  [.reg (.register ⟨"10.0.0.7:4000", "condor@pool", some ⟨"startd", "", ""⟩, some "c1", 10⟩), .reg (.put 0),
   .reg (.replied 0 true),
   .req (.request ⟨"10.0.0.9:5000", "alice@pool", "1", "secret", "<10.0.0.9:5001>", "tool", true, ""⟩),
   .proxy (.start 0), .proxy (.forward 0 true)]

/-- The target's hello arrives and is spliced, and the handler returns when the splice has ended. -/
def proxyServed : List Label :=
  [.proxy (.hello "secret"), .proxy (.lookup 0), .proxy (.send 0), .proxy (.receive 0), .proxy (.replied 0 true),
   .proxy (.spliceEnd 0), .proxy (.finish 0), .proxy (.delete 0)]

theorem rendezvous_safe_served :
    ∃ s, run (step splitExt plainConfig) State.init (proxyPending ++ proxyServed) = some s ∧ s.splices = [(0, 0)] ∧
      Rendezvous splitExt plainConfig s := by
  obtain ⟨s, hs⟩ : ∃ s, run (step splitExt plainConfig) State.init (proxyPending ++ proxyServed) = some s := ⟨_, rfl⟩
  have hsp : (run (step splitExt plainConfig) State.init (proxyPending ++ proxyServed)).map (·.splices) =
      some [(0, 0)] := by decide
  simp only [hs, Option.map_some, Option.some.injEq] at hsp
  exact ⟨s, hs, hsp, rendezvous_safe splitExt plainConfig _ s hs⟩

/-! ## What a returned handler leaves behind -/

/-- `proxyRelay` has returned. -/
def RelayPc.ended : RelayPc → Bool
  | .returned | .duplicate => true
  | _ => false

/-- Once `proxyRelay` has returned, each connection handed to its session was spliced or closed, and no hello is still
waiting for the session's `done`. -/
def NoOrphan (s : State) : Prop :=
  ∀ (k : Nat) r, s.relays[k]? = some r → r.pc.ended = true →
    (∀ c, (c, k) ∈ s.handed → (k, c) ∈ s.splices ∨ c ∈ s.closed) ∧
    ∀ (c : Nat) h, s.hellos[c]? = some h → h.pc = .waitDone k → r.done = true

/-- A handler returns with its slot empty and no hello between its lookup and its send. -/
def CleanReturn (s : State) : Label → Prop
  | .proxy (.delete k) => (s.relays[k]?).bind Relay.targetCh = none ∧ ∀ h ∈ s.hellos, h.pc ≠ .send k
  | _ => True

instance (s : State) : ∀ l, Decidable (CleanReturn s l)
  | .proxy (.delete k) =>
    inferInstanceAs (Decidable ((s.relays[k]?).bind Relay.targetCh = none ∧ ∀ h ∈ s.hellos, h.pc ≠ .send k))
  | .reg _ | .req _ => .isTrue trivial
  | .proxy (.inbound ..) | .proxy (.start _) | .proxy (.forward ..) | .proxy (.receive _) | .proxy (.timeout _)
  | .proxy (.cancel _) | .proxy (.replied ..) | .proxy (.spliceEnd _) | .proxy (.finish _) | .proxy (.hello _)
  | .proxy (.lookup _) | .proxy (.send _) | .proxy (.helloDone _) | .proxy (.helloCancel _) => .isTrue trivial

/-- No returned session has a connection in its slot or a hello about to send to it. -/
def Drained (s : State) : Prop :=
  ∀ (k : Nat) r, s.relays[k]? = some r → r.pc = .returned →
    r.targetCh = none ∧ ∀ (c : Nat) h, s.hellos[c]? = some h → h.pc ≠ .send k

theorem noOrphan_of_drained {s : State} (hi : ProxyInv s) (hd : Drained s) : NoOrphan s := by
  intro k r hk hend
  have ok := hi.relay k r hk
  rcases hpc : r.pc with _ | _ | _ | _ | _ | _ | _ | _ | _ <;> rw [hpc] at hend <;> try cases hend
  · obtain ⟨hch, -⟩ := hd k r hk hpc
    refine ⟨fun c hc => ?_, fun c h hh hw => ?_⟩
    · rcases ok.place c hc with h | h | h
      · rw [hch] at h; cases h
      · rw [hpc] at h; cases h
      · exact Or.inr h
    · by_contra hdone
      have := ok.untaken (Or.inr ⟨by simpa using hdone, Or.inr hpc⟩) c (hi.waiting c h k hh hw)
      rw [hch] at this; cases this
  · -- A refused duplicate has never been in the table, so no hello has found it.
    have hnone : ∀ c, (c, k) ∉ s.handed := by
      intro c hc
      obtain ⟨_, -, r', hr', -, hin⟩ := hi.handed c k hc
      rw [hk] at hr'
      cases hr'
      rw [hpc] at hin; cases hin
    exact ⟨fun c hc => absurd hc (hnone c), fun c h hh hw => absurd (hi.waiting c h k hh hw) (hnone c)⟩

/-- A step after which every returned session had returned before, and every hello about to send was about to before
or is not sending to a returned one. -/
theorem Drained.mono {s t : State} (hd : Drained s)
    (hrel : ∀ (k : Nat) r, t.relays[k]? = some r → r.pc = .returned → s.relays[k]? = some r)
    (hhel : ∀ (c : Nat) h k, t.hellos[c]? = some h → h.pc = .send k →
      s.hellos[c]? = some h ∨ ∀ r, s.relays[k]? = some r → r.pc ≠ .returned) : Drained t := by
  intro k r hk hpc
  have hk' := hrel k r hk hpc
  obtain ⟨hch, hsend⟩ := hd k r hk' hpc
  refine ⟨hch, fun c h hc hp => ?_⟩
  rcases hhel c h k hc hp with hc | hc
  · exact hsend c h hc hp
  · exact hc r hk' hpc

theorem modify_returned {s : State} {k : Nat} {r : Relay} {f : Relay → Relay} (hk : s.relays[k]? = some r)
    (hf : (f r).pc ≠ .returned) (j : Nat) (r' : Relay) (hj : (s.relays.modify k f)[j]? = some r')
    (hpc : r'.pc = .returned) : s.relays[j]? = some r' := by
  rcases getElem?_modify_some hj with ⟨rfl, b, hb, rfl⟩ | ⟨-, hj⟩
  · rw [hk] at hb
    cases hb
    exact absurd hpc hf
  · exact hj

theorem modifyHello_send {s : State} {c : Nat} {h : Hello} {pc : HelloPc} (hc : s.hellos[c]? = some h)
    (hpc : ∀ k, pc = .send k → ∀ r, s.relays[k]? = some r → r.pc ≠ .returned) (d : Nat) (h' : Hello) (k : Nat)
    (hd : (s.hellos.modify c (fun h => { h with pc := pc }))[d]? = some h') (hp : h'.pc = .send k) :
    s.hellos[d]? = some h' ∨ ∀ r, s.relays[k]? = some r → r.pc ≠ .returned := by
  rcases getElem?_modify_some hd with ⟨rfl, b, hb, rfl⟩ | ⟨-, hd⟩
  · rw [hc] at hb
    cases hb
    exact Or.inr (hpc k hp)
  · exact Or.inl hd

/-- **A step that returns cleanly leaves every returned session drained.** -/
theorem Drained.step {x : Ext} {cfg : Config} {s t : State} {l : Label} (hi : ProxyInv s) (hd : Drained s)
    (hg : CleanReturn s l) (hs : step x cfg s l = some t) : Drained t := by
  cases step_proxyEffect hs with
  | frame _ h2 h3 => exact hd.mono (fun k r hk _ => h2 ▸ hk) (fun c h k hc _ => Or.inl (h3 ▸ hc))
  | newRelay r hpc _ _ h2 h3 =>
    refine hd.mono (fun k r' hk hp => ?_) (fun c h k hc _ => Or.inl (h3 ▸ hc))
    rw [h2] at hk
    rcases getElem?_concat_some hk with hk | ⟨-, rfl⟩
    · exact hk
    · rw [hpc] at hp; cases hp
  | start k r n hk _ _ _ h2 h3 =>
    exact hd.mono (fun j r' hj hp => modify_returned hk (fun h => by cases h) j r' (h2 ▸ hj) hp)
      (fun c h k hc _ => Or.inl (h3 ▸ hc))
  | move k r pc hk hm _ h2 h3 =>
    have hpc : pc ≠ .returned := by
      generalize r.pc = p at hm
      cases hm <;> decide
    exact hd.mono (fun j r' hj hp => modify_returned hk hpc j r' (h2 ▸ hj) hp) (fun c h k hc _ => Or.inl (h3 ▸ hc))
  | take k r c pc hk _ _ hn _ h2 h3 =>
    have hpc : pc ≠ .returned := by rcases hn with ⟨rfl, -⟩ | ⟨rfl, -⟩ <;> nofun
    exact hd.mono (fun j r' hj hp => modify_returned hk hpc j r' (h2 ▸ hj) hp) (fun c h k hc _ => Or.inl (h3 ▸ hc))
  | splice k r c hk _ _ h2 h3 =>
    exact hd.mono (fun j r' hj hp => modify_returned hk (fun h => by cases h) j r' (h2 ▸ hj) hp)
      (fun c h k hc _ => Or.inl (h3 ▸ hc))
  | close k r c hk _ _ h2 h3 =>
    exact hd.mono (fun j r' hj hp => modify_returned hk (fun h => by cases h) j r' (h2 ▸ hj) hp)
      (fun c h k hc _ => Or.inl (h3 ▸ hc))
  | finish k r hk _ _ h2 h3 =>
    exact hd.mono (fun j r' hj hp => modify_returned hk (fun h => by cases h) j r' (h2 ▸ hj) hp)
      (fun c h k hc _ => Or.inl (h3 ▸ hc))
  | delete k r hl hk _ _ h2 h3 =>
    subst hl
    intro j r' hj hp
    rw [h2] at hj
    rw [h3]
    rcases getElem?_modify_some hj with ⟨rfl, b, hb, rfl⟩ | ⟨-, hj⟩
    · obtain ⟨hch, hsend⟩ := hg
      rw [hb, Option.bind_some] at hch
      exact ⟨hch, fun c h hc => hsend h (List.mem_of_getElem? hc)⟩
    · exact hd j r' hj hp
  | hello h hpc _ h2 h3 =>
    refine hd.mono (fun k r hk _ => h2 ▸ hk) (fun c h' k hc hp => ?_)
    rw [h3] at hc
    rcases getElem?_concat_some hc with hc | ⟨-, rfl⟩
    · exact Or.inl hc
    · rw [hpc] at hp; cases hp
  | found c h k hc _ hk _ h2 h3 =>
    refine hd.mono (fun j r hj _ => h2 ▸ hj) (fun d h' j hd' hp => modifyHello_send hc ?_ d h' j (h3 ▸ hd') hp)
    rintro j hj r hr hret
    cases hj
    obtain ⟨r', hr', -, hpend⟩ := (hi.table _ _).1 hk
    rw [hr] at hr'
    cases hr'
    rw [hret] at hpend; cases hpend
  | refuse c h hc _ _ h2 h3 =>
    exact hd.mono (fun j r hj _ => h2 ▸ hj)
      (fun d h' j hd' hp => modifyHello_send hc (fun _ hj => by cases hj) d h' j (h3 ▸ hd') hp)
  | leave c h k hc _ _ h2 h3 =>
    exact hd.mono (fun j r hj _ => h2 ▸ hj)
      (fun d h' j hd' hp => modifyHello_send hc (fun _ hj => by cases hj) d h' j (h3 ▸ hd') hp)
  | hand c h k r hc hpc hk _ _ h2 h3 =>
    have hlive : r.pc ≠ .returned := fun hret => (hd k r hk hret).2 c h hc hpc
    exact hd.mono (fun j r' hj hp => modify_returned hk hlive j r' (h2 ▸ hj) hp)
      (fun d h' j hd' hp => modifyHello_send hc (fun _ hj => by cases hj) d h' j (h3 ▸ hd') hp)

/-- **In every run whose handlers return cleanly, nothing is orphaned at any state it reaches.** -/
theorem no_orphan_of_clean_returns (x : Ext) (cfg : Config) (ls : List Label) (s : State)
    (hm : Meets (step x cfg) CleanReturn State.init ls) (hr : run (step x cfg) State.init ls = some s) :
    NoOrphan s := by
  have hinv : ProxyInv s ∧ Drained s := by
    refine Machine.inv_of_meets (I := fun s => ProxyInv s ∧ Drained s) (fun s a t hi hg hs => ?_) ls State.init s
      ⟨ProxyInv.init, fun k r hk => by simp [State.init] at hk⟩ hm hr
    exact ⟨hi.1.step hs, hi.2.step hi.1 hg hs⟩
  exact noOrphan_of_drained hinv.1 hinv.2

/-- The served session returns cleanly: its hello was spliced, and nobody is left waiting. -/
theorem no_orphan_of_clean_returns_served :
    ∃ s, run (step splitExt plainConfig) State.init (proxyPending ++ proxyServed) = some s ∧
      (s.relays.map (fun r => r.pc.ended)) = [true] ∧ s.handed = [(0, 0)] ∧ NoOrphan s := by
  obtain ⟨s, hs⟩ : ∃ s, run (step splitExt plainConfig) State.init (proxyPending ++ proxyServed) = some s := ⟨_, rfl⟩
  have hend : (run (step splitExt plainConfig) State.init (proxyPending ++ proxyServed)).map
      (fun s => s.relays.map (fun r => r.pc.ended)) = some [true] := by decide
  have hhd : (run (step splitExt plainConfig) State.init (proxyPending ++ proxyServed)).map (·.handed) =
      some [(0, 0)] := by decide
  simp only [hs, Option.map_some, Option.some.injEq] at hend hhd
  exact ⟨s, hs, hend, hhd, no_orphan_of_clean_returns splitExt plainConfig _ s (by decide) hs⟩

/-- The hello looks the session up; its owner times out and returns; then the hello sends. -/
def proxyOvertaken : List Label :=
  [.proxy (.hello "secret"), .proxy (.lookup 0), .proxy (.timeout 0), .proxy (.delete 0), .proxy (.send 0)]

/-- **A hello delivers into a session whose owner has timed out**: its connection is neither spliced nor closed, and it
waits for a `done` that nobody will close. -/
theorem orphaned_hello :
    ∃ s, run (step splitExt plainConfig) State.init (proxyPending ++ proxyOvertaken) = some s ∧
      (s.relays.map (fun r => (r.pc, r.targetCh, r.done))) = [(.returned, some 0, false)] ∧
      (s.hellos.map Hello.pc) = [.waitDone 0] ∧ s.splices = [] ∧ s.closed = [] ∧ ¬ NoOrphan s := by
  obtain ⟨s, hs⟩ : ∃ s, run (step splitExt plainConfig) State.init (proxyPending ++ proxyOvertaken) = some s :=
    ⟨_, rfl⟩
  have hrel : (run (step splitExt plainConfig) State.init (proxyPending ++ proxyOvertaken)).map
      (fun s => s.relays.map (fun r => (r.pc, r.targetCh, r.done))) = some [(.returned, some 0, false)] := by decide
  have hhel : (run (step splitExt plainConfig) State.init (proxyPending ++ proxyOvertaken)).map
      (fun s => s.hellos.map Hello.pc) = some [.waitDone 0] := by decide
  have hhist : (run (step splitExt plainConfig) State.init (proxyPending ++ proxyOvertaken)).map
      (fun s => (s.handed, s.splices, s.closed)) = some ([(0, 0)], [], []) := by decide
  simp only [hs, Option.map_some, Option.some.injEq, Prod.mk.injEq] at hrel hhel hhist
  obtain ⟨hhd, hsp, hcl⟩ := hhist
  refine ⟨s, hs, hrel, hhel, hsp, hcl, fun hno => ?_⟩
  obtain ⟨r, hr⟩ : ∃ r, s.relays = [r] := List.length_eq_one_iff.1 (by simpa using congrArg List.length hrel)
  rw [hr] at hrel
  simp only [List.map_cons, List.map_nil, List.cons.injEq, Prod.mk.injEq, and_true] at hrel
  have := (hno 0 r (by rw [hr]; rfl) (by rw [hrel.1]; rfl)).1 0 (by rw [hhd]; exact List.mem_cons_self)
  rw [hsp, hcl] at this
  rcases this with h | h <;> cases h

end Broker
end Ccb
