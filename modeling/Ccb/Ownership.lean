import Ccb.Flushed
/-!
# Ownership — who a CCBID belongs to

A credential is a CCBID with a cookie: a record's, a stored one's, a handler's, or one of the history.  A step makes no
credential for a CCBID that has one, only for the counter's next value, which is above all of them; so a CCBID has one
cookie for as long as it has a record, through disconnects, sweeps, crashes and restarts (`ccbid_ownership`).
-/
namespace Ccb
namespace Flushed

open Machine (run Meets)
open Broker (ReconnectRecord StoreOp Handler Config Ext RegisterInput RegisterAd)

/-- A CCBID and a cookie somebody holds. -/
inductive Cred (s : State) (id : UInt64) : String → Prop
  | record {b : Broker.State} {r : ReconnectRecord} :
      s.up = some b → b.reconnects.lookup id = some r → Cred s id r.cookie
  | stored {r : ReconnectRecord} : s.recs.lookup id = some r → Cred s id r.cookie
  | handler {b : Broker.State} {n : Nat} {k : Handler} : s.up = some b → b.handlers[n]? = some k → k.target.id = id →
      Cred s id k.target.cookie
  | held {c : String} : (id, c) ∈ s.held → Cred s id c

/-- CCBIDs are handed out below this. -/
def idLimit : Nat := UInt64.size - 100

/-- What the tables, the handlers and the store say of one another. -/
structure OwnInv (cfg : Config) (s : State) : Prop where
  keyed   : ∀ b, s.up = some b → ∀ id r, b.reconnects.lookup id = some r → r.ccbid = id
  stored  : ∀ id r, s.recs.lookup id = some r → r.ccbid = id
  pending : ∀ b, s.up = some b → ∀ (n : Nat) (k : Handler) r, b.handlers[n]? = some k → Flushed.pending k.pc = some r →
    r.ccbid = k.target.id ∧ r.cookie = k.target.cookie
  live    : ∀ b, s.up = some b → ∀ id h, b.targets.lookup id = some h →
    ∃ k, b.handlers[h]? = some k ∧ k.target.id = id
  agree   : ∀ id c c', Cred s id c → Cred s id c' → c = c'
  bounded : ∀ b, s.up = some b → ∀ id c, Cred s id c → id.toNat ≤ b.nextID.toNat
  below   : ∀ id c, Cred s id c → id.toNat < idLimit
  noStore : cfg.reconnectStore = false → s.recs = ∅
  known   : ∀ e ∈ s.held, s.known e.1 = true

/-- A step that takes a CCBID from the counter takes one below the limit. -/
def Below (x : Ext) (cfg : Config) (s : State) : Label → Prop
  | .broker l => ∀ b ∈ s.up, ∀ b' ∈ Broker.step x cfg b l, b'.nextID ≠ b.nextID → b.nextID.toNat + 1 < idLimit
  | .crash | .restart _ => True

section
variable {x : Ext} {cfg : Config} {stamp : Int → Int} {s t : State} {b b' : Broker.State}

theorem mem_settle_held {e : UInt64 × String} : e ∈ s.settle.held ↔ e ∈ s.held ∧ s.known e.1 = true :=
  List.mem_filter

/-- Settling makes no credential. -/
theorem Cred.of_settle {id : UInt64} {c : String} (h : Cred s.settle id c) : Cred s id c := by
  cases h with
  | record hup hr => exact .record hup hr
  | stored hr => exact .stored hr
  | handler hup hk hid => exact .handler hup hk hid
  | held hm => exact .held (mem_settle_held.1 hm).1

theorem Cred.of_record {id : UInt64} {r : ReconnectRecord} (h : s.record id = some r) : Cred s id r.cookie := by
  unfold State.record at h
  split at h
  · rename_i b hup
    exact .record hup h
  · exact .stored h

/-! ## A broker step -/

theorem lookup_stampRecord {m : GoMap UInt64 ReconnectRecord} {id i : UInt64} {now : Int} {r : ReconnectRecord}
    (h : (Broker.stampRecord m id now).lookup i = some r) :
    ∃ r₀, m.lookup i = some r₀ ∧ r₀.cookie = r.cookie ∧ r₀.ccbid = r.ccbid := by
  unfold Broker.stampRecord at h
  split at h
  · exact ⟨r, h, rfl, rfl⟩
  · rename_i r₀ hr₀
    by_cases hi : i = id
    · subst hi
      rw [AList.lookup_insert, Option.some.injEq] at h
      subst h
      exact ⟨r₀, hr₀, rfl, rfl⟩
    · rw [AList.lookup_insert_ne hi] at h
      exact ⟨r, h, rfl, rfl⟩

theorem getElem?_modify_target {l : List Handler} {h n : Nat} {pc : Broker.RegPc} {k : Handler}
    (hk : (l.modify h (fun k => { k with pc := pc }))[n]? = some k) : ∃ k₀, l[n]? = some k₀ ∧ k₀.target = k.target := by
  rw [List.getElem?_modify] at hk
  obtain ⟨k₀, hk₀, rfl⟩ := Option.map_eq_some_iff.1 hk
  refine ⟨k₀, hk₀, ?_⟩
  split <;> rfl

/-- The registration a step makes. -/
structure Registers (b b' : Broker.State) (k : Handler) : Prop where
  handlers : b'.handlers = b.handlers ++ [k]
  assigned : Broker.Assigned b k.target k.reused b'.nextID

/-- **A handler after a step was there before it, or is the step's registration.** -/
theorem handlers_step {l : Broker.Label} (hs : Broker.step x cfg b l = some b') {n : Nat} {k : Handler}
    (hk : b'.handlers[n]? = some k) : (∃ k₀, b.handlers[n]? = some k₀ ∧ k₀.target = k.target) ∨ Registers b b' k := by
  cases Broker.step_effect hs with
  | frame _ _ _ _ hh | sweep _ _ _ _ _ hh =>
    rw [hh] at hk
    exact Or.inl ⟨k, hk, rfl⟩
  | move _ _ _ _ _ _ hh _ | remove _ _ _ _ _ _ _ _ _ _ _ hh =>
    rw [hh] at hk
    exact Or.inl (getElem?_modify_target hk)
  | insert tgt reused rec _ ha _ _ hh _ _ =>
    rw [hh] at hk
    rcases getElem?_concat_some hk with hk | ⟨-, rfl⟩
    · exact Or.inl ⟨k, hk, rfl⟩
    · exact Or.inr ⟨hh, ha⟩

/-- **A record after a step has the cookie it had, or is that of the step's registration.** -/
theorem record_step {l : Broker.Label} (hs : Broker.step x cfg b l = some b') {id : UInt64} {r : ReconnectRecord}
    (hr : b'.reconnects.lookup id = some r) :
    (∃ r₀, b.reconnects.lookup id = some r₀ ∧ r₀.cookie = r.cookie ∧ r₀.ccbid = r.ccbid) ∨
      ∃ k, Registers b b' k ∧ k.target.id = id ∧ k.target.cookie = r.cookie ∧ r.ccbid = id := by
  cases Broker.step_effect hs with
  | frame _ _ _ hrc _ | move _ _ _ _ _ hrc _ _ =>
    rw [hrc] at hr
    exact Or.inl ⟨r, hr, rfl, rfl⟩
  | remove _ _ _ _ _ _ _ _ _ _ hrc _ =>
    rw [hrc] at hr
    exact Or.inl (lookup_stampRecord hr)
  | sweep _ _ _ _ hrc _ =>
    rw [hrc, Broker.lookup_foldl_erase] at hr
    split at hr
    · cases hr
    · exact Or.inl ⟨r, hr, rfl, rfl⟩
  | insert tgt reused rec _ ha _ hrc hh hid hcook =>
    rw [hrc] at hr
    by_cases hi : id = tgt.id
    · subst hi
      rw [AList.lookup_insert, Option.some.injEq] at hr
      subst hr
      exact Or.inr ⟨_, ⟨hh, ha⟩, rfl, hcook.symm, hid⟩
    · rw [AList.lookup_insert_ne hi] at hr
      exact Or.inl ⟨r, hr, rfl, rfl⟩

/-- A stored record after a store call belongs to a credential. -/
theorem stored_of_callStore (hi : OwnInv cfg s) (hup : s.up = some b) {l : Broker.Label} {id : UInt64}
    {r : ReconnectRecord} (h : (callStore cfg stamp b s.recs l).lookup id = some r) :
    r.ccbid = id ∧ Cred s id r.cookie := by
  have hold : s.recs.lookup id = some r → r.ccbid = id ∧ Cred s id r.cookie := fun h => ⟨hi.stored id r h, .stored h⟩
  cases l with
  | req l | proxy l => exact hold h
  | reg l =>
    simp only [callStore] at h
    split at h
    · rename_i op hop
      rcases (storeCall_cases hop).2 with ⟨n, k, rec, hk, hp, rfl⟩ | ⟨id', rfl⟩
      · obtain ⟨h1, h2⟩ := hi.pending b hup n k rec hk hp
        by_cases hid : id = rec.ccbid
        · rw [storeOp, hid, AList.lookup_insert, Option.some.injEq] at h
          subst h
          refine ⟨hid.symm, ?_⟩
          show Cred s id rec.cookie
          rw [h2]
          exact .handler hup hk (h1.symm.trans hid.symm)
        · rw [storeOp, AList.lookup_insert_ne hid] at h
          exact hold h
      · by_cases hid : id = id'
        · rw [storeOp, hid, AList.lookup_erase] at h
          cases h
        · rw [storeOp, AList.lookup_erase_ne hid] at h
          exact hold h
    · exact hold h

/-- A registration whose CCBID is the counter's next value. -/
structure TakesNext (b b' : Broker.State) (k : Handler) : Prop where
  handlers : b'.handlers = b.handlers ++ [k]
  id       : k.target.id = b.nextID + 1
  next     : b'.nextID = b.nextID + 1

theorem Registers.cred {k : Handler} (h : Registers b b' k) (hup : s.up = some b) :
    Cred s k.target.id k.target.cookie ∨ TakesNext b b' k := by
  rcases h.assigned with ⟨r, -, hr, hcook, -⟩ | ⟨-, hid, hnext⟩
  · rw [← hcook]
    exact Or.inl (.record hup hr)
  · exact Or.inr ⟨h.handlers, hid, hnext⟩

/-- **A broker step makes credentials only for a CCBID from the counter.** -/
theorem Cred.of_broker (hi : OwnInv cfg s) {l : Broker.Label} (hup : s.up = some b)
    (hs : Broker.step x cfg b l = some b') {id : UInt64} {c : String}
    (h : Cred ⟨some b', callStore cfg stamp b s.recs l, s.held ++ registered b b'⟩ id c) :
    Cred s id c ∨ ∃ k, TakesNext b b' k ∧ k.target.id = id ∧ k.target.cookie = c := by
  have hreg : ∀ {k : Handler}, Registers b b' k → k.target.id = id → k.target.cookie = c →
      Cred s id c ∨ ∃ k, TakesNext b b' k ∧ k.target.id = id ∧ k.target.cookie = c := by
    intro k hk hid hc
    rcases hk.cred hup with hcred | hnext
    · rw [hid, hc] at hcred
      exact Or.inl hcred
    · exact Or.inr ⟨k, hnext, hid, hc⟩
  cases h with
  | record hup' hr =>
    cases hup'
    rcases record_step hs hr with ⟨r₀, hr₀, hc, -⟩ | ⟨k, hk, hid, hc, -⟩
    · rw [← hc]
      exact Or.inl (.record hup hr₀)
    · exact hreg hk hid hc
  | stored hr => exact Or.inl (stored_of_callStore hi hup hr).2
  | handler hup' hk hid =>
    cases hup'
    rcases handlers_step hs hk with ⟨k₀, hk₀, ht⟩ | hk
    · rw [← ht] at hid ⊢
      exact Or.inl (.handler hup hk₀ hid)
    · exact hreg hk hid rfl
  | held hm =>
    rcases List.mem_append.1 hm with hm | hm
    · exact Or.inl (.held hm)
    · obtain ⟨k, hk, he⟩ := List.mem_map.1 hm
      simp only [Prod.mk.injEq] at he
      obtain ⟨n, hn⟩ := List.mem_iff_getElem?.1 hk
      rw [List.getElem?_drop] at hn
      rcases handlers_step hs hn with ⟨k₀, hk₀, -⟩ | hk
      · rw [List.getElem?_eq_none (Nat.le_add_right _ _)] at hk₀
        cases hk₀
      · exact hreg hk he.1 he.2

theorem toNat_succ {i : UInt64} (h : i.toNat + 1 < idLimit) : (i + 1).toNat = i.toNat + 1 := by
  have hlt : i.toNat + 1 < 18446744073709551616 := by
    have : idLimit = 18446744073709551516 := rfl
    omega
  rw [UInt64.toNat_add, show (1 : UInt64).toNat = 1 from rfl, Nat.mod_eq_of_lt hlt]

/-- The counter's next value, where it is below the limit, is nobody's. -/
theorem TakesNext.lt {k : Handler} (h : TakesNext b b' k) {l : Broker.Label} (hg : Below x cfg s (.broker l))
    (hup : s.up = some b) (hs : Broker.step x cfg b l = some b') :
    b.nextID.toNat + 1 < idLimit ∧ k.target.id.toNat = b.nextID.toNat + 1 ∧ b'.nextID.toNat = b.nextID.toNat + 1 := by
  have hlt : b.nextID.toNat + 1 < idLimit := by
    refine hg b hup b' hs fun he => ?_
    rw [h.next] at he
    simp at he
  exact ⟨hlt, by rw [h.id, toNat_succ hlt], by rw [h.next, toNat_succ hlt]⟩

theorem nextID_le {l : Broker.Label} (hg : Below x cfg s (.broker l)) (hup : s.up = some b)
    (hs : Broker.step x cfg b l = some b') : b.nextID.toNat ≤ b'.nextID.toNat := by
  cases Broker.step_effect hs with
  | frame _ hn _ _ _ | move _ _ _ hn _ _ _ _ | remove _ _ _ _ _ _ _ _ hn _ _ _ | sweep _ _ hn _ _ _ =>
    rw [hn]
  | insert tgt reused rec _ ha _ _ hh _ _ =>
    rcases ha with ⟨-, -, -, -, hn⟩ | ⟨-, hid, hn⟩
    · rw [hn]
    · have := (TakesNext.lt (k := ⟨tgt, reused, .put rec⟩) ⟨hh, hid, hn⟩ hg hup hs).2.2
      omega

/-- The registration `targets` sends a CCBID to is one of it. -/
theorem live_step {l : Broker.Label} (hl : ∀ id h, b.targets.lookup id = some h → ∃ k, b.handlers[h]? = some k ∧
    k.target.id = id)
    (hs : Broker.step x cfg b l = some b') :
    ∀ id h, b'.targets.lookup id = some h → ∃ k, b'.handlers[h]? = some k ∧ k.target.id = id := by
  intro id h ht
  have hmod : ∀ {m : Nat} {pc : Broker.RegPc}, b.targets.lookup id = some h →
      ∃ k, (b.handlers.modify m (fun k => { k with pc := pc }))[h]? = some k ∧ k.target.id = id := by
    intro m pc ht
    obtain ⟨k, hk, hid⟩ := hl id h ht
    rw [List.getElem?_modify, hk]
    refine ⟨_, rfl, ?_⟩
    show Broker.Target.id (Handler.target (if m = h then _ else _)) = id
    split <;> exact hid
  cases Broker.step_effect hs with
  | frame _ _ htg _ hh | sweep _ _ _ htg _ hh =>
    rw [htg] at ht
    rw [hh]
    exact hl id h ht
  | move _ _ _ _ htg _ hh _ =>
    rw [htg] at ht
    rw [hh]
    exact hmod ht
  | remove _ k _ _ _ _ _ _ _ htg _ hh =>
    rw [htg] at ht
    rw [hh]
    by_cases hid : id = k.target.id
    · rw [hid, AList.lookup_erase] at ht
      cases ht
    · rw [AList.lookup_erase_ne hid] at ht
      exact hmod ht
  | insert tgt reused rec _ _ htg _ hh _ _ =>
    rw [htg] at ht
    rw [hh]
    by_cases hid : id = tgt.id
    · subst hid
      rw [AList.lookup_insert, Option.some.injEq] at ht
      subst ht
      exact ⟨_, List.getElem?_concat_length, rfl⟩
    · rw [AList.lookup_insert_ne hid] at ht
      obtain ⟨k, hk, hkid⟩ := hl id h ht
      exact ⟨k, getElem?_concat_left hk, hkid⟩

theorem OwnInv.broker (hi : OwnInv cfg s) {l : Broker.Label} (hg : Below x cfg s (.broker l)) (hup : s.up = some b)
    (hs : Broker.step x cfg b l = some b') :
    OwnInv cfg (State.settle ⟨some b', callStore cfg stamp b s.recs l, s.held ++ registered b b'⟩) := by
  have hnew : ∀ {k : Handler} {c : String}, TakesNext b b' k → ¬ Cred s k.target.id c := by
    intro k c hk hc
    have := hi.bounded b hup _ _ hc
    have := (hk.lt hg hup hs).2.1
    omega
  refine ⟨?_, ?_, ?_, ?_, ?_, ?_, ?_, ?_, ?_⟩
  · intro b₁ hb₁ id r hr
    cases hb₁
    rcases record_step hs hr with ⟨r₀, hr₀, -, hid⟩ | ⟨k, -, -, -, hid⟩
    · rw [← hid]
      exact hi.keyed b hup id r₀ hr₀
    · exact hid
  · exact fun id r hr => (stored_of_callStore hi hup hr).1
  · intro b₁ hb₁ n k r hk hp
    cases hb₁
    rcases pending_step hs hk hp with hk | heq | ⟨r', k₀, hk₀, ht, hr', h1, h2⟩
    · exact hi.pending b hup n k r hk hp
    · exact heq
    · rw [h1, h2]
      rw [← ht] at hr' ⊢
      exact ⟨hi.keyed b hup _ _ hr', hi.agree _ _ _ (.record hup hr') (.handler hup hk₀ rfl)⟩
  · intro b₁ hb₁
    cases hb₁
    exact live_step (hi.live b hup) hs
  · intro id c c' hc hc'
    rcases Cred.of_broker hi hup hs hc.of_settle with hc | ⟨k, hk, rfl, rfl⟩
    · rcases Cred.of_broker hi hup hs hc'.of_settle with hc' | ⟨k, hk, rfl, rfl⟩
      · exact hi.agree id c c' hc hc'
      · exact absurd hc (hnew hk)
    · rcases Cred.of_broker hi hup hs hc'.of_settle with hc' | ⟨k', hk', -, rfl⟩
      · exact absurd hc' (hnew hk)
      · have := hk.handlers.symm.trans hk'.handlers
        rw [List.append_cancel_left_eq, List.cons.injEq] at this
        rw [this.1]
  · intro b₁ hb₁ id c hc
    cases hb₁
    rcases Cred.of_broker hi hup hs hc.of_settle with hc | ⟨k, hk, rfl, -⟩
    · exact le_trans (hi.bounded b hup id c hc) (nextID_le hg hup hs)
    · have := hk.lt hg hup hs
      omega
  · intro id c hc
    rcases Cred.of_broker hi hup hs hc.of_settle with hc | ⟨k, hk, rfl, -⟩
    · exact hi.below id c hc
    · have := hk.lt hg hup hs
      omega
  · intro hst
    show callStore cfg stamp b s.recs l = ∅
    rw [← hi.noStore hst]
    cases l with
    | req l | proxy l => rfl
    | reg l =>
      simp only [callStore]
      split
      · rename_i op hop
        rw [(storeCall_cases hop).1] at hst
        cases hst
      · rfl
  · exact fun e he => (mem_settle_held.1 he).2

/-! ## Crashes and restarts -/

theorem Cred.of_crash {id : UInt64} {c : String} (h : Cred (State.settle { s with up := none }) id c) :
    Cred s id c := by
  cases h.of_settle with
  | record hup | handler hup => cases hup
  | stored hr => exact .stored hr
  | held hm => exact .held hm

theorem OwnInv.crash (hi : OwnInv cfg s) : OwnInv cfg (State.settle { s with up := none }) :=
  ⟨(fun b hb => by cases hb), hi.stored, (fun b hb => by cases hb), (fun b hb => by cases hb),
    fun id c c' hc hc' => hi.agree id c c' hc.of_crash hc'.of_crash, (fun b hb => by cases hb),
    fun id c hc => hi.below id c hc.of_crash, hi.noStore, fun e he => (mem_settle_held.1 he).2⟩

section
variable {recs : List ReconnectRecord} {id : UInt64} {c : String}

theorem Cred.of_restart (hi : OwnInv cfg s) (hp : recs.Perm (s.recs.entries.map Sigma.snd))
    (h : Cred (State.settle { s with up := some (Site.newBroker cfg recs) }) id c) : Cred s id c := by
  cases h.of_settle with
  | record hb hr =>
    cases hb
    exact .stored (newBroker_stored hi.stored hp hr)
  | stored hr => exact .stored hr
  | handler hb hk =>
    cases hb
    rw [(newBroker_handlers recs).1] at hk
    cases hk
  | held hm => exact .held hm

/-- With no broker up, whatever has a credential has a stored record. -/
theorem OwnInv.cred_stored (hi : OwnInv cfg s) (hup : s.up = none) (h : Cred s id c) :
    ∃ r, s.recs.lookup id = some r := by
  cases h with
  | record hb | handler hb =>
    rw [hup] at hb
    cases hb
  | stored hr => exact ⟨_, hr⟩
  | held hm =>
    have := hi.known _ hm
    rw [State.known, hup] at this
    exact Option.isSome_iff_exists.1 this

/-- The counter of a restarted broker is past every stored CCBID. -/
theorem OwnInv.loaded_le (hi : OwnInv cfg s) (hp : recs.Perm (s.recs.entries.map Sigma.snd)) {r : ReconnectRecord}
    (hr : s.recs.lookup id = some r) : id.toNat ≤ (Site.newBroker cfg recs).nextID.toNat := by
  have hst : cfg.reconnectStore = true := by
    by_contra hst
    rw [hi.noStore (Bool.eq_false_iff.2 hst)] at hr
    cases hr
  have hlim : idLimit + 100 = UInt64.size := rfl
  have hw : ∀ r ∈ recs, r.ccbid.toNat + 100 < UInt64.size := by
    intro r' hr'
    obtain ⟨id', hid'⟩ := mem_entries_iff.1 (hp.mem_iff.1 hr')
    have := hi.below id' r'.cookie (.stored hid')
    rw [hi.stored id' r' hid']
    omega
  have hmem : r ∈ recs := hp.mem_iff.2 (mem_entries_iff.2 ⟨id, hr⟩)
  obtain rfl := hi.stored id r hr
  rw [Site.newBroker, if_pos hst]
  by_cases hpos : 0 < r.ccbid
  · have := Site.le_nextID_of_loaded hw hmem hpos
    omega
  · have : r.ccbid.toNat = 0 := Nat.eq_zero_of_not_pos (fun h => hpos (UInt64.lt_iff_toNat_lt.2 h))
    omega

theorem OwnInv.restart (hi : OwnInv cfg s) (hup : s.up = none) (hp : recs.Perm (s.recs.entries.map Sigma.snd)) :
    OwnInv cfg (State.settle { s with up := some (Site.newBroker cfg recs) }) := by
  refine ⟨?_, hi.stored, ?_, ?_, fun id c c' hc hc' => hi.agree id c c' (hc.of_restart hi hp) (hc'.of_restart hi hp),
    ?_, fun id c hc => hi.below id c (hc.of_restart hi hp), hi.noStore, fun e he => (mem_settle_held.1 he).2⟩
  · intro b hb id r hr
    cases hb
    exact (newBroker_lookup hr).2
  · intro b hb n k r hk
    cases hb
    rw [(newBroker_handlers recs).1] at hk
    cases hk
  · intro b hb id h ht
    cases hb
    rw [(newBroker_handlers recs).2] at ht
    cases ht
  · intro b hb id c hc
    cases hb
    obtain ⟨r, hr⟩ := hi.cred_stored hup (hc.of_restart hi hp)
    exact hi.loaded_le hp hr

end

theorem OwnInv.step {l : Label} (hi : OwnInv cfg s) (hg : Below x cfg s l) (hs : step x cfg stamp s l = some t) :
    OwnInv cfg t := by
  cases l with
  | broker l =>
    obtain ⟨b, b', hup, hb, rfl⟩ := step_broker hs
    exact hi.broker hg hup hb
  | crash =>
    rw [step_crash hs]
    exact hi.crash
  | restart recs =>
    obtain ⟨hup, hp, rfl⟩ := step_restart hs
    exact hi.restart hup hp

theorem OwnInv.init : OwnInv cfg State.init := by
  have hno : ∀ {id : UInt64} {c : String}, ¬ Cred State.init id c := by
    intro id c hc
    cases hc with
    | record hb | handler hb => cases hb
    | stored hr => cases hr
    | held hm => cases hm
  exact ⟨(fun b hb => by cases hb), (fun _ _ h => by cases h), (fun b hb => by cases hb), (fun b hb => by cases hb),
    fun _ _ _ hc _ => absurd hc hno, (fun b hb => by cases hb), fun _ _ hc => absurd hc hno, fun _ => rfl,
    (fun _ h => by cases h)⟩

/-! ## What a registration is granted -/

/-- The CCBID is live or has a record. -/
def Taken (b : Broker.State) (id : UInt64) : Prop :=
  (b.targets.lookup id).isSome = true ∨ (b.reconnects.lookup id).isSome = true

/-- The registration names `id` in its contact and presents the cookie on record for it, from the recorded IP unless any
is allowed. -/
def Presents (x : Ext) (cfg : Config) (b : Broker.State) (remoteAddr : String) (ad : RegisterAd) (id : UInt64) : Prop :=
  ad.ccbid ≠ "" ∧ Broker.parseContactID x ad.ccbid = some id ∧ ad.claimID ≠ "" ∧
    ∃ r, b.reconnects.lookup id = some r ∧ r.cookie = ad.claimID ∧
      (cfg.reconnectAllowAnyIP = true ∨ r.peerIP = x.peerIPString remoteAddr)

theorem reclaim_eq_some_iff {remoteAddr : String} {ad : RegisterAd} {id : UInt64} :
    (∃ c, Broker.reclaim x cfg b (x.peerIPString remoteAddr) ad = some (id, c)) ↔
    Presents x cfg b remoteAddr ad id := by
  constructor
  · rintro ⟨c, h⟩
    obtain ⟨r, hp, hr, hc, hcl, hne, hip⟩ := Broker.reclaim_eq_some h
    refine ⟨fun he => ?_, hp, hne, r, hr, hc.trans hcl, hip⟩
    rw [Broker.reclaim, if_pos (Or.inl he)] at h
    cases h
  · rintro ⟨hne, hp, hcl, r, hr, hc, hip⟩
    refine ⟨r.cookie, ?_⟩
    rw [Broker.reclaim, if_neg (by rintro (h | h); exacts [hne h, hcl h])]
    simp only [hp, hr, if_pos (And.intro hc hip)]

theorem OwnInv.taken_le (hi : OwnInv cfg s) (hup : s.up = some b) {id : UInt64} (h : Taken b id) : id ≤ b.nextID := by
  rw [UInt64.le_iff_toNat_le]
  rcases h with h | h
  · obtain ⟨n, hn⟩ := Option.isSome_iff_exists.1 h
    obtain ⟨k, hk, hid⟩ := hi.live b hup id n hn
    exact hi.bounded b hup id _ (.handler hup hk hid)
  · obtain ⟨r, hr⟩ := Option.isSome_iff_exists.1 h
    exact hi.bounded b hup id _ (.record hup hr)

theorem OwnInv.next_free (hi : OwnInv cfg s) (hup : s.up = some b) (hlt : b.nextID.toNat + 1 < idLimit) :
    ¬ Taken b (b.nextID + 1) := by
  intro h
  have := UInt64.le_iff_toNat_le.1 (hi.taken_le hup h)
  rw [toNat_succ hlt] at this
  omega

theorem not_eq_append_singleton {α : Type} {l : List α} {a : α} : l ≠ l ++ [a] := by
  intro h
  have := congrArg List.length h
  simp at this

theorem insertTarget_target {tgt : Broker.Target} {reused : Bool} {ip : String} {now : Int} {k : Handler}
    (h : (Broker.insertTarget b tgt reused ip now).handlers = b.handlers ++ [k]) : k.target = tgt := by
  simp only [Broker.insertTarget, List.append_cancel_left_eq, List.cons.injEq, and_true] at h
  rw [← h]

/-- **A registration gets a CCBID that is in use exactly if it presents its credentials.** -/
theorem OwnInv.granted (hi : OwnInv cfg s) (hup : s.up = some b) {r : RegisterInput} {ad : RegisterAd}
    (hauth : Broker.authorize cfg Broker.registerPerms r.remoteAddr r.user = true) (had : r.ad = some ad)
    (hg : Below x cfg s (.broker (.reg (.register r)))) (id : UInt64) :
    (∃ k, (Broker.handleRegister x cfg b r).handlers = b.handlers ++ [k] ∧ k.target.id = id ∧ Taken b id) ↔
      Presents x cfg b r.remoteAddr ad id := by
  have hbelow : (Broker.handleRegister x cfg b r).nextID ≠ b.nextID → b.nextID.toNat + 1 < idLimit :=
    hg b hup _ rfl
  rw [← reclaim_eq_some_iff]
  rcases Broker.handleRegister_cases x cfg b r with
    ⟨heq, hrec⟩ | ⟨ad', tgt, reused, nextID, had', heq, ⟨-, -, hrec⟩ | ⟨-, hn, hid', hrec⟩⟩
  · rw [heq, hrec ad hauth had]
    constructor
    · rintro ⟨k, hk, -, -⟩
      exact absurd hk not_eq_append_singleton
    · rintro ⟨c, hc⟩
      cases hc
  · cases had.symm.trans had'
    rw [heq, hrec]
    constructor
    · rintro ⟨k, hk, hid, -⟩
      rw [insertTarget_target hk] at hid
      exact ⟨tgt.cookie, by rw [hid]⟩
    · rintro ⟨c, hc⟩
      cases hc
      obtain ⟨r', -, hr', -⟩ := Broker.reclaim_eq_some hrec
      exact ⟨_, rfl, rfl, Or.inr (by rw [hr']; rfl)⟩
  · cases had.symm.trans had'
    rw [heq] at hbelow
    rw [heq, hrec]
    constructor
    · rintro ⟨k, hk, hid, ht⟩
      rw [← hid, insertTarget_target hk, hid'] at ht
      refine absurd ht (hi.next_free hup (hbelow (fun he => ?_)))
      simp [Broker.insertTarget, hn] at he
    · rintro ⟨c, hc⟩
      cases hc

/-- A registration that is not a reclaim takes a CCBID nobody has. -/
theorem OwnInv.fresh (hi : OwnInv cfg s) (hup : s.up = some b) {r : RegisterInput} {k : Handler}
    (hg : Below x cfg s (.broker (.reg (.register r))))
    (hk : (Broker.handleRegister x cfg b r).handlers = b.handlers ++ [k]) (hr : k.reused = false) :
    ¬ Taken b k.target.id := by
  have hs : Broker.step x cfg b (.reg (.register r)) = some (Broker.handleRegister x cfg b r) := rfl
  have hlast : (Broker.handleRegister x cfg b r).handlers[b.handlers.length]? = some k := by
    rw [hk, List.getElem?_concat_length]
  rcases handlers_step hs hlast with ⟨k₀, hk₀, -⟩ | hreg
  · rw [List.getElem?_eq_none (Nat.le_refl _)] at hk₀
    cases hk₀
  · rcases hreg.assigned with ⟨-, hre, -⟩ | ⟨-, hid, hnext⟩
    · rw [hr] at hre
      cases hre
    · have hlt := (TakesNext.lt (k := k) ⟨hk, hid, hnext⟩ hg hup hs).1
      rw [hid]
      exact hi.next_free hup hlt

/-- **A step makes no second cookie for a CCBID that has one.** -/
theorem Cred.of_step {l : Label} (hi : OwnInv cfg s) (hg : Below x cfg s l) (hs : Flushed.step x cfg stamp s l = some t)
    {id : UInt64} {c c' : String} (h : Cred s id c) (h' : Cred t id c') : c' = c := by
  have hold : Cred s id c' := by
    cases l with
    | broker l =>
      obtain ⟨b, b', hup, hb, rfl⟩ := step_broker hs
      rcases Cred.of_broker hi hup hb h'.of_settle with h' | ⟨k, hk, rfl, -⟩
      · exact h'
      · have := hi.bounded b hup _ _ h
        have := (hk.lt hg hup hb).2.1
        omega
    | crash =>
      rw [step_crash hs] at h'
      exact h'.of_crash
    | restart recs =>
      obtain ⟨-, hp, rfl⟩ := step_restart hs
      exact h'.of_restart hi hp
  exact hi.agree id c' c hold h

end

/-- **CCBID ownership** at a state of the site: CCBIDs in use are at or below the counter, a registration gets one of
them exactly by its credentials and otherwise a free one, and the cookie of a record stays what every connection
registered under it since holds. -/
structure Owned (x : Ext) (cfg : Config) (stamp : Int → Int) (s : State) : Prop where
  keys    : ∀ b, s.up = some b → ∀ id, Taken b id → id ≤ b.nextID
  fresh   : ∀ b, s.up = some b → ∀ r k, Below x cfg s (.broker (.reg (.register r))) →
    (Broker.handleRegister x cfg b r).handlers = b.handlers ++ [k] → k.reused = false → ¬ Taken b k.target.id
  granted : ∀ b, s.up = some b → ∀ r ad, Broker.authorize cfg Broker.registerPerms r.remoteAddr r.user = true →
    r.ad = some ad → Below x cfg s (.broker (.reg (.register r))) → ∀ id,
      (∃ k, (Broker.handleRegister x cfg b r).handlers = b.handlers ++ [k] ∧ k.target.id = id ∧ Taken b id) ↔
        Presents x cfg b r.remoteAddr ad id
  steady  : ∀ l t, step x cfg stamp s l = some t → Below x cfg s l → ∀ id r r', s.record id = some r →
    t.record id = some r' → r'.cookie = r.cookie
  held    : ∀ e ∈ s.held, ∀ r, s.record e.1 = some r → r.cookie = e.2

theorem Owned.of_inv {x : Ext} {cfg : Config} {stamp : Int → Int} {s : State} (hi : OwnInv cfg s) :
    Owned x cfg stamp s where
  keys    := fun _ hup _ ht => hi.taken_le hup ht
  fresh   := fun _ hup _ _ hg hk hr => hi.fresh hup hg hk hr
  granted := fun _ hup _ _ hauth had hg id => hi.granted hup hauth had hg id
  steady  := fun _ _ hs hg _ _ _ hr hr' => Cred.of_step hi hg hs (.of_record hr) (.of_record hr')
  held    := fun e he _ hr => hi.agree e.1 _ _ (.of_record hr) (.held he)

/-- **CCBIDs keep their owners** in every run over a store that loses nothing. -/
theorem ccbid_ownership (x : Ext) (cfg : Config) (stamp : Int → Int) (ls : List Label) (s : State)
    (hm : Meets (step x cfg stamp) (Below x cfg) State.init ls) (hr : run (step x cfg stamp) State.init ls = some s) :
    Owned x cfg stamp s :=
  .of_inv (Machine.inv_of_meets (fun _ _ _ hi hg hs => OwnInv.step hi hg hs) ls State.init s .init hm hr)

instance (x : Ext) (cfg : Config) (s : State) : DecidablePred (Below x cfg s)
  | .broker l =>
    @Option.decidableForallMem _ _ (fun b => @Option.decidableForallMem _ _ (fun b' =>
      inferInstanceAs (Decidable (b'.nextID ≠ b.nextID → b.nextID.toNat + 1 < idLimit))) (Broker.step x cfg b l)) s.up
  | .crash | .restart _ => .isTrue trivial

/-- A registration, a crash after its `Put`, and a reconnect to the restarted broker from the same host. -/
def crashAndReclaim : List Label :=
  [.restart [],
   .broker (.reg (.register ⟨"10.0.0.7:4000", "condor@pool", some ⟨"startd", "", ""⟩, some "c0ffee", 10⟩)),
   .broker (.reg (.put 0)), .crash, .restart [⟨1, "c0ffee", "10.0.0.7", "startd", 10⟩],
   .broker (.reg (.register ⟨"10.0.0.7:4001", "condor@pool", some ⟨"startd", "broker:9618#1", "c0ffee"⟩, none, 20⟩))]

theorem ccbid_ownership_crashAndReclaim :
    (run (step Broker.splitExt Broker.plainConfig id) State.init crashAndReclaim).map (·.held) =
        some [(1, "c0ffee"), (1, "c0ffee")] ∧
      ∀ s, run (step Broker.splitExt Broker.plainConfig id) State.init crashAndReclaim = some s →
        Owned Broker.splitExt Broker.plainConfig id s :=
  ⟨by decide +kernel, fun s hs => ccbid_ownership _ _ _ _ s (by decide +kernel) hs⟩

end Flushed
end Ccb
