import Ccb.Site
/-!
# Flushed — the broker over restarts, with a store that loses nothing

`Site` has the write-behind store with all it can lose.  Here the store is one that has every `Put` and `Delete` when
the call returns, as `memoryStore` (reconnect.go) does, or the SQLite one when it is flushed in time; `stamp` is what a
time reads back as, itself for the one, whole seconds for the other.  `Load` returns the records in any order.

`held` is a history: the CCBID and cookie of each registration, for as long as the CCBID has had a record since.
-/
namespace Ccb
namespace Flushed

open Broker (ReconnectRecord StoreOp Handler Config Ext)

structure State where
  up   : Option Broker.State
  recs : GoMap UInt64 ReconnectRecord
  held : List (UInt64 × String)

def State.init : State := ⟨none, ∅, []⟩

def storeOp (stamp : Int → Int) (recs : GoMap UInt64 ReconnectRecord) : StoreOp → GoMap UInt64 ReconnectRecord
  | .put rec      => recs.insert rec.ccbid { rec with updatedAt := stamp rec.updatedAt }
  | .delete ccbid => recs.erase ccbid

/-- The store after the call a broker step makes. -/
def callStore (cfg : Config) (stamp : Int → Int) (b : Broker.State) (recs : GoMap UInt64 ReconnectRecord) :
    Broker.Label → GoMap UInt64 ReconnectRecord
  | .reg l =>
    match Broker.storeCall cfg b l with
    | some op => storeOp stamp recs op
    | none    => recs
  | .req _ | .proxy _ => recs

/-- The CCBID has a record, in the broker or in the store. -/
def State.known (s : State) (id : UInt64) : Bool :=
  (s.up.any (fun b => (b.reconnects.lookup id).isSome)) || (s.recs.lookup id).isSome

/-- The history keeps what is still on record. -/
def State.settle (s : State) : State := { s with held := s.held.filter (fun e => s.known e.1) }

/-- The registrations of a broker step. -/
def registered (b b' : Broker.State) : List (UInt64 × String) :=
  (b'.handlers.drop b.handlers.length).map (fun h => (h.target.id, h.target.cookie))

inductive Label where
  | broker (l : Broker.Label)
  | crash
  /-- A restart, with the records in the order `Load` returns them. -/
  | restart (recs : List ReconnectRecord)
  deriving DecidableEq, Repr

def step (x : Ext) (cfg : Config) (stamp : Int → Int) (s : State) : Label → Option State
  | .broker l =>
    match s.up with
    | none   => none
    | some b =>
      match Broker.step x cfg b l with
      | some b' => some (State.settle ⟨some b', callStore cfg stamp b s.recs l, s.held ++ registered b b'⟩)
      | none    => none
  | .crash =>
    match s.up with
    | some _ => some (State.settle { s with up := none })
    | none   => none
  | .restart recs =>
    match s.up with
    | none   =>
      if recs.Perm (s.recs.entries.map Sigma.snd) then
        some (State.settle { s with up := some (Site.newBroker cfg recs) })
      else none
    | some _ => none

/-- The record of a CCBID: the broker's, or the store's while no broker is up. -/
def State.record (s : State) (id : UInt64) : Option ReconnectRecord :=
  match s.up with
  | some b => b.reconnects.lookup id
  | none   => s.recs.lookup id

section
variable {x : Ext} {cfg : Config} {stamp : Int → Int} {s t : State}

theorem step_broker {l : Broker.Label} (h : step x cfg stamp s (.broker l) = some t) :
    ∃ b b', s.up = some b ∧ Broker.step x cfg b l = some b' ∧
      t = State.settle ⟨some b', callStore cfg stamp b s.recs l, s.held ++ registered b b'⟩ := by
  simp only [step] at h
  split at h
  · cases h
  rename_i b hup
  split at h
  · rename_i b' hb
    cases h
    exact ⟨b, b', hup, hb, rfl⟩
  · cases h

theorem step_crash (h : step x cfg stamp s .crash = some t) : t = State.settle { s with up := none } := by
  simp only [step] at h
  split at h <;> cases h
  rfl

theorem step_restart {recs : List ReconnectRecord} (h : step x cfg stamp s (.restart recs) = some t) :
    s.up = none ∧ recs.Perm (s.recs.entries.map Sigma.snd) ∧
      t = State.settle { s with up := some (Site.newBroker cfg recs) } := by
  simp only [step] at h
  split at h
  · rename_i hup
    split at h
    · rename_i hperm
      cases h
      exact ⟨hup, hperm, rfl⟩
    · cases h
  · cases h

end

/-! ## Restarts -/

section
variable {cfg : Config}

theorem mem_of_foldl_loadRecord :
    ∀ (recs : List ReconnectRecord) (p : GoMap UInt64 ReconnectRecord × UInt64) {id : UInt64}
    {r : ReconnectRecord}, (recs.foldl Site.loadRecord p).1.lookup id = some r →
      p.1.lookup id = some r ∨ (r ∈ recs ∧ r.ccbid = id)
  | [], p, id, r, h => Or.inl h
  | r' :: recs, p, id, r, h => by
    rcases mem_of_foldl_loadRecord recs (Site.loadRecord p r') h with h | ⟨hr, hid⟩
    · by_cases hi : id = r'.ccbid
      · rw [Site.loadRecord, hi, AList.lookup_insert, Option.some.injEq] at h
        subst h
        exact Or.inr ⟨List.mem_cons_self, hi.symm⟩
      · rw [Site.loadRecord, AList.lookup_insert_ne hi] at h
        exact Or.inl h
    · exact Or.inr ⟨List.mem_cons_of_mem _ hr, hid⟩

/-- A restarted broker's records are those it was given. -/
theorem newBroker_lookup {recs : List ReconnectRecord} {id : UInt64} {r : ReconnectRecord}
    (h : (Site.newBroker cfg recs).reconnects.lookup id = some r) : r ∈ recs ∧ r.ccbid = id := by
  unfold Site.newBroker at h
  split at h
  · rcases mem_of_foldl_loadRecord recs (∅, 0) h with h | h
    · cases h
    · exact h
  · cases h

theorem newBroker_handlers (recs : List ReconnectRecord) :
    (Site.newBroker cfg recs).handlers = [] ∧ (Site.newBroker cfg recs).targets = ∅ := by
  unfold Site.newBroker
  split <;> exact ⟨rfl, rfl⟩

theorem mem_entries_iff {m : GoMap UInt64 ReconnectRecord} {r : ReconnectRecord} :
    r ∈ m.entries.map Sigma.snd ↔ ∃ id, m.lookup id = some r := by
  constructor
  · intro h
    obtain ⟨e, he, rfl⟩ := List.mem_map.1 h
    exact ⟨e.1, AList.mem_lookup_iff.2 he⟩
  · rintro ⟨id, h⟩
    exact List.mem_map.2 ⟨⟨id, r⟩, AList.mem_lookup_iff.1 h, rfl⟩

/-- A restart loads what is in the store, under the CCBIDs it is stored under. -/
theorem newBroker_stored {m : GoMap UInt64 ReconnectRecord} (hkey : ∀ id r, m.lookup id = some r → r.ccbid = id)
    {recs : List ReconnectRecord} (hp : recs.Perm (m.entries.map Sigma.snd)) {id : UInt64} {r : ReconnectRecord}
    (h : (Site.newBroker cfg recs).reconnects.lookup id = some r) : m.lookup id = some r := by
  obtain ⟨hr, hid⟩ := newBroker_lookup h
  obtain ⟨id', hid'⟩ := mem_entries_iff.1 (hp.mem_iff.1 hr)
  obtain rfl := hkey id' r hid'
  exact hid ▸ hid'

end

/-! ## The records on their way to the store -/

/-- The record a handler has still to hand to the store. -/
def pending : Broker.RegPc → Option ReconnectRecord
  | .put rec     => some rec
  | .restamp rec => rec
  | .reply | .serve | .deliver _ _ _ | .remove | .returned => none

section
variable {x : Ext} {cfg : Config} {b b' : Broker.State}

theorem storeCall_cases {l : Broker.RegLabel} {op : StoreOp} (h : Broker.storeCall cfg b l = some op) :
    cfg.reconnectStore = true ∧
      ((∃ (n : Nat) (k : Handler) (rec : ReconnectRecord), b.handlers[n]? = some k ∧ pending k.pc = some rec ∧
        op = .put rec) ∨ ∃ id, op = .delete id) := by
  cases l with
  | put n =>
    simp only [Broker.storeCall] at h
    split at h
    · rename_i tg ru rec hk
      split at h <;> cases h
      exact ⟨by assumption, Or.inl ⟨n, _, rec, hk, rfl, rfl⟩⟩
    · cases h
  | putRemoved n =>
    simp only [Broker.storeCall] at h
    split at h
    · rename_i tg ru rec hk
      split at h <;> cases h
      exact ⟨by assumption, Or.inl ⟨n, _, rec, hk, rfl, rfl⟩⟩
    · cases h
  | sweepDelete n =>
    simp only [Broker.storeCall] at h
    split at h
    · split at h <;> cases h
      exact ⟨by assumption, Or.inr ⟨_, rfl⟩⟩
    · cases h
  | register | replied | read | deliver | removeTarget | sweep => cases h

/-- What a handler may have to store after a step that left it `k`. -/
def Stored (b : Broker.State) (n : Nat) (k : Handler) (rec : ReconnectRecord) : Prop :=
  b.handlers[n]? = some k ∨ (rec.ccbid = k.target.id ∧ rec.cookie = k.target.cookie) ∨
    ∃ r k₀, b.handlers[n]? = some k₀ ∧ k₀.target = k.target ∧ b.reconnects.lookup k.target.id = some r ∧
      rec.ccbid = r.ccbid ∧ rec.cookie = r.cookie

theorem handleRegister_stored {r : Broker.RegisterInput} {n : Nat} {k : Handler} {rec : ReconnectRecord}
    (hk : (Broker.handleRegister x cfg b r).handlers[n]? = some k) (hp : pending k.pc = some rec) :
    Stored b n k rec := by
  rcases Broker.handleRegister_cases x cfg b r with ⟨heq, -⟩ | ⟨ad, tgt, reused, nextID, -, heq, -⟩ <;> rw [heq] at hk
  · exact Or.inl hk
  · rcases getElem?_concat_some hk with hk | ⟨-, rfl⟩
    · exact Or.inl hk
    · cases hp
      exact Or.inr (Or.inl ⟨rfl, rfl⟩)

/-- **What a step leaves to be stored**: what was there before, the record of a new registration, or the record a
`removeTarget` has stamped. -/
theorem pending_step {l : Broker.Label} (h : Broker.step x cfg b l = some b') {n : Nat} {k : Handler}
    {rec : ReconnectRecord} (hk : b'.handlers[n]? = some k) (hp : pending k.pc = some rec) : Stored b n k rec := by
  -- A handler moved to a place where it has nothing to store is not the one.
  have hmove : ∀ {m : Nat} {pc : Broker.RegPc}, pending pc = none →
      (b.handlers.modify m (fun k => { k with pc := pc }))[n]? = some k → Stored b n k rec := by
    intro m pc hpc hk
    rcases getElem?_modify_some hk with ⟨rfl, k₀, -, rfl⟩ | ⟨-, hk⟩
    · rw [hpc] at hp
      cases hp
    · exact Or.inl hk
  cases l with
  | req l | proxy l =>
    rw [(Broker.tables_of_not_reg h (fun r hr => by cases hr)).2.2.2.1] at hk
    exact Or.inl hk
  | reg l =>
    cases Broker.stepReg_cases h with
    | register r => exact handleRegister_stored hk hp
    | ignored | sweep | sweepDelete => exact Or.inl hk
    | put | accepted | unheard | reported | ended | deliver | unrecorded | putRemoved => exact hmove rfl hk
    | @removed m tgt reused now r hm hr =>
      rcases getElem?_modify_some hk with ⟨rfl, k₀, hk₀, rfl⟩ | ⟨-, hk⟩
      · cases hm.symm.trans hk₀
        cases hp
        exact Or.inr (Or.inr ⟨r, _, hm, rfl, hr, rfl, rfl⟩)
      · exact Or.inl hk

end

end Flushed
end Ccb
