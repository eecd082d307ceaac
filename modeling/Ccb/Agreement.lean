import Ccb.WriteBehind
/-!
# Agreement — the reconnect table and the store

The broker changes `reconnects` under its mutex and calls the store after releasing it, so at any time some store calls
are `owed`.  When none is, the store should have the table's records, as a restart will go by it.  It has them in every
run in which a call with something else than the table's record is made only while the call with that record is still
owed (`store_agrees`): calls made in the order of the changes are such.  A handler that ends while its target registers
again from elsewhere can make its call last, and then the store is left with the old record (`late_restamp_disagrees`).
-/
namespace Ccb
namespace Flushed

open Machine (run Meets)
open Overlay (Writes last_of_entries)
open Store (opID opRecord)
open Broker (ReconnectRecord StoreOp Handler Config Ext RegLabel)

/-- Cookie, PeerIP and Name of a record. -/
def identity (rec : ReconnectRecord) : String × String × String := (rec.cookie, rec.peerIP, rec.name)

/-- The records as a map from CCBIDs to these. -/
def view (m : GoMap UInt64 ReconnectRecord) (id : UInt64) : Option (String × String × String) :=
  (m.lookup id).map identity

/-- What a store call leaves under its CCBID. -/
def opView (op : StoreOp) : Option (String × String × String) := (opRecord op).map identity

/-- The store calls that handlers and sweeps have still to make. -/
def owed (b : Broker.State) : List StoreOp :=
  b.handlers.filterMap (fun k => (pending k.pc).map .put) ++ b.sweeps.flatten.map .delete

/-- A call for the CCBID is owed that has the table's record. -/
def Owes (b : Broker.State) (id : UInt64) : Prop := ∃ op ∈ owed b, opID op = id ∧ opView op = view b.reconnects id

instance decidableOwes (b : Broker.State) (id : UInt64) : Decidable (Owes b id) :=
  inferInstanceAs (Decidable (∃ op ∈ owed b, opID op = id ∧ opView op = view b.reconnects id))

/-- A store call has the table's record, or one that has is still owed. -/
def InOrder (cfg : Config) (s : State) : Label → Prop
  | .broker (.reg l) => ∀ b ∈ s.up, ∀ op ∈ Broker.storeCall cfg b l,
      opView op = view b.reconnects (opID op) ∨ Owes b (opID op)
  | _ => True

instance decidableInOrder (cfg : Config) (s : State) : ∀ l, Decidable (InOrder cfg s l)
  | .broker (.reg l) => inferInstanceAs (Decidable (∀ b ∈ s.up, ∀ op ∈ Broker.storeCall cfg b l,
      opView op = view b.reconnects (opID op) ∨ Owes b (opID op)))
  | .broker (.req _) | .broker (.proxy _) | .crash | .restart _ => .isTrue trivial

/-! ## The calls that are owed -/

section
variable {x : Ext} {cfg : Config} {b b' : Broker.State} {op : StoreOp}

theorem mem_owed : op ∈ owed b ↔
    (∃ (n : Nat) (k : Handler) (rec : ReconnectRecord), b.handlers[n]? = some k ∧ pending k.pc = some rec ∧
      op = .put rec) ∨
      ∃ (n : Nat) (ids : List UInt64) (id : UInt64), b.sweeps[n]? = some ids ∧ id ∈ ids ∧ op = .delete id := by
  simp only [owed, List.mem_append, List.mem_filterMap, List.mem_map, List.mem_flatten, Option.map_eq_some_iff]
  constructor
  · rintro (⟨k, hk, rec, hp, rfl⟩ | ⟨id, ⟨ids, hids, hid⟩, rfl⟩)
    · obtain ⟨n, hn⟩ := List.mem_iff_getElem?.1 hk
      exact Or.inl ⟨n, k, rec, hn, hp, rfl⟩
    · obtain ⟨n, hn⟩ := List.mem_iff_getElem?.1 hids
      exact Or.inr ⟨n, ids, id, hn, hid, rfl⟩
  · rintro (⟨n, k, rec, hn, hp, rfl⟩ | ⟨n, ids, id, hn, hid, rfl⟩)
    · exact Or.inl ⟨k, List.mem_of_getElem? hn, rec, hp, rfl⟩
    · exact Or.inr ⟨id, ⟨ids, List.mem_of_getElem? hn, hid⟩, rfl⟩

/-- What a handler owes stays owed when another one moves. -/
theorem owed_of_move {h : Nat} {k : Handler} {pc : Broker.RegPc}
    (hh : b'.handlers = b.handlers.modify h (fun k => { k with pc := pc }))
    (hs : b'.sweeps = b.sweeps) (hk : b.handlers[h]? = some k) (hop : op ∈ owed b) :
    op ∈ owed b' ∨ ∃ rec, pending k.pc = some rec ∧ op = .put rec := by
  rcases mem_owed.1 hop with ⟨n, k', rec, hn, hp, rfl⟩ | hsw
  · by_cases hnh : h = n
    · subst hnh
      cases hk.symm.trans hn
      exact Or.inr ⟨rec, hp, rfl⟩
    · refine Or.inl (mem_owed.2 (Or.inl ⟨n, k', rec, ?_, hp, rfl⟩))
      rw [hh, List.getElem?_modify_ne _ _ hnh]
      exact hn
  · refine Or.inl (mem_owed.2 (Or.inr ?_))
    rw [hs]
    exact hsw

/-- **A call that is owed stays owed until it is made.** -/
theorem owed_step {l : Broker.Label} (hstore : cfg.reconnectStore = true) (h : Broker.step x cfg b l = some b')
    (hop : op ∈ owed b) : op ∈ owed b' ∨ ∃ r, l = .reg r ∧ Broker.storeCall cfg b r = some op := by
  -- a handler with nothing to store moves
  have hidle : ∀ {m : Nat} {k : Handler} {pc : Broker.RegPc}, b.handlers[m]? = some k → pending k.pc = none →
      b'.handlers = b.handlers.modify m (fun k => { k with pc := pc }) → b'.sweeps = b.sweeps → op ∈ owed b' := by
    intro m k pc hk hp hh hs
    rcases owed_of_move hh hs hk hop with ho | ⟨rec, hrec, -⟩
    · exact ho
    · rw [hp] at hrec
      cases hrec
  cases l with
  | req l | proxy l =>
    obtain ⟨-, -, -, hh, hs⟩ := Broker.tables_of_not_reg h (fun r hr => by cases hr)
    refine Or.inl ?_
    unfold owed at hop ⊢
    rw [hh, hs]
    exact hop
  | reg l =>
    cases Broker.stepReg_cases h with
    | register r =>
      refine Or.inl ?_
      rcases Broker.handleRegister_cases x cfg b r with ⟨heq, -⟩ | ⟨ad, tgt, reused, nextID, -, heq, -⟩ <;> rw [heq]
      · exact hop
      · rcases mem_owed.1 hop with ⟨n, k, rec, hn, hp, rfl⟩ | hsw
        · exact mem_owed.2 (Or.inl ⟨n, k, rec, getElem?_concat_left hn, hp, rfl⟩)
        · exact mem_owed.2 (Or.inr hsw)
    | @put m _ _ _ hk =>
      rcases owed_of_move (show (Broker.setHandler b m .reply).handlers = _ from rfl) rfl hk hop with
        ho | ⟨rec, hrec, rfl⟩
      · exact Or.inl ho
      · cases hrec
        exact Or.inr ⟨_, rfl, by simp [Broker.storeCall, hk, hstore]⟩
    | @putRemoved m _ _ _ hk =>
      rcases owed_of_move (show (Broker.setHandler b m .returned).handlers = _ from rfl) rfl hk hop with
        ho | ⟨rec, hrec, rfl⟩
      · exact Or.inl ho
      · cases hrec
        exact Or.inr ⟨_, rfl, by simp [Broker.storeCall, hk, hstore]⟩
    | accepted hk | unheard hk | reported hk | ended hk | deliver hk | removed hk | unrecorded hk =>
      exact Or.inl (hidle hk rfl rfl rfl)
    | ignored => exact Or.inl hop
    | sweep now =>
      refine Or.inl ?_
      rcases mem_owed.1 hop with hput | ⟨n, ids, id, hn, hid, rfl⟩
      · exact mem_owed.2 (Or.inl hput)
      · exact mem_owed.2 (Or.inr ⟨n, ids, id, getElem?_concat_left hn, hid, rfl⟩)
    | @sweepDelete m id' rest hm =>
      rcases mem_owed.1 hop with hput | ⟨n, ids, id, hn, hid, rfl⟩
      · exact Or.inl (mem_owed.2 (Or.inl hput))
      · by_cases hmn : m = n
        · subst hmn
          cases hm.symm.trans hn
          rcases List.mem_cons.1 hid with rfl | hid
          · exact Or.inr ⟨_, rfl, by simp [Broker.storeCall, hm, hstore]⟩
          · refine Or.inl (mem_owed.2 (Or.inr ⟨m, rest, id, ?_, hid, rfl⟩))
            exact List.getElem?_set_self (List.getElem?_eq_some_iff.1 hm).1
        · refine Or.inl (mem_owed.2 (Or.inr ⟨n, ids, id, ?_, hid, rfl⟩))
          exact (List.getElem?_set_ne hmn).trans hn

/-- **A step that changes the table under a CCBID owes the store the change.** -/
theorem view_step {l : Broker.Label} (h : Broker.step x cfg b l = some b') (id : UInt64) :
    view b'.reconnects id = view b.reconnects id ∨ Owes b' id := by
  cases l with
  | req l | proxy l =>
    rw [(Broker.tables_of_not_reg h (fun r hr => by cases hr)).2.2.1]
    exact Or.inl rfl
  | reg l =>
    cases Broker.stepReg_cases h with
    | register r =>
      rcases Broker.handleRegister_cases x cfg b r with ⟨heq, -⟩ | ⟨ad, tgt, reused, nextID, -, heq, -⟩ <;> rw [heq]
      · exact Or.inl rfl
      · by_cases hid : tgt.id = id
        · subst hid
          refine Or.inr ⟨_, mem_owed.2 (Or.inl ⟨b.handlers.length, _, _, List.getElem?_concat_length, rfl, rfl⟩), rfl,
            ?_⟩
          exact (congrArg (Option.map identity) (AList.lookup_insert b.reconnects)).symm
        · exact Or.inl (congrArg (Option.map identity) (AList.lookup_insert_ne (Ne.symm hid)))
    | put | accepted | unheard | ignored | reported | ended | deliver | unrecorded | putRemoved | sweepDelete =>
      exact Or.inl rfl
    | @removed m tgt reused now rec hk hrec =>
      refine Or.inl ?_
      by_cases hid : tgt.id = id
      · subst hid
        have hnew : view (b.reconnects.insert tgt.id { rec with updatedAt := now }) tgt.id = some (identity rec) :=
          congrArg (Option.map identity) (AList.lookup_insert b.reconnects)
        have hold : view b.reconnects tgt.id = some (identity rec) := congrArg (Option.map identity) hrec
        exact hnew.trans hold.symm
      · exact congrArg (Option.map identity) (AList.lookup_insert_ne (Ne.symm hid))
    | sweep now =>
      have hl : (Broker.sweepReconnects cfg b now).reconnects.lookup id =
          if id ∈ Broker.stale cfg b now then none else b.reconnects.lookup id := Broker.lookup_foldl_erase _ _ _
      by_cases hid : id ∈ Broker.stale cfg b now
      · rw [if_pos hid] at hl
        refine Or.inr ⟨_, mem_owed.2 (Or.inr ⟨b.sweeps.length, _, id, List.getElem?_concat_length, hid, rfl⟩), rfl, ?_⟩
        exact (congrArg (Option.map identity) hl).symm
      · rw [if_neg hid] at hl
        exact Or.inl (congrArg (Option.map identity) hl)

end

/-! ## The store -/

theorem view_storeOp (stamp : Int → Int) : Writes view (storeOp stamp) opID opView := by
  intro m op id
  have h : (storeOp stamp m op).lookup id = if opID op = id then
      (opRecord op).map (fun rec => { rec with updatedAt := stamp rec.updatedAt }) else m.lookup id := by
    cases op with
    | put rec => exact Overlay.lookup_insert_eq rec.ccbid _ id
    | delete ccbid => exact Overlay.lookup_erase_eq ccbid id
  unfold view
  rw [h]
  split
  · cases op <;> rfl
  · rfl

theorem loadRecord_writes :
    Writes (fun p k => AList.lookup k p.1) Site.loadRecord ReconnectRecord.ccbid some :=
  fun _ rec k => Overlay.lookup_insert_eq rec.ccbid rec k

/-- **A restart loads the store's records**, where they are stored under their own CCBIDs. -/
theorem newBroker_reconnects {cfg : Config} (hstore : cfg.reconnectStore = true) {m : GoMap UInt64 ReconnectRecord}
    (hkey : ∀ id r, m.lookup id = some r → r.ccbid = id) {recs : List ReconnectRecord}
    (hp : recs.Perm (m.entries.map Sigma.snd)) (id : UInt64) :
    (Site.newBroker cfg recs).reconnects.lookup id = m.lookup id := by
  have h := loadRecord_writes.foldl recs (∅, 0) id
  rw [last_of_entries hkey hp] at h
  rw [Site.newBroker, if_pos hstore]
  refine Eq.trans h ?_
  cases m.lookup id <;> rfl

/-! ## Agreement -/

/-- The store has the table's record under each CCBID, or is owed it. -/
structure AgreeInv (s : State) : Prop where
  stored : ∀ id r, s.recs.lookup id = some r → r.ccbid = id
  agree  : ∀ b, s.up = some b → ∀ id, view s.recs id = view b.reconnects id ∨ Owes b id

section
variable {x : Ext} {cfg : Config} {stamp : Int → Int} {s t : State} {b b' : Broker.State}

theorem stored_storeOp {m : GoMap UInt64 ReconnectRecord} (hm : ∀ id r, m.lookup id = some r → r.ccbid = id)
    (op : StoreOp) (id : UInt64) (r : ReconnectRecord) (h : (storeOp stamp m op).lookup id = some r) :
    r.ccbid = id := by
  cases op with
  | put rec =>
    rw [storeOp, Overlay.lookup_insert_eq] at h
    split at h
    · rename_i hid
      cases h
      exact hid
    · exact hm id r h
  | delete ccbid =>
    rw [storeOp, Overlay.lookup_erase_eq] at h
    split at h
    · cases h
    · exact hm id r h

/-- **A call in order leaves agreement**: it brings the table's record, or leaves a call that does. -/
theorem agree_call {r : RegLabel} {recs : GoMap UInt64 ReconnectRecord} {id : UInt64}
    (hstore : cfg.reconnectStore = true)
    (h : Broker.step x cfg b (.reg r) = some b') (hg : ∀ op ∈ Broker.storeCall cfg b r,
      opView op = view b.reconnects (opID op) ∨ Owes b (opID op))
    (hi : view recs id = view b.reconnects id ∨ Owes b id) :
    view (callStore cfg stamp b recs (.reg r)) id = view b'.reconnects id ∨ Owes b' id := by
  rcases view_step h id with hv | ho
  · -- an owed call that has the record is made now, or stays owed
    have howes : Owes b id → view (callStore cfg stamp b recs (.reg r)) id = view b'.reconnects id ∨ Owes b' id := by
      rintro ⟨op, hop, hid, hop'⟩
      rcases owed_step hstore h hop with ho | ⟨r', hr, hcall⟩
      · exact Or.inr ⟨op, ho, hid, hop'.trans hv.symm⟩
      · cases hr
        refine Or.inl ?_
        simp only [callStore, hcall]
        rw [view_storeOp stamp recs op id, if_pos hid, hv]
        exact hop'
    rcases hi with hi | hi
    · cases hcall : Broker.storeCall cfg b r with
      | none =>
        simp only [callStore, hcall]
        exact Or.inl (hi.trans hv.symm)
      | some op =>
        by_cases hid : opID op = id
        · rcases hg op hcall with hop | hop
          · refine Or.inl ?_
            simp only [callStore, hcall]
            rw [view_storeOp stamp recs op id, if_pos hid, hv, ← hid]
            exact hop
          · exact howes (hid ▸ hop)
        · refine Or.inl ?_
          simp only [callStore, hcall]
          rw [view_storeOp stamp recs op id, if_neg hid, hv]
          exact hi
    · exact howes hi
  · exact Or.inr ho

theorem AgreeInv.broker {l : Broker.Label} (hstore : cfg.reconnectStore = true) (hi : AgreeInv s)
    (hg : InOrder cfg s (.broker l)) (h : step x cfg stamp s (.broker l) = some t) : AgreeInv t := by
  obtain ⟨b, b', hup, hb, rfl⟩ := step_broker h
  cases l with
  | reg r =>
    refine ⟨fun id rec hrec => ?_, fun b'' hb'' id => ?_⟩
    · change (callStore cfg stamp b s.recs (.reg r)).lookup id = some rec at hrec
      simp only [callStore] at hrec
      split at hrec
      · exact stored_storeOp hi.stored _ id rec hrec
      · exact hi.stored id rec hrec
    · cases hb''
      exact agree_call hstore hb (hg b hup) (hi.agree b hup id)
  | req l | proxy l =>
    refine ⟨hi.stored, fun b'' hb'' id => ?_⟩
    cases hb''
    rcases view_step hb id with hv | ho
    · rcases hi.agree b hup id with ha | ⟨op, hop, hid, hop'⟩
      · exact Or.inl (ha.trans hv.symm)
      · rcases owed_step hstore hb hop with ho | ⟨r, hr, -⟩
        · exact Or.inr ⟨op, ho, hid, hop'.trans hv.symm⟩
        · cases hr
    · exact Or.inr ho

theorem AgreeInv.step {l : Label} (hstore : cfg.reconnectStore = true) (hi : AgreeInv s) (hg : InOrder cfg s l)
    (h : Flushed.step x cfg stamp s l = some t) : AgreeInv t := by
  cases l with
  | broker l => exact hi.broker hstore hg h
  | crash =>
    rw [step_crash h]
    exact ⟨hi.stored, fun b hb => by cases hb⟩
  | restart recs =>
    obtain ⟨-, hp, rfl⟩ := step_restart h
    refine ⟨hi.stored, fun b hb id => ?_⟩
    cases hb
    exact Or.inl (congrArg (Option.map identity) (newBroker_reconnects hstore hi.stored hp id).symm)

end

/-- **The store agrees with the table whenever no store call is owed**, and then a crash and a restart leave the broker
the table it had. -/
theorem store_agrees (x : Ext) (cfg : Config) (stamp : Int → Int) (ls : List Label) (s : State) (b : Broker.State)
    (hstore : cfg.reconnectStore = true) (hr : run (step x cfg stamp) State.init ls = some s)
    (hm : Meets (step x cfg stamp) (InOrder cfg) State.init ls) (hup : s.up = some b) (hq : owed b = []) :
    (∀ id, view s.recs id = view b.reconnects id) ∧
    ∀ recs t u, step x cfg stamp s .crash = some t → step x cfg stamp t (.restart recs) = some u →
      ∃ b', u.up = some b' ∧ ∀ id, view b'.reconnects id = view b.reconnects id := by
  have h0 : AgreeInv State.init := ⟨fun id r h => (by cases h), fun b hb => by cases hb⟩
  have hi : AgreeInv s := Machine.inv_of_meets (fun _ _ _ hi hg h => hi.step hstore hg h) ls _ s h0 hm hr
  have hagree : ∀ id, view s.recs id = view b.reconnects id := by
    intro id
    rcases hi.agree b hup id with h | ⟨op, hop, -⟩
    · exact h
    · rw [hq] at hop
      cases hop
  refine ⟨hagree, fun recs t u ht hu => ?_⟩
  obtain rfl := step_crash ht
  obtain ⟨-, hp, rfl⟩ := step_restart hu
  refine ⟨_, rfl, fun id => ?_⟩
  rw [← hagree id]
  exact congrArg (Option.map identity) (newBroker_reconnects hstore hi.stored hp id)

/-! ## A call that comes late -/

/-- Targets may reconnect from any address. -/
def roamingConfig : Config := { Broker.plainConfig with reconnectAllowAnyIP := true }

/-- A target registers and its connection ends; `removeTarget` has stamped its record, -/
def leaves : List Label :=
  [.restart [], .broker (.reg (.register ⟨"10.0.0.7:4000", "condor@pool", some ⟨"startd", "", ""⟩, some "c0ffee", 10⟩)),
   .broker (.reg (.put 0)), .broker (.reg (.replied 0 true)), .broker (.reg (.read 0 none)),
   .broker (.reg (.removeTarget 0 20))]

/-- and it registers again, from another address. -/
def returns : Label :=
  .broker (.reg (.register ⟨"10.0.0.8:4000", "condor@pool", some ⟨"startd", "broker:9618#1", "c0ffee"⟩, none, 21⟩))

theorem store_agrees_in_order :
    ∃ s b, run (step Broker.splitExt roamingConfig id) State.init
        (leaves ++ [.broker (.reg (.putRemoved 0)), returns, .broker (.reg (.put 1))]) = some s ∧ s.up = some b ∧
      view b.reconnects 1 = some ("c0ffee", "10.0.0.8", "startd") ∧ ∀ id, view s.recs id = view b.reconnects id := by
  have h := store_agrees Broker.splitExt roamingConfig id
    (leaves ++ [.broker (.reg (.putRemoved 0)), returns, .broker (.reg (.put 1))]) _ _ rfl rfl (by decide +kernel) rfl
    (by decide +kernel)
  exact ⟨_, _, rfl, rfl, by decide +kernel, h.1⟩

/-- **The old handler's call comes last**: nothing is owed, and the store has the address the target has left. -/
theorem late_restamp_disagrees :
    ∃ s b, run (step Broker.splitExt roamingConfig id) State.init
        (leaves ++ [returns, .broker (.reg (.put 1)), .broker (.reg (.putRemoved 0))]) = some s ∧ s.up = some b ∧
      owed b = [] ∧ view b.reconnects 1 = some ("c0ffee", "10.0.0.8", "startd") ∧
      view s.recs 1 = some ("c0ffee", "10.0.0.7", "startd") :=
  ⟨_, _, rfl, rfl, by decide +kernel, by decide +kernel, by decide +kernel⟩

end Flushed
end Ccb
