import Ccb.Flushed
import Ccb.Overlay
/-!
# WriteBehind — the SQLite store against the synchronous one

A `Session` is a store over a table, with the calls made on it: the queue's order, the calls whose batch has gone to
`commit`, and those in the batch since.  With every call before `Close` and every commit successful the table is at each
moment what `memoryStore` (reconnect.go) has after a prefix of the calls, and when `Close` returns after all of them
(`write_behind_refines`).

A commit that fails leaves the table alone, but the writer forgets the batch all the same.  So an operation of it is
made up for only by a later one on its CCBID: where each CCBID of a failed batch is in the batch that next succeeds,
nothing is missing after that commit (`failed_commit_made_up`); where it is not, the operation is gone, also one that
had nothing to do with the failure (`failing_op_discards_batch`).
-/
namespace Ccb
namespace Store

open Overlay (last last_append last_eq_none_iff last_eq_some last_of_entries lookup_insert_eq lookup_erase_eq Writes)
open Machine (run Meets)
open Broker (ReconnectRecord StoreOp)
open Flushed (storeOp)

/-! ## Operations as writes -/

/-- The row of a record. -/
def rowOf (rec : ReconnectRecord) : Row := ⟨rec.cookie, rec.peerIP, rec.name, unixSeconds rec.updatedAt⟩

/-- The record an operation leaves under its CCBID. -/
def opRecord : StoreOp → Option ReconnectRecord
  | .put rec  => some rec
  | .delete _ => none

theorem exec_writes : Writes (fun t k => AList.lookup k t) exec opID (fun op => (opRecord op).map rowOf) := by
  intro t op k
  cases op with
  | put rec => exact lookup_insert_eq rec.ccbid _ k
  | delete ccbid => exact lookup_erase_eq ccbid k

theorem storeOp_writes : Writes (fun t k => AList.lookup k t) (storeOp id) opID opRecord := by
  intro t op k
  cases op with
  | put rec => exact lookup_insert_eq rec.ccbid _ k
  | delete ccbid => exact lookup_erase_eq ccbid k

theorem batchOp_writes : Writes (fun t k => AList.lookup k t) batchOp opID some :=
  fun _ op k => lookup_insert_eq (opID op) op k

/-- A batch has the last operation on each CCBID. -/
theorem lookup_batch (ops : List StoreOp) (k : UInt64) : (ops.foldl batchOp ∅).lookup k = last opID k ops := by
  have h := batchOp_writes.foldl ops ∅ k
  cases hl : last opID k ops with
  | none   => rw [hl] at h; exact h
  | some o => rw [hl] at h; exact h

/-! ## Commits -/

/-- `commit` runs to its end. -/
def succeeds (env : CommitEnv) (batch : GoMap UInt64 StoreOp) : Bool :=
  env.begin_ && (batch.entries.map Sigma.snd).all env.exec && env.commit_

theorem commit_eq (env : CommitEnv) (table : GoMap UInt64 Row) (batch : GoMap UInt64 StoreOp) :
    commit env table batch = if succeeds env batch then (batch.entries.map Sigma.snd).foldl exec table else table := rfl

/-- **A commit applies the last operation on each CCBID**, in whatever order it goes through its batch. -/
theorem lookup_commit {env : CommitEnv} {ops : List StoreOp} (h : succeeds env (ops.foldl batchOp ∅) = true)
    (table : GoMap UInt64 Row) (k : UInt64) :
    (commit env table (ops.foldl batchOp ∅)).lookup k = (ops.foldl exec table).lookup k := by
  rw [commit_eq, if_pos h]
  refine exec_writes.foldl_congr (fun _ => rfl) (fun k => ?_) k
  rw [last_of_entries ?_ (List.Perm.refl _), lookup_batch]
  intro k op hop
  rw [lookup_batch] at hop
  exact (Overlay.last_some hop).2

/-- The operations a step of the writer takes from the queue, -/
def taking (s : State) : Label → List StoreOp
  | .take     => s.ops.take 1
  | .finish _ => s.ops
  | _ => []

/-- what its commit meets, if it makes one, -/
def commitEnv : Label → Option CommitEnv
  | .tick env | .finish env => some env
  | _ => none

/-- and the batch it then has. -/
def due (s : State) (l : Label) : GoMap UInt64 StoreOp := (taking s l).foldl batchOp s.batch

/-- The step commits its batch; there is no commit of no operations. -/
def commits (s : State) (l : Label) : Bool :=
  match commitEnv l with
  | some env => !(due s l).keys.isEmpty && succeeds env (due s l)
  | none     => false

/-- **What a step of the store does**: the writer takes from the front of the queue and then commits, or not. -/
theorem step_writer {s t : State} {l : Label} (h : step s l = some t) :
    s.ops = taking s l ++ t.ops ∧
      ((commitEnv l = none ∧ t.table = s.table ∧ t.batch = due s l ∧ t.returned = s.returned ∧
          (s.closing = true → t.closing = true)) ∨
        ∃ env, commitEnv l = some env ∧ t.table = commit env s.table (due s l) ∧ t.batch = ∅ ∧
          (t.returned = true → t.closing = true ∧ t.ops = [])) := by
  cases l with
  | take =>
    simp only [step] at h
    split at h
    · rename_i op ops hret hops
      cases h
      exact ⟨by simp [taking, hops], Or.inl ⟨rfl, rfl, by simp [due, taking, hops], rfl, id⟩⟩
    · cases h
  | tick env =>
    simp only [step] at h
    split at h
    · cases h
    · rename_i hret
      cases h
      exact ⟨rfl, Or.inr ⟨env, rfl, rfl, rfl, fun hr => absurd hr hret⟩⟩
  | close =>
    simp only [step] at h
    split at h
    · cases h
    · cases h
      exact ⟨rfl, Or.inl ⟨rfl, rfl, rfl, rfl, fun _ => rfl⟩⟩
  | finish env =>
    simp only [step] at h
    split at h
    · rename_i hc
      cases h
      exact ⟨(List.append_nil _).symm, Or.inr ⟨env, rfl, rfl, rfl, fun _ => ⟨(Bool.and_eq_true_iff.1 hc).1, rfl⟩⟩⟩
    · cases h

theorem commits_some {s : State} {l : Label} {env : CommitEnv} (he : commitEnv l = some env) (h : commits s l = true) :
    succeeds env (due s l) = true := by
  simp only [commits, he, Bool.and_eq_true] at h
  exact h.2

/-- **The table changes with a commit that succeeds, and not otherwise.** -/
theorem table_of_not_commits {s t : State} {l : Label} (h : step s l = some t) (hc : commits s l = false) :
    t.table = s.table := by
  obtain ⟨-, ⟨-, htab, -⟩ | ⟨env, henv, htab, -⟩⟩ := step_writer h
  · exact htab
  rw [htab, commit_eq]
  split
  · -- the batch is empty
    rename_i hs
    simp only [commits, henv, hs, Bool.and_true, Bool.not_eq_false', List.isEmpty_iff] at hc
    rw [AList.keys, List.keys, List.map_eq_nil_iff] at hc
    rw [hc]
    rfl
  · rfl

/-! ## Sessions -/

/-- A store with the history of its calls. -/
structure Session where
  store   : State
  /-- The calls, in the order of the queue, -/
  calls   : List StoreOp
  /-- those whose batch has gone to `commit`, -/
  settled : List StoreOp
  /-- and those the writer has taken since. -/
  batched : List StoreOp
  /-- The CCBIDs of the batches that failed since a commit last succeeded. -/
  lost    : List UInt64

/-- A call of `Put` or `Delete`, with the outcome of its select, or a step of the store. -/
inductive Event where
  | call (op : StoreOp) (sent : Bool)
  | store (l : Label)

namespace Session

def start (table : GoMap UInt64 Row) : Session := ⟨openStore table, [], [], [], []⟩

/-- The history after a step of the store to `t`. -/
def after (s : Session) (l : Label) (t : State) : Session :=
  let batched := s.batched ++ taking s.store l
  match commitEnv l with
  | none     => { s with store := t, batched := batched }
  | some _   => { s with store := t, settled := s.settled ++ batched, batched := [],
                         lost := if commits s.store l then [] else s.lost ++ (due s.store l).keys }

def step (s : Session) : Event → Option Session
  | .call op sent =>
    (enqueue s.store op sent).map (fun t => { s with store := t, calls := if sent then s.calls ++ [op] else s.calls })
  | .store l => (Store.step s.store l).map (s.after l)

/-- The history is the store's: the calls are settled, in the batch or in the queue. -/
structure Kept (s : Session) : Prop where
  calls : s.calls = s.settled ++ s.batched ++ s.store.ops
  batch : s.store.batch = s.batched.foldl batchOp ∅

/-- What a call does to the store. -/
theorem enqueue_some {s t : State} {op : StoreOp} {sent : Bool} (h : enqueue s op sent = some t) :
    t = { s with ops := if sent then s.ops ++ [op] else s.ops } := by
  unfold enqueue at h
  split at h
  · rename_i hs
    split at h <;> cases h
    rw [if_pos hs]
  · rename_i hs
    split at h <;> cases h
    rw [if_neg hs]

section
variable {s t : Session} {e : Event}

theorem Kept.due (hk : s.Kept) (l : Label) :
    Store.due s.store l = (s.batched ++ taking s.store l).foldl batchOp ∅ := by
  rw [Store.due, hk.batch, List.foldl_append]

theorem Kept.step (hk : s.Kept) (h : s.step e = some t) : t.Kept := by
  cases e with
  | call op sent =>
    obtain ⟨u, hu, rfl⟩ := Option.map_eq_some_iff.1 h
    rw [enqueue_some hu]
    refine ⟨?_, hk.batch⟩
    cases sent with
    | true => exact (congrArg (· ++ [op]) hk.calls).trans (List.append_assoc _ _ _)
    | false => exact hk.calls
  | store l =>
    obtain ⟨u, hu, rfl⟩ := Option.map_eq_some_iff.1 h
    obtain ⟨hops, ⟨hc, -, hb, -⟩ | ⟨env, hc, -, hb, -⟩⟩ := step_writer hu
    · simp only [after, hc]
      refine ⟨?_, ?_⟩
      · rw [hk.calls, hops]
        simp only [List.append_assoc]
      · rw [hb, hk.due]
    · simp only [after, hc]
      refine ⟨?_, hb⟩
      rw [hk.calls, hops]
      simp only [List.append_assoc, List.append_nil]

end

/-! ## The table under one CCBID -/

section
variable {table : GoMap UInt64 Row} {ccbid : UInt64} {s t : Session} {e : Event}

/-- The table has under the CCBID what the settled calls leave, unless a failed batch had it. -/
def Current (table : GoMap UInt64 Row) (ccbid : UInt64) (s : Session) : Prop :=
  ccbid ∉ s.lost → s.store.table.lookup ccbid = (s.settled.foldl exec table).lookup ccbid

/-- A successful commit has an operation on the CCBID, where a failed batch before it had one. -/
def MadeUp (ccbid : UInt64) (s : Session) : Event → Prop
  | .store l  => commits s.store l = true → ccbid ∈ s.lost → ccbid ∈ due s.store l
  | .call _ _ => True

instance decidableMadeUp (ccbid : UInt64) (s : Session) : ∀ e, Decidable (MadeUp ccbid s e)
  | .store l  => inferInstanceAs (Decidable (commits s.store l = true → ccbid ∈ s.lost → ccbid ∈ due s.store l))
  | .call _ _ => .isTrue trivial

theorem lookup_foldl_of_last {xs ys : List StoreOp} (h : last opID ccbid ys = none) :
    ((xs ++ ys).foldl exec table).lookup ccbid = (xs.foldl exec table).lookup ccbid := by
  rw [List.foldl_append]
  have := exec_writes.foldl ys (xs.foldl exec table) ccbid
  rw [h] at this
  exact this

theorem mem_due (hk : s.Kept) (l : Label) :
    ccbid ∉ due s.store l ↔ last opID ccbid (s.batched ++ taking s.store l) = none := by
  rw [hk.due, ← AList.lookup_eq_none, lookup_batch]

/-- **A commit that succeeds brings the CCBID up to date**, if it was or the batch has it. -/
theorem commit_current (hk : s.Kept) {l : Label} {env : CommitEnv} (hs : succeeds env (due s.store l) = true)
    (hc : ccbid ∉ due s.store l → s.store.table.lookup ccbid = (s.settled.foldl exec table).lookup ccbid) :
    (commit env s.store.table (due s.store l)).lookup ccbid =
      ((s.settled ++ (s.batched ++ taking s.store l)).foldl exec table).lookup ccbid := by
  rw [hk.due] at hs ⊢
  rw [lookup_commit hs]
  have h1 := exec_writes.foldl (s.batched ++ taking s.store l) s.store.table ccbid
  cases hl : last opID ccbid (s.batched ++ taking s.store l) with
  | some op =>
    have h2 := exec_writes.foldl (s.batched ++ taking s.store l) (s.settled.foldl exec table) ccbid
    rw [hl] at h1 h2
    rw [List.foldl_append (l := s.settled)]
    exact h1.trans h2.symm
  | none =>
    rw [hl] at h1
    rw [lookup_foldl_of_last hl]
    exact h1.trans (hc ((mem_due hk l).2 hl))

theorem Current.step (hk : s.Kept) (hc : s.Current table ccbid) (hm : s.MadeUp ccbid e) (h : s.step e = some t) :
    t.Current table ccbid := by
  cases e with
  | call op sent =>
    obtain ⟨u, hu, rfl⟩ := Option.map_eq_some_iff.1 h
    rw [enqueue_some hu]
    exact hc
  | store l =>
    obtain ⟨u, hu, rfl⟩ := Option.map_eq_some_iff.1 h
    obtain ⟨-, ⟨hn, htab, -⟩ | ⟨env, henv, htab, -⟩⟩ := step_writer hu
    · simp only [after, hn, Current, htab]
      exact hc
    · simp only [after, henv, Current]
      split
      · rename_i hok
        intro _
        rw [htab]
        exact commit_current hk (commits_some henv hok) (fun hnot => hc (fun hl => hnot (hm hok hl)))
      · -- the table is as before, and what the batch had on the CCBID is lost
        rename_i hno
        intro hlost
        rw [List.mem_append, not_or] at hlost
        rw [table_of_not_commits hu (Bool.not_eq_true _ |>.mp hno), lookup_foldl_of_last ((mem_due hk l).1 hlost.2)]
        exact hc hlost.1

theorem run_current {evs : List Event} (hr : run Session.step (start table) evs = some s)
    (hm : Meets Session.step (MadeUp ccbid) (start table) evs) : s.Kept ∧ s.Current table ccbid := by
  have h0 : (start table).Kept ∧ (start table).Current table ccbid := ⟨⟨rfl, rfl⟩, fun _ => rfl⟩
  refine Machine.inv_of_meets (I := fun s => s.Kept ∧ s.Current table ccbid) ?_ evs _ s h0 hm hr
  intro s e t hi hg ht
  exact ⟨hi.1.step ht, hi.2.step hi.1 hg ht⟩

end

/-! ## Failed commits -/

/-- **A failed commit loses nothing that is made up for.**  The table changes with successful commits only; and after
one, a CCBID that was in each successful batch after a failed one with it has in the table what all calls taken so far
leave, those of failed batches included. -/
theorem failed_commit_made_up (table : GoMap UInt64 Row) (ccbid : UInt64) (evs : List Event) (l : Label) (s t : Session)
    (hr : run Session.step (start table) evs = some s) (ht : s.step (.store l) = some t)
    (hm : Meets Session.step (MadeUp ccbid) (start table) (evs ++ [.store l])) :
    (commits s.store l = false → t.store.table = s.store.table) ∧
    (commits s.store l = true → t.calls = t.settled ++ t.store.ops ∧
      t.store.table.lookup ccbid = (t.settled.foldl exec table).lookup ccbid) := by
  have hrt : run Session.step (start table) (evs ++ [.store l]) = some t := by
    rw [Machine.run_append, hr]
    show (s.step (.store l)).bind _ = _
    rw [ht]
    rfl
  obtain ⟨hk, hc⟩ := run_current hrt hm
  obtain ⟨u, hu, rfl⟩ := Option.map_eq_some_iff.1 ht
  have hst : (s.after l u).store = u := by
    unfold after
    cases commitEnv l <;> rfl
  refine ⟨fun hno => ?_, fun hok => ?_⟩
  · rw [hst]
    exact table_of_not_commits hu hno
  cases henv : commitEnv l with
  | none => simp [commits, henv] at hok
  | some env =>
    have hb : (s.after l u).batched = [] := by simp only [after, henv]
    have hl : (s.after l u).lost = [] := by simp only [after, henv, hok, if_true]
    refine ⟨?_, hc ?_⟩
    · rw [hk.calls, hb, List.append_nil]
    · rw [hl]
      exact List.not_mem_nil

/-- Every part of a commit succeeds. -/
def sound : CommitEnv := ⟨true, fun _ => true, true⟩

/-- The operations on the CCBID fail, each time. -/
def poisoned (ccbid : UInt64) : CommitEnv := ⟨true, fun op => opID op != ccbid, true⟩

/-- The `Put` of a registration. -/
def flap (id : UInt64) (now : Int) : StoreOp := .put ⟨id, "c", "10.0.0.7", "startd", now⟩

def flapEvents : List Event :=
  [.call (flap 1 0) true, .store .take, .store (.tick ⟨false, fun _ => true, true⟩), .call (flap 1 5) true,
    .store .take]

theorem failed_commit_made_up_flap :
    ∃ s t, run Session.step (start ∅) flapEvents = some s ∧ s.step (.store (.tick sound)) = some t ∧ s.lost = [1] ∧
      t.store.table.lookup 1 = (t.settled.foldl exec ∅).lookup 1 := by
  have h := failed_commit_made_up ∅ 1 flapEvents (.tick sound) _ _ rfl rfl (by decide)
  exact ⟨_, _, rfl, rfl, rfl, (h.2 (by decide)).2⟩

/-- **One operation that fails discards the batch**: that on CCBID 2 never succeeds, and the one on CCBID 1 that shares
its batch is not in the table after the commit that does. -/
theorem failing_op_discards_batch :
    let tick := Event.store (.tick (poisoned 2))
    let evs := [.call (flap 1 0) true, .call (flap 2 0) true, .store .take, .store .take, tick, .call (flap 3 0) true,
      .store .take]
    ∃ s t, run Session.step (start ∅) evs = some s ∧ s.step tick = some t ∧
      commits s.store (.tick (poisoned 2)) = true ∧ t.settled = [flap 1 0, flap 2 0, flap 3 0] ∧
      t.store.table.lookup 1 = none ∧ (t.settled.foldl exec ∅).lookup 1 = some
        (rowOf ⟨1, "c", "10.0.0.7", "startd", 0⟩) :=
  ⟨_, _, rfl, rfl, by decide, rfl, by decide, by decide⟩

/-! ## Against the synchronous store -/

/-- The calls come before `Close`, and the commits succeed. -/
def Flawless (s : Session) : Event → Prop
  | .call _ _ => s.store.closing = false
  | .store l  => (commitEnv l).isSome → (due s.store l).keys ≠ [] → commits s.store l = true

instance decidableFlawless (s : Session) : ∀ e, Decidable (Flawless s e)
  | .call _ _ => inferInstanceAs (Decidable (s.store.closing = false))
  | .store l  =>
    inferInstanceAs (Decidable ((commitEnv l).isSome → (due s.store l).keys ≠ [] → commits s.store l = true))

/-- In a flawless session nothing is lost, and the writer's last batch was everything. -/
structure Intact (table : GoMap UInt64 Row) (s : Session) : Prop where
  kept    : s.Kept
  table   : ∀ ccbid, s.store.table.lookup ccbid = (s.settled.foldl exec table).lookup ccbid
  drained : s.store.returned = true → s.store.closing = true ∧ s.batched = [] ∧ s.store.ops = []

theorem Intact.step {table : GoMap UInt64 Row} {s t : Session} {e : Event} (hi : s.Intact table) (hf : s.Flawless e)
    (h : s.step e = some t) : t.Intact table := by
  have hk := hi.kept.step h
  cases e with
  | call op sent =>
    obtain ⟨u, hu, rfl⟩ := Option.map_eq_some_iff.1 h
    refine ⟨hk, ?_, ?_⟩
    · rw [enqueue_some hu]
      exact hi.table
    · rw [enqueue_some hu]
      intro hret
      exact absurd (hi.drained hret).1 (by rw [hf]; exact Bool.false_ne_true)
  | store l =>
    obtain ⟨u, hu, rfl⟩ := Option.map_eq_some_iff.1 h
    obtain ⟨hops, ⟨hn, htab, -, hret, hcl⟩ | ⟨env, henv, htab, -, hret⟩⟩ := step_writer hu
    · simp only [after, hn] at hk ⊢
      refine ⟨hk, fun ccbid => by rw [htab]; exact hi.table ccbid, fun hr => ?_⟩
      obtain ⟨hc, hb, ho⟩ := hi.drained (hret.symm.trans hr)
      rw [ho, List.nil_eq_append_iff] at hops
      exact ⟨hcl hc, by rw [hb, hops.1]; rfl, hops.2⟩
    · simp only [after, henv] at hk ⊢
      refine ⟨hk, fun ccbid => ?_, fun hr => ⟨(hret hr).1, rfl, (hret hr).2⟩⟩
      cases hok : commits s.store l with
      | true =>
        rw [htab]
        exact commit_current hi.kept (commits_some henv hok) (fun _ => hi.table ccbid)
      | false =>
        -- only a batch of nothing is not committed
        have hempty : (due s.store l).keys = [] := by
          by_contra hne
          rw [hf (by rw [henv]; rfl) hne] at hok
          cases hok
        have hnot : ccbid ∉ due s.store l := by
          rw [AList.mem_keys, hempty]
          exact List.not_mem_nil
        rw [table_of_not_commits hu hok, lookup_foldl_of_last ((mem_due hi.kept l).1 hnot)]
        exact hi.table ccbid

/-- `memoryStore` with the table's records, after the calls, -/
def memory (table : GoMap UInt64 Row) (calls : List StoreOp) : GoMap UInt64 ReconnectRecord :=
  ((load table (fun _ => false)).map StoreOp.put ++ calls).foldl (storeOp id) ∅

/-- and its `Load`. -/
def memoryLoad (recs : GoMap UInt64 ReconnectRecord) : List ReconnectRecord := recs.entries.map Sigma.snd

/-- A record with its time cut to whole seconds. -/
def cut (rec : ReconnectRecord) : ReconnectRecord := { rec with updatedAt := ofUnixSeconds (unixSeconds rec.updatedAt) }

/-- The record a row is loaded as. -/
def loaded (ccbid : UInt64) (row : Row) : ReconnectRecord :=
  ⟨ccbid, row.cookie, row.peerIP, row.name, ofUnixSeconds row.updatedAt⟩

theorem load_eq (table : GoMap UInt64 Row) :
    load table (fun _ => false) = table.entries.map (fun e => loaded e.1 e.2) := by
  simp only [load, loaded, Bool.not_false, List.filter_true]

theorem mem_load {table : GoMap UInt64 Row} {rec : ReconnectRecord} :
    rec ∈ load table (fun _ => false) ↔ ∃ row, table.lookup rec.ccbid = some row ∧ rec = loaded rec.ccbid row := by
  rw [load_eq, List.mem_map]
  constructor
  · rintro ⟨⟨k, row⟩, he, rfl⟩
    exact ⟨row, AList.mem_lookup_iff.2 he, rfl⟩
  · rintro ⟨row, hl, hrec⟩
    exact ⟨⟨rec.ccbid, row⟩, AList.mem_lookup_iff.1 hl, hrec.symm⟩

theorem rowOf_loaded (ccbid : UInt64) (row : Row) : rowOf (loaded ccbid row) = row := by
  have h : unixSeconds (ofUnixSeconds row.updatedAt) = row.updatedAt := by
    unfold unixSeconds ofUnixSeconds
    omega
  simp only [rowOf, loaded, h]

/-- The last of the loaded records under a CCBID is the one of its row. -/
theorem last_load (table : GoMap UInt64 Row) (k : UInt64) :
    last opID k ((load table (fun _ => false)).map StoreOp.put) = (table.lookup k).map
      (fun row => .put (loaded k row)) := by
  cases hl : table.lookup k with
  | none =>
    rw [Option.map_none, last_eq_none_iff]
    rintro op hop rfl
    obtain ⟨rec, hrec, rfl⟩ := List.mem_map.1 hop
    obtain ⟨row, hrow, -⟩ := mem_load.1 hrec
    exact absurd (hrow.symm.trans hl) (Option.some_ne_none row)
  | some row =>
    refine last_eq_some (List.mem_map_of_mem (mem_load.2 ⟨row, hl, rfl⟩)) rfl (fun op hop hk => ?_)
    obtain ⟨rec, hrec, rfl⟩ := List.mem_map.1 hop
    obtain ⟨row', hrow, hrec⟩ := mem_load.1 hrec
    cases hk
    cases hrow.symm.trans hl
    exact congrArg _ hrec

theorem lookup_memory (table : GoMap UInt64 Row) (calls : List StoreOp) (k : UInt64) :
    (memory table calls).lookup k =
      ((last opID k calls).or ((table.lookup k).map (fun row => .put (loaded k row)))).elim none opRecord := by
  have h := storeOp_writes.foldl ((load table (fun _ => false)).map StoreOp.put ++ calls) ∅ k
  rw [last_append, last_load, AList.lookup_empty] at h
  exact h

/-- **The synchronous store has the rows that the statements leave**, were they executed one by one. -/
theorem memory_rows (table : GoMap UInt64 Row) (calls : List StoreOp) (k : UInt64) :
    ((memory table calls).lookup k).map rowOf = (calls.foldl exec table).lookup k := by
  have h := exec_writes.foldl calls table k
  rw [lookup_memory]
  cases hl : last opID k calls with
  | some op => rw [hl] at h; exact h.symm
  | none =>
    rw [hl] at h
    refine Eq.trans ?_ h.symm
    cases table.lookup k with
    | none => rfl
    | some row => exact congrArg some (rowOf_loaded k row)

theorem memory_keyed {table : GoMap UInt64 Row} {calls : List StoreOp} {k : UInt64} {rec : ReconnectRecord}
    (h : (memory table calls).lookup k = some rec) : rec.ccbid = k := by
  rw [lookup_memory] at h
  cases hl : last opID k calls with
  | some op =>
    rw [hl] at h
    have hk := (Overlay.last_some hl).2
    cases op with
    | put rec' => cases h; exact hk
    | delete id => cases h
  | none =>
    rw [hl] at h
    cases hrow : table.lookup k with
    | none => rw [hrow] at h; cases h
    | some row => rw [hrow] at h; cases h; rfl

/-- The two stores load the same records. -/
def SameContents (table : GoMap UInt64 Row) (recs : GoMap UInt64 ReconnectRecord) : Prop :=
  (load table (fun _ => false)).Perm ((memoryLoad recs).map cut)

theorem sameContents_of_rows {table : GoMap UInt64 Row} {recs : GoMap UInt64 ReconnectRecord}
    (hkey : ∀ k rec, recs.lookup k = some rec → rec.ccbid = k)
    (hrow : ∀ k, table.lookup k = (recs.lookup k).map rowOf) : SameContents table recs := by
  have hmem : ∀ e ∈ recs.entries, e.2.ccbid = e.1 := fun e he => hkey e.1 e.2 (AList.mem_lookup_iff.2 he)
  refine (List.perm_ext_iff_of_nodup ?_ ?_).2 (fun rec => ?_)
  · -- both lists have one record for each key
    apply List.Nodup.of_map ReconnectRecord.ccbid
    rw [load_eq, List.map_map]
    exact table.nodupKeys
  · apply List.Nodup.of_map ReconnectRecord.ccbid
    have hk : ((memoryLoad recs).map cut).map ReconnectRecord.ccbid = recs.entries.map Sigma.fst := by
      rw [memoryLoad, List.map_map, List.map_map]
      exact List.map_congr_left hmem
    rw [hk]
    exact recs.nodupKeys
  · rw [mem_load, memoryLoad, List.mem_map]
    constructor
    · rintro ⟨row, hl, hrec⟩
      rw [hrow, Option.map_eq_some_iff] at hl
      obtain ⟨r, hr, rfl⟩ := hl
      refine ⟨r, List.mem_map.2 ⟨⟨_, r⟩, AList.mem_lookup_iff.1 hr, rfl⟩, ?_⟩
      rw [hrec, ← hkey _ _ hr]
      rfl
    · rintro ⟨r, hr, rfl⟩
      obtain ⟨e, he, rfl⟩ := List.mem_map.1 hr
      refine ⟨rowOf e.2, ?_, rfl⟩
      rw [hrow]
      have hl : recs.lookup e.1 = some e.2 := AList.mem_lookup_iff.2 he
      rw [← hmem e he] at hl
      exact congrArg (Option.map rowOf) hl

/-- What a session's table is to the calls made on it. -/
structure Refines (table : GoMap UInt64 Row) (s : Session) : Prop where
  /-- At every moment it is what the synchronous store has after a prefix of the calls, -/
  behind   : ∃ n ≤ s.calls.length, SameContents s.store.table (memory table (s.calls.take n))
  /-- once the writer has returned, after all of them, -/
  flushed  : s.store.returned = true → SameContents s.store.table (memory table s.calls)
  /-- and after `Close` it can return, until it has. -/
  finishes : ∀ env, s.store.closing = true → s.store.returned = false → (Store.step s.store (.finish env)).isSome

theorem Intact.sameContents {table : GoMap UInt64 Row} {s : Session} (hi : s.Intact table) :
    SameContents s.store.table (memory table s.settled) :=
  sameContents_of_rows (fun _ _ => memory_keyed) (fun k => (hi.table k).trans (memory_rows table s.settled k).symm)

/-- **The write-behind store refines the synchronous one.** -/
theorem write_behind_refines (table : GoMap UInt64 Row) (evs : List Event) (s : Session)
    (hr : run Session.step (start table) evs = some s) (hm : Meets Session.step Flawless (start table) evs) :
    Refines table s := by
  have h0 : (start table).Intact table := ⟨⟨rfl, rfl⟩, fun _ => rfl, fun h => by cases h⟩
  have hi : s.Intact table := Machine.inv_of_meets (fun _ _ _ hi hf ht => hi.step hf ht) evs _ s h0 hm hr
  have hcalls := hi.kept.calls
  refine ⟨⟨s.settled.length, ?_, ?_⟩, fun hret => ?_, fun env hc hret => ?_⟩
  · rw [hcalls, List.append_assoc, List.length_append]
    omega
  · rw [hcalls, List.append_assoc, List.take_left]
    exact hi.sameContents
  · obtain ⟨-, hb, ho⟩ := hi.drained hret
    rw [hcalls, hb, ho, List.append_nil, List.append_nil]
    exact hi.sameContents
  · simp only [Store.step, hc, hret]
    rfl

/-- Two operations on one CCBID in one batch, a third at `Close`. -/
def closeEvents : List Event :=
  [.call (flap 1 0) true, .call (.delete 1) true, .store .take, .store .take, .call (flap 2 7) true,
    .store (.tick sound), .store .close, .store (.finish sound)]

theorem write_behind_refines_close :
    ∃ s, run Session.step (start ∅) closeEvents = some s ∧ s.store.returned = true ∧ Refines ∅ s :=
  ⟨_, rfl, rfl, write_behind_refines ∅ closeEvents _ rfl (by decide)⟩

end Session
end Store
end Ccb
