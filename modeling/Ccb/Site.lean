import Ccb.Machine
import Ccb.Store
import Ccb.BrokerRoute
/-!
# Site — the broker over crashes and restarts

A `Site` is the broker process, when one is up, with its reconnect store.  A crash loses the process and everything the
store has not committed; a restart opens the store on what the table holds and goes through `loadReconnects`.  `issued`
is the history the uniqueness of CCBIDs is about: those handed to registrations and not swept since.

`loadReconnects` resumes from the largest loaded CCBID plus 100, and from zero when it loads none.  So CCBIDs stay
distinct in every run whose restarts load a record at most 100 below every CCBID handed out (`issued_nodup_of_guarded`),
and not in every run: `crash_before_flush_reissues`.
-/
namespace Ccb
namespace Site

open Machine (run Meets)
open Broker (ReconnectRecord Handler Config Ext)

structure State where
  up     : Option Broker.State
  store  : Store.State
  issued : List UInt64

def State.init : State := ⟨none, Store.openStore ∅, []⟩

/-- One round of `loadReconnects`' loop: the record goes into the table, and `maxID` is raised to its CCBID. -/
def loadRecord (p : GoMap UInt64 ReconnectRecord × UInt64) (r : ReconnectRecord) :
    GoMap UInt64 ReconnectRecord × UInt64 :=
  (p.1.insert r.ccbid r, if r.ccbid > p.2 then r.ccbid else p.2)

def loadReconnects (recs : List ReconnectRecord) : Broker.State :=
  let p := recs.foldl loadRecord (∅, 0)
  { Broker.State.init with reconnects := p.1, nextID := if p.2 > 0 then p.2 + 100 else 0 }

/-- The broker `New` starts. -/
def newBroker (cfg : Config) (recs : List ReconnectRecord) : Broker.State :=
  if cfg.reconnectStore then loadReconnects recs else Broker.State.init

/-- A registration takes its CCBID; one that reclaims a CCBID somebody holds takes no new one. -/
def note (issued : List UInt64) (h : Handler) : List UInt64 :=
  if h.reused = true ∧ h.target.id ∈ issued then issued else issued ++ [h.target.id]

/-- The history after a broker step from `b` to `b'`: swept CCBIDs leave it, those of new registrations enter it. -/
def noteStep (issued : List UInt64) (b b' : Broker.State) : List UInt64 :=
  let swept := (b'.sweeps.drop b.sweeps.length).flatten
  (b'.handlers.drop b.handlers.length).foldl note (issued.filter (fun id => !swept.contains id))

inductive Label where
  /-- A step of the broker; `sent` is `enqueue`'s choice when the step makes a store call. -/
  | broker (l : Broker.Label) (sent : Bool)
  | store (l : Store.Label)
  | crash
  /-- A restart, with the CCBIDs whose rows are unreadable; `none` when the query fails and `New` returns an error. -/
  | restart (unreadable : Option (List UInt64))

/-- The store after the call a broker step makes. -/
def callStore (cfg : Config) (b : Broker.State) (st : Store.State) (sent : Bool) : Broker.Label → Option Store.State
  | .reg l =>
    match Broker.storeCall cfg b l with
    | some op => Store.enqueue st op sent
    | none    => some st
  | _ => some st

def step (x : Ext) (cfg : Config) (s : State) : Label → Option State
  | .broker l sent =>
    match s.up with
    | none   => none
    | some b =>
      match Broker.step x cfg b l, callStore cfg b s.store sent l with
      | some b', some st => some ⟨some b', st, noteStep s.issued b b'⟩
      | _, _ => none
  | .store l =>
    match s.up, Store.step s.store l with
    | some _, some st => some { s with store := st }
    | _, _ => none
  | .crash =>
    match s.up with
    | some _ => some { s with up := none, store := Store.openStore s.store.table }
    | none   => none
  | .restart unreadable =>
    match s.up, unreadable with
    | none, some ids =>
      some { s with up := some (newBroker cfg (Store.load s.store.table (fun id => ids.contains id))) }
    | none, none     => some s
    | some _, _      => none

/-- The records a restart loads. -/
def loaded (cfg : Config) (s : State) (ids : List UInt64) : List ReconnectRecord :=
  if cfg.reconnectStore then Store.load s.store.table (fun id => ids.contains id) else []

/-- A restart loads, for each CCBID handed out and not swept, a record at most 100 below it; and the counter does not
wrap, at a restart or later. -/
def Guarded (cfg : Config) (s : State) : Label → Prop
  | .restart (some ids) =>
    (∀ id ∈ s.issued, ∃ r ∈ loaded cfg s ids, 0 < r.ccbid ∧ id.toNat ≤ r.ccbid.toNat + 100) ∧
      ∀ r ∈ loaded cfg s ids, r.ccbid.toNat + 100 < UInt64.size
  | .broker _ _ => ∀ b ∈ s.up, b.nextID.toNat + 1 < UInt64.size
  | _ => True

instance (cfg : Config) (s : State) : ∀ l, Decidable (Guarded cfg s l)
  | .restart (some ids) =>
    @instDecidableAnd _ _
      (List.decidableBAll (fun id => ∃ r ∈ loaded cfg s ids, 0 < r.ccbid ∧ id.toNat ≤ r.ccbid.toNat + 100) s.issued)
      (List.decidableBAll (fun r => r.ccbid.toNat + 100 < UInt64.size) (loaded cfg s ids))
  | .broker _ _ => inferInstanceAs (Decidable (∀ b ∈ s.up, b.nextID.toNat + 1 < UInt64.size))
  | .restart none | .store _ | .crash => .isTrue trivial

/-! ## `loadReconnects` -/

/-- What the loop has established after `recs`: `maxID` is at least every CCBID loaded and is one of them, and so is
every key of the table. -/
theorem foldl_loadRecord : ∀ (recs : List ReconnectRecord) (p : GoMap UInt64 ReconnectRecord × UInt64),
    p.2 ≤ (recs.foldl loadRecord p).2 ∧ (∀ r ∈ recs, r.ccbid ≤ (recs.foldl loadRecord p).2) ∧
      ((recs.foldl loadRecord p).2 = p.2 ∨ ∃ r ∈ recs, (recs.foldl loadRecord p).2 = r.ccbid) ∧
      ∀ id r, (recs.foldl loadRecord p).1.lookup id = some r → p.1.lookup id = some r ∨ ∃ r ∈ recs, r.ccbid = id
  | [], p => by simp
  | r :: recs, p => by
    obtain ⟨h1, h2, h3, h4⟩ := foldl_loadRecord recs (loadRecord p r)
    rw [List.foldl_cons]
    have hmax : p.2 ≤ (loadRecord p r).2 ∧ r.ccbid ≤ (loadRecord p r).2 := by
      unfold loadRecord
      dsimp only
      split
      · rename_i hgt
        exact ⟨UInt64.le_of_lt hgt, UInt64.le_refl _⟩
      · rename_i hle
        exact ⟨UInt64.le_refl _, UInt64.not_lt.1 hle⟩
    refine ⟨UInt64.le_trans hmax.1 h1, ?_, ?_, ?_⟩
    · intro r' hr'
      rcases List.mem_cons.1 hr' with rfl | hr'
      · exact UInt64.le_trans hmax.2 h1
      · exact h2 r' hr'
    · rcases h3 with h3 | ⟨r', hr', h3⟩
      · rw [h3]
        unfold loadRecord
        dsimp only
        split
        · exact Or.inr ⟨r, List.mem_cons_self, rfl⟩
        · exact Or.inl rfl
      · exact Or.inr ⟨r', List.mem_cons_of_mem _ hr', h3⟩
    · intro id r' hl
      rcases h4 id r' hl with hl | ⟨r'', hr'', rfl⟩
      · by_cases hid : id = r.ccbid
        · exact Or.inr ⟨r, List.mem_cons_self, hid.symm⟩
        · rw [loadRecord, AList.lookup_insert_ne hid] at hl
          exact Or.inl hl
      · exact Or.inr ⟨r'', List.mem_cons_of_mem _ hr'', rfl⟩

/-- **A restarted counter stands at least 100 above each record it loaded**, where nothing wraps. -/
theorem le_nextID_of_loaded {recs : List ReconnectRecord} (hw : ∀ r ∈ recs, r.ccbid.toNat + 100 < UInt64.size)
    {r : ReconnectRecord} (hr : r ∈ recs) (hpos : 0 < r.ccbid) :
    r.ccbid.toNat + 100 ≤ (loadReconnects recs).nextID.toNat := by
  obtain ⟨-, h2, h3, -⟩ := foldl_loadRecord recs (∅, 0)
  have hle := UInt64.le_iff_toNat_le.1 (h2 r hr)
  have hgt : (recs.foldl loadRecord (∅, 0)).2 > 0 := UInt64.lt_of_lt_of_le hpos (h2 r hr)
  have hlt : (recs.foldl loadRecord (∅, 0)).2.toNat + 100 < UInt64.size := by
    rcases h3 with h3 | ⟨r', hr', h3⟩
    · rw [h3]; decide
    · rw [h3]; exact hw r' hr'
  unfold loadReconnects
  dsimp only
  rw [if_pos hgt, UInt64.toNat_add, show (100 : UInt64).toNat = 100 from rfl, Nat.mod_eq_of_lt hlt]
  omega

theorem mem_of_loadReconnects_lookup {recs : List ReconnectRecord} {id : UInt64} {r : ReconnectRecord}
    (h : (loadReconnects recs).reconnects.lookup id = some r) : ∃ r ∈ recs, r.ccbid = id := by
  obtain ⟨-, -, -, h4⟩ := foldl_loadRecord recs (∅, 0)
  rcases h4 id r h with h | h
  · simp at h
  · exact h

/-! ## The counter is above every CCBID in use -/

/-- The broker's counter is at or above every CCBID of `issued` and of its records. -/
structure Bounded (issued : List UInt64) (b : Broker.State) : Prop where
  issued  : ∀ id ∈ issued, id.toNat ≤ b.nextID.toNat
  records : ∀ id, (b.reconnects.lookup id).isSome = true → id.toNat ≤ b.nextID.toNat

structure Inv (s : State) : Prop where
  nodup   : s.issued.Nodup
  bounded : ∀ b, s.up = some b → Bounded s.issued b

/-- Without a new registration the history only loses what was swept. -/
theorem noteStep_of_length (issued : List UInt64) {b b' : Broker.State} (h : b'.handlers.length = b.handlers.length) :
    ∃ p : UInt64 → Bool, noteStep issued b b' = issued.filter p := by
  unfold noteStep
  rw [List.drop_eq_nil_of_le (Nat.le_of_eq h)]
  exact ⟨_, rfl⟩

theorem noteStep_of_insert (issued : List UInt64) {b b' : Broker.State} {h : Handler}
    (hh : b'.handlers = b.handlers ++ [h]) : ∃ p : UInt64 → Bool, noteStep issued b b' = note (issued.filter p) h := by
  unfold noteStep
  rw [hh, List.drop_left]
  exact ⟨_, rfl⟩

theorem Bounded.filter {issued : List UInt64} {b : Broker.State} (hb : Bounded issued b) (p : UInt64 → Bool) :
    Bounded (issued.filter p) b :=
  ⟨fun id hid => hb.issued id (List.mem_of_mem_filter hid), hb.records⟩

theorem mem_note {issued : List UInt64} {h : Handler} {id : UInt64} (hid : id ∈ note issued h) :
    id ∈ issued ∨ id = h.target.id := by
  unfold note at hid
  split at hid
  · exact Or.inl hid
  · simpa using hid

/-- **A registration's CCBID is new to the history, or is already there and reclaimed.** -/
theorem nodup_note {issued : List UInt64} {h : Handler} (hn : issued.Nodup)
    (hnew : h.reused = false → h.target.id ∉ issued) : (note issued h).Nodup := by
  unfold note
  split
  · exact hn
  · rename_i hcase
    have hout : h.target.id ∉ issued := by
      cases hr : h.reused with
      | false => exact hnew hr
      | true => exact fun hm => hcase ⟨hr, hm⟩
    rw [List.nodup_append]
    refine ⟨hn, by simp, ?_⟩
    rintro a ha b hb rfl
    rw [List.mem_singleton] at hb
    exact hout (hb ▸ ha)

/-- The counter's next value is new: everything handed out or on record is at or below the counter. -/
theorem Bounded.insert {issued : List UInt64} {b b' : Broker.State} {h : Handler} {rec : ReconnectRecord}
    (hb : Bounded issued b) (hn : issued.Nodup) (hw : b.nextID.toNat + 1 < UInt64.size)
    (ha : Broker.Assigned b h.target h.reused b'.nextID) (hrc : b'.reconnects = b.reconnects.insert h.target.id rec) :
    Bounded (note issued h) b' ∧ (note issued h).Nodup := by
  have hsucc : (b.nextID + 1).toNat = b.nextID.toNat + 1 := by
    rw [UInt64.toNat_add, show (1 : UInt64).toNat = 1 from rfl, Nat.mod_eq_of_lt hw]
  -- Either way the registration's own CCBID is at or below the counter afterwards.
  have hle : b.nextID.toNat ≤ b'.nextID.toNat ∧ h.target.id.toNat ≤ b'.nextID.toNat := by
    rcases ha with ⟨r, -, hl, -, hnext⟩ | ⟨-, hid, hnext⟩
    · rw [hnext]; exact ⟨Nat.le_refl _, hb.records _ (by rw [hl]; rfl)⟩
    · rw [hnext, hid]; omega
  refine ⟨⟨fun id hid => ?_, fun id hl => ?_⟩, nodup_note hn (fun hf hm => ?_)⟩
  · rcases mem_note hid with hid | rfl
    · have := hb.issued id hid
      omega
    · exact hle.2
  · rw [hrc] at hl
    by_cases hid : id = h.target.id
    · rw [hid]; exact hle.2
    · rw [AList.lookup_insert_ne hid] at hl
      have := hb.records id hl
      omega
  · rcases ha with ⟨r, ht, -⟩ | ⟨-, hid, -⟩
    · rw [hf] at ht; cases ht
    · have := hb.issued _ hm
      rw [hid, hsucc] at this
      omega

/-- **A broker step keeps the counter above the history and the history distinct.** -/
theorem Bounded.step {x : Ext} {cfg : Config} {issued : List UInt64} {b b' : Broker.State} {l : Broker.Label}
    (hb : Bounded issued b) (hn : issued.Nodup) (hw : b.nextID.toNat + 1 < UInt64.size)
    (hs : Broker.step x cfg b l = some b') :
    Bounded (noteStep issued b b') b' ∧ (noteStep issued b b').Nodup := by
  have hkeep : b'.handlers.length = b.handlers.length → b'.nextID = b.nextID →
      (∀ id, (b'.reconnects.lookup id).isSome = true → (b.reconnects.lookup id).isSome = true) →
      Bounded (noteStep issued b b') b' ∧ (noteStep issued b b').Nodup := by
    intro hlen hnext hrec
    obtain ⟨p, hp⟩ := noteStep_of_length issued hlen
    rw [hp]
    refine ⟨⟨fun id hid => ?_, fun id hl => ?_⟩, hn.filter p⟩
    · rw [hnext]; exact (hb.filter p).issued id hid
    · rw [hnext]; exact hb.records id (hrec id hl)
  cases Broker.step_effect hs with
  | frame _ hnext _ hrc hh => exact hkeep (by rw [hh]) hnext (fun id hl => hrc ▸ hl)
  | move h pc _ hnext _ hrc hh _ =>
    exact hkeep (by rw [hh, List.length_modify]) hnext (fun id hl => hrc ▸ hl)
  | insert tgt reused rec _ ha _ hrc hh _ _ =>
    obtain ⟨p, hp⟩ := noteStep_of_insert issued hh
    rw [hp]
    exact (hb.filter p).insert (hn.filter p) hw ha hrc
  | remove h k pc now _ _ _ _ hnext _ hrc hh =>
    exact hkeep (by rw [hh, List.length_modify]) hnext
      (fun id hl => by rw [hrc, Broker.isSome_lookup_stampRecord] at hl; exact hl)
  | sweep now _ hnext _ hrc hh =>
    refine hkeep (by rw [hh]) hnext (fun id hl => ?_)
    rw [hrc, Broker.lookup_foldl_erase] at hl
    split at hl
    · cases hl
    · exact hl

/-- A guarded restart starts above everything handed out before it. -/
theorem bounded_newBroker {cfg : Config} {s : State} {ids : List UInt64} (hg : Guarded cfg s (.restart (some ids))) :
    Bounded s.issued (newBroker cfg (Store.load s.store.table (fun id => ids.contains id))) := by
  obtain ⟨hold, hw⟩ := hg
  unfold newBroker
  unfold loaded at hold hw
  by_cases hst : cfg.reconnectStore = true
  · rw [if_pos hst] at hold hw ⊢
    refine ⟨fun id hid => ?_, fun id hl => ?_⟩
    · obtain ⟨r, hr, hpos, hle⟩ := hold id hid
      have := le_nextID_of_loaded hw hr hpos
      omega
    · obtain ⟨r, hr⟩ := Option.isSome_iff_exists.1 hl
      obtain ⟨r', hr', rfl⟩ := mem_of_loadReconnects_lookup hr
      by_cases hpos : 0 < r'.ccbid
      · have := le_nextID_of_loaded hw hr' hpos
        omega
      · have hz : r'.ccbid.toNat = 0 := Nat.eq_zero_of_not_pos (fun h => hpos (UInt64.lt_iff_toNat_lt.2 h))
        omega
  · rw [if_neg hst] at hold ⊢
    refine ⟨fun id hid => ?_, fun id hl => ?_⟩
    · obtain ⟨r, hr, -⟩ := hold id hid
      cases hr
    · simp [Broker.State.init] at hl

theorem Inv.step {x : Ext} {cfg : Config} {s t : State} {l : Label} (hi : Inv s) (hg : Guarded cfg s l)
    (hs : step x cfg s l = some t) : Inv t := by
  cases l with
  | broker l sent =>
    simp only [Site.step] at hs
    split at hs
    · cases hs
    rename_i b hup
    split at hs
    · rename_i b' st hb' _
      cases hs
      obtain ⟨h1, h2⟩ := (hi.bounded b hup).step hi.nodup (hg b hup) hb'
      exact ⟨h2, fun b hb => by cases hb; exact h1⟩
    · cases hs
  | store l =>
    simp only [Site.step] at hs
    split at hs
    · cases hs; exact ⟨hi.nodup, hi.bounded⟩
    · cases hs
  | crash =>
    simp only [Site.step] at hs
    split at hs
    · cases hs; exact ⟨hi.nodup, fun b hb => by cases hb⟩
    · cases hs
  | restart unreadable =>
    simp only [Site.step] at hs
    split at hs
    · rename_i ids _
      cases hs
      refine ⟨hi.nodup, fun b hb => ?_⟩
      simp only [Option.some.injEq] at hb
      exact hb ▸ bounded_newBroker hg
    · cases hs; exact hi
    · cases hs

theorem Inv.init : Inv State.init := ⟨List.nodup_nil, fun _ hb => by cases hb⟩

/-- **In every run whose restarts are guarded, no CCBID is held twice**: a fresh registration's CCBID was handed to no
earlier registration but one whose record had been swept. -/
theorem issued_nodup_of_guarded (x : Ext) (cfg : Config) (ls : List Label) (s : State)
    (hm : Meets (step x cfg) (Guarded cfg) State.init ls) (hr : run (step x cfg) State.init ls = some s) :
    s.issued.Nodup := by
  have hi : Inv s := Machine.inv_of_meets (fun _ _ _ hi hg hs => hi.step hg hs) ls State.init s Inv.init hm hr
  exact hi.nodup

/-- A first start and a fresh registration, its record handed to the store. -/
def firstRegistration : List Label :=
  [.restart (some []),
   .broker (.reg (.register ⟨"10.0.0.7:4000", "condor@pool", some ⟨"startd", "", ""⟩, some "c1", 10⟩)) true,
   .broker (.reg (.put 0)) true]

/-- The writer takes the record and commits it. -/
def flushed : List Label := [.store .take, .store (.tick ⟨true, fun _ => true, true⟩)]

/-- A crash, a restart, and another target's fresh registration. -/
def crashAndRegister : List Label :=
  [.crash, .restart (some []),
   .broker (.reg (.register ⟨"10.0.0.8:4000", "condor@pool", some ⟨"schedd", "", ""⟩, some "c2", 20⟩)) true]

theorem issued_nodup_of_guarded_flushed :
    ∃ s, run (step Broker.splitExt Broker.plainConfig) State.init (firstRegistration ++ flushed ++ crashAndRegister) =
        some s ∧ s.issued = [1, 102] ∧ s.issued.Nodup := by
  obtain ⟨s, hs⟩ : ∃ s, run (step Broker.splitExt Broker.plainConfig) State.init
      (firstRegistration ++ flushed ++ crashAndRegister) = some s := ⟨_, rfl⟩
  have his : (run (step Broker.splitExt Broker.plainConfig) State.init
      (firstRegistration ++ flushed ++ crashAndRegister)).map (·.issued) = some [1, 102] := by decide
  simp only [hs, Option.map_some, Option.some.injEq] at his
  exact ⟨s, hs, his, issued_nodup_of_guarded Broker.splitExt Broker.plainConfig _ s (by decide) hs⟩

/-- **A crash before the first flush hands the same CCBID out again**: one CCBID was not yet flushed, the table is
empty, and the counter starts from zero. -/
theorem crash_before_flush_reissues :
    (∃ s, run (step Broker.splitExt Broker.plainConfig) State.init firstRegistration = some s ∧ s.issued = [1]) ∧
    ∃ s, run (step Broker.splitExt Broker.plainConfig) State.init (firstRegistration ++ crashAndRegister) = some s ∧
      s.issued = [1, 1] ∧ ¬ s.issued.Nodup := by
  constructor
  · obtain ⟨s, hs⟩ : ∃ s, run (step Broker.splitExt Broker.plainConfig) State.init firstRegistration = some s :=
      ⟨_, rfl⟩
    have his : (run (step Broker.splitExt Broker.plainConfig) State.init firstRegistration).map (·.issued) =
        some [1] := by decide
    simp only [hs, Option.map_some, Option.some.injEq] at his
    exact ⟨s, hs, his⟩
  · obtain ⟨s, hs⟩ : ∃ s, run (step Broker.splitExt Broker.plainConfig) State.init
        (firstRegistration ++ crashAndRegister) = some s := ⟨_, rfl⟩
    have his : (run (step Broker.splitExt Broker.plainConfig) State.init
        (firstRegistration ++ crashAndRegister)).map (·.issued) = some [1, 1] := by decide
    simp only [hs, Option.map_some, Option.some.injEq] at his
    exact ⟨s, hs, his, by rw [his]; decide⟩

end Site
end Ccb
