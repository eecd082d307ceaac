import Ccb.Flushed
/-!
# Retention — how long a reconnect record is kept

The broker over restarts with a clock.  A connection is open from its registration until its socket fails, or the broker
crashes; `SweepReconnects` is to remove no record of a CCBID under which a connection was open within the last
`ReconnectTTL`.  It goes by `UpdatedAt`, which is stamped at the registration and by `removeTarget`: a crash leaves the
registration's.  In every run in which the broker goes down only after the handlers have returned, each CCBID is
registered again only after its last handler has, and what a restart loads was stamped at whole seconds, which is all
the store keeps of a stamp, sweeps keep to this (`sweep_retains`); `crash_sweeps_early` is the crash.

`Books` is what the argument looks at, and `Books.Inv` what the tables say of the connections: those whose handlers have
returned ended at or before the stamp of any record of their CCBID.
-/
namespace Ccb
namespace Flushed

open Machine (run Meets)
open Broker (ReconnectRecord StoreOp Handler Config Ext RegPc)

/-- What a time is after it has been stored as `Unix()`. -/
def wholeSeconds (t : Int) : Int := Store.ofUnixSeconds (Store.unixSeconds t)

/-! ## The clock -/

/-- A registered connection. -/
structure Connection where
  id     : UInt64
  opened : Int
  closed : Option Int
  deriving DecidableEq, Repr

/-- The connection was open at some time of the interval. -/
def Connection.OpenDuring (c : Connection) (lo hi : Int) : Prop := c.opened ≤ hi ∧ ∀ e ∈ c.closed, lo ≤ e

/-- `conns` are the connections of the broker that is up, by handler, and `past` those of earlier ones; `puts` is what
the store was given, with the stamps as they were. -/
structure Clocked where
  site  : State
  now   : Int
  conns : List Connection
  past  : List Connection
  puts  : GoMap UInt64 ReconnectRecord

def Clocked.start (now : Int) : Clocked := ⟨State.init, now, [], [], ∅⟩

structure TimedLabel where
  time  : Int
  label : Label
  deriving DecidableEq, Repr

/-- The times a step reads are the clock's.  `SweepReconnects` reads it before it has the lock. -/
def onTime (time : Int) : Label → Bool
  | .broker (.reg (.register r))         => r.now == time
  | .broker (.reg (.removeTarget _ now)) => now == time
  | .broker (.reg (.sweep now))          => decide (now ≤ time)
  | _ => true

/-- The handler whose connection a step finds broken. -/
def closing : Broker.Label → Option Nat
  | .reg (.read h none) | .reg (.replied h false) => some h
  | _ => none

/-- The connections after the one of `h` has ended. -/
def closeAt (conns : List Connection) (h : Option Nat) (time : Int) : List Connection :=
  match h with
  | some h => conns.modify h (fun c => { c with closed := some time })
  | none   => conns

/-- The connection a broker step has registered. -/
def opening (b b' : Broker.State) (time : Int) : List Connection :=
  (b'.handlers.drop b.handlers.length).map (fun k => ⟨k.target.id, time, none⟩)

/-- A connection whose broker is gone. -/
def Connection.cut (c : Connection) (time : Int) : Connection := { c with closed := some (c.closed.getD time) }

/-- What the store has been given after a broker step. -/
def given (cfg : Config) (b : Broker.State) (puts : GoMap UInt64 ReconnectRecord) (a : Broker.Label) :
    GoMap UInt64 ReconnectRecord := callStore cfg (fun t => t) b puts a

/-- The histories after a step to `u`. -/
def Clocked.follow (cfg : Config) (s : Clocked) (l : TimedLabel) (u : State) : Clocked :=
  match l.label with
  | .broker a =>
    match s.site.up, u.up with
    | some b, some b' =>
      ⟨u, l.time, closeAt s.conns (closing a) l.time ++ opening b b' l.time, s.past,
        given cfg b s.puts a⟩
    | _, _ => { s with site := u, now := l.time }
  | .crash => ⟨u, l.time, [], s.past ++ s.conns.map (fun c => c.cut l.time), s.puts⟩
  | .restart _ => { s with site := u, now := l.time }

def Clocked.step (x : Ext) (cfg : Config) (s : Clocked) (l : TimedLabel) : Option Clocked :=
  if s.now ≤ l.time ∧ onTime l.time l.label = true then
    (Flushed.step x cfg wholeSeconds s.site l.label).map (s.follow cfg l)
  else none

/-! ## What the tables say of the connections -/

/-- The handler has made its `removeTarget`. -/
def removed : RegPc → Bool
  | .restamp _ | .returned => true
  | .put _ | .reply | .serve | .deliver _ _ _ | .remove => false

/-- The handler has returned, its last `Put` included. -/
def hasReturned : RegPc → Bool
  | .returned => true
  | .put _ | .reply | .serve | .deliver _ _ _ | .remove | .restamp _ => false

theorem removed_of_hasReturned {pc : RegPc} (h : hasReturned pc = true) : removed pc = true := by
  cases pc <;> first | rfl | cases h

structure Books where
  handlers   : List Handler
  conns      : List Connection
  past       : List Connection
  targets    : GoMap UInt64 Nat
  reconnects : GoMap UInt64 ReconnectRecord
  puts       : GoMap UInt64 ReconnectRecord
  now        : Int

/-- Every connection under `id` that is past, or whose handler is at a place in `P`, ended by `u`. -/
def Books.Covers (v : Books) (P : RegPc → Bool) (id : UInt64) (u : Int) : Prop :=
  (∀ c ∈ v.past, c.id = id → ∀ e, c.closed = some e → e ≤ u) ∧
    ∀ (n : Nat) (k : Handler) (c : Connection), v.handlers[n]? = some k → v.conns[n]? = some c → P k.pc = true →
      k.target.id = id → ∀ e, c.closed = some e → e ≤ u

/-- What a handler's place says of its connection. -/
structure Books.Stage (v : Books) (n : Nat) (k : Handler) (c : Connection) : Prop where
  id      : c.id = k.target.id
  routed  : k.pc.live = true ∨ k.pc = .remove → v.targets.lookup k.target.id = some n
  ended   : k.pc.live = false → ∃ e, c.closed = some e ∧ e ≤ v.now
  pending : ∀ rec, Flushed.pending k.pc = some rec → rec.ccbid = k.target.id ∧
    v.Covers hasReturned k.target.id rec.updatedAt ∧ ∀ e, c.closed = some e → e ≤ rec.updatedAt
  stamped : k.pc ≠ .restamp none

structure Books.Inv (v : Books) : Prop where
  stage   : ∀ (n : Nat) (k : Handler), v.handlers[n]? = some k → ∃ c, v.conns[n]? = some c ∧ v.Stage n k c
  conns   : v.conns.length = v.handlers.length
  past    : ∀ c ∈ v.past, ∃ e, c.closed = some e ∧ e ≤ v.now
  single  : ∀ (n m : Nat) (k k' : Handler), v.handlers[n]? = some k → v.handlers[m]? = some k' → k.pc ≠ .returned →
    k'.pc ≠ .returned → k.target.id = k'.target.id → n = m
  kept    : ∀ id n, v.targets.lookup id = some n → (v.reconnects.lookup id).isSome = true
  records : ∀ id r, v.reconnects.lookup id = some r → r.ccbid = id ∧ v.Covers Flushed.removed id r.updatedAt
  stored  : ∀ id r, v.puts.lookup id = some r → r.ccbid = id ∧ v.Covers hasReturned id r.updatedAt

section
variable {v : Books} {P : RegPc → Bool} {n : Nat} {k : Handler} {c : Connection}

theorem not_live_of_removed {pc : RegPc} (h : Flushed.removed pc = true) : pc.live = false := by
  cases pc <;> first | rfl | cases h

/-- A handler that has not removed its target has it in the table. -/
theorem Books.Stage.removed_of_unrouted (h : v.Stage n k c) (hl : v.targets.lookup k.target.id = none) :
    Flushed.removed k.pc = true := by
  have hno : ¬ (k.pc.live = true ∨ k.pc = .remove) := by
    intro hrt
    rw [h.routed hrt] at hl
    cases hl
  cases hpc : k.pc with
  | restamp | returned => rfl
  | put | reply | serve | deliver => exact absurd (Or.inl (by rw [hpc]; rfl)) hno
  | remove => exact absurd (Or.inr hpc) hno

/-- **What has ended has ended by now.** -/
theorem Books.Inv.covers_now (h : v.Inv) (hP : ∀ pc, P pc = true → Flushed.removed pc = true) (id : UInt64) :
    v.Covers P id v.now := by
  refine ⟨fun c hc _ e he => ?_, fun n k c hk hc hp _ e he => ?_⟩
  · obtain ⟨e', he', hle⟩ := h.past c hc
    rw [he'] at he
    cases he
    exact hle
  · obtain ⟨c', hc', hst⟩ := h.stage n k hk
    rw [hc] at hc'
    cases hc'
    obtain ⟨e', he', hle⟩ := hst.ended (not_live_of_removed (hP _ hp))
    rw [he'] at he
    cases he
    exact hle

/-- Time goes by. -/
theorem Books.Inv.tick (h : v.Inv) {now : Int} (hle : v.now ≤ now) : Books.Inv { v with now := now } := by
  refine ⟨fun n k hk => ?_, h.conns, fun c hc => ?_, h.single, h.kept, h.records, h.stored⟩
  · obtain ⟨c, hc, hst⟩ := h.stage n k hk
    refine ⟨c, hc, hst.id, hst.routed, fun hl => ?_, hst.pending, hst.stamped⟩
    obtain ⟨e, he, hle'⟩ := hst.ended hl
    exact ⟨e, he, Int.le_trans hle' hle⟩
  · obtain ⟨e, he, hle'⟩ := h.past c hc
    exact ⟨e, he, Int.le_trans hle' hle⟩

/-- The store loses records, or takes ones that cover. -/
theorem Books.Inv.store (h : v.Inv) {puts : GoMap UInt64 ReconnectRecord}
    (hr : ∀ id r, puts.lookup id = some r → v.puts.lookup id = some r ∨
      (r.ccbid = id ∧ v.Covers hasReturned id r.updatedAt)) : Books.Inv { v with puts := puts } := by
  refine ⟨fun n k hk => ?_, h.conns, h.past, h.single, h.kept, h.records, fun id r hl => ?_⟩
  · obtain ⟨c, hc, hst⟩ := h.stage n k hk
    exact ⟨c, hc, hst.id, hst.routed, hst.ended, hst.pending, hst.stamped⟩
  · rcases hr id r hl with hl | hl
    · exact h.stored id r hl
    · exact hl

/-! ### One handler moves -/

/-- The books after handler `n` has moved to `pc`, its connection changed by `g`. -/
def Books.move (v : Books) (n : Nat) (pc : RegPc) (g : Connection → Connection) : Books :=
  { v with handlers := v.handlers.modify n (fun k => { k with pc := pc }), conns := v.conns.modify n g }

theorem Books.move_handler {m : Nat} {pc : RegPc} {g : Connection → Connection} {k' : Handler}
    (h : (v.move n pc g).handlers[m]? = some k') :
    (m = n ∧ ∃ k, v.handlers[n]? = some k ∧ k' = { k with pc := pc }) ∨ (m ≠ n ∧ v.handlers[m]? = some k') := by
  rcases getElem?_modify_some h with ⟨rfl, k, hk, rfl⟩ | ⟨hm, h⟩
  · exact Or.inl ⟨rfl, k, hk, rfl⟩
  · exact Or.inr ⟨Ne.symm hm, h⟩

theorem Books.move_conn_self {pc : RegPc} {g : Connection → Connection} (h : v.conns[n]? = some c) :
    (v.move n pc g).conns[n]? = some (g c) := by
  simp [Books.move, h]

theorem Books.move_conn_ne {m : Nat} {pc : RegPc} {g : Connection → Connection} (h : m ≠ n) :
    (v.move n pc g).conns[m]? = v.conns[m]? := by
  simp [Books.move, List.getElem?_modify_ne _ _ (Ne.symm h)]

theorem Books.Covers.move {pc : RegPc} {g : Connection → Connection} {id : UInt64} {u : Int} (h : v.Covers P id u)
    (hk : v.handlers[n]? = some k) (hc : v.conns[n]? = some c)
    (hnew : P pc = true → k.target.id = id → ∀ e, (g c).closed = some e → e ≤ u) :
    (v.move n pc g).Covers P id u := by
  refine ⟨h.1, fun m k' c' hk' hc' hp hid e he => ?_⟩
  rcases Books.move_handler hk' with ⟨rfl, k₀, hk₀, rfl⟩ | ⟨hm, hk'⟩
  · rw [hk] at hk₀
    cases hk₀
    rw [Books.move_conn_self hc] at hc'
    cases hc'
    exact hnew hp hid e he
  · rw [Books.move_conn_ne hm] at hc'
    exact h.2 m k' c' hk' hc' hp hid e he

theorem Books.Inv.single_move {pc : RegPc} {g : Connection → Connection} (h : v.Inv) (hk : v.handlers[n]? = some k)
    (hnot : k.pc ≠ .returned) (m m' : Nat) (k₁ k₂ : Handler) (h₁ : (v.move n pc g).handlers[m]? = some k₁)
    (h₂ : (v.move n pc g).handlers[m']? = some k₂) (hn₁ : k₁.pc ≠ .returned) (hn₂ : k₂.pc ≠ .returned)
    (hid : k₁.target.id = k₂.target.id) : m = m' := by
  have hback : ∀ {m : Nat} {k' : Handler}, (v.move n pc g).handlers[m]? = some k' → k'.pc ≠ .returned →
      ∃ k₀, v.handlers[m]? = some k₀ ∧ k₀.target.id = k'.target.id ∧ k₀.pc ≠ .returned := by
    intro m k' hk' hn'
    rcases Books.move_handler hk' with ⟨rfl, k₀, hk₀, rfl⟩ | ⟨-, hk'⟩
    · rw [hk] at hk₀
      cases hk₀
      exact ⟨k, hk, rfl, hnot⟩
    · exact ⟨k', hk', rfl, hn'⟩
  obtain ⟨k₁', hk₁', hid₁, hn₁'⟩ := hback h₁ hn₁
  obtain ⟨k₂', hk₂', hid₂, hn₂'⟩ := hback h₂ hn₂
  exact h.single m m' k₁' k₂' hk₁' hk₂' hn₁' hn₂' (by rw [hid₁, hid₂, hid])

/-- **A handler that has not returned moves.** -/
theorem Books.Inv.move {pc : RegPc} {g : Connection → Connection} (h : v.Inv) (hk : v.handlers[n]? = some k)
    (hc : v.conns[n]? = some c) (hnot : k.pc ≠ .returned)
    (hrem : Flushed.removed pc = true → Flushed.removed k.pc = true ∧ g c = c)
    (hst : ∀ id r, v.puts.lookup id = some r → hasReturned pc = true → k.target.id = id →
      ∀ e, (g c).closed = some e → e ≤ r.updatedAt)
    (hstage : (v.move n pc g).Stage n { k with pc := pc } (g c)) : (v.move n pc g).Inv := by
  have hcov : ∀ {id : UInt64} {u : Int}, v.Covers Flushed.removed id u →
      (v.move n pc g).Covers Flushed.removed id u := by
    intro id u hv
    refine hv.move hk hc fun hp hid e he => ?_
    obtain ⟨h1, h2⟩ := hrem hp
    rw [h2] at he
    exact hv.2 n k c hk hc h1 hid e he
  refine ⟨fun m k' hk' => ?_, ?_, h.past, h.single_move hk hnot, h.kept, fun id r hr => ?_, fun id r hr => ?_⟩
  · rcases Books.move_handler hk' with ⟨rfl, k₀, hk₀, rfl⟩ | ⟨hm, hk'⟩
    · rw [hk] at hk₀
      cases hk₀
      exact ⟨g c, Books.move_conn_self hc, hstage⟩
    · obtain ⟨c', hc', hs⟩ := h.stage m k' hk'
      refine ⟨c', by rw [Books.move_conn_ne hm]; exact hc', hs.id, hs.routed, hs.ended, fun rec hp => ?_,
        hs.stamped⟩
      obtain ⟨h1, h2, h3⟩ := hs.pending rec hp
      refine ⟨h1, h2.move hk hc fun _ hid e he => ?_, h3⟩
      -- Two handlers of one CCBID have not both something to do.
      refine absurd (h.single m n k' k hk' hk (fun h0 => ?_) hnot hid.symm) hm
      rw [h0] at hp
      cases hp
  · simp [Books.move, h.conns]
  · exact ⟨(h.records id r hr).1, hcov (h.records id r hr).2⟩
  · exact ⟨(h.stored id r hr).1, (h.stored id r hr).2.move hk hc (hst id r hr)⟩

/-- A handler with an open connection goes on. -/
theorem Books.Inv.pass (h : v.Inv) (pc : RegPc) (hk : v.handlers[n]? = some k) (hl : k.pc.live = true)
    (hl' : pc.live = true) (hp : Flushed.pending pc = none) : (v.move n pc id).Inv := by
  obtain ⟨c, hc, hst⟩ := h.stage n k hk
  have hrem : Flushed.removed pc = false := by cases pc <;> first | rfl | cases hl'
  have hret : hasReturned pc = false := by cases pc <;> first | rfl | cases hl'
  refine h.move hk hc (fun h0 => by rw [h0] at hl; cases hl) (fun h0 => by rw [hrem] at h0; cases h0)
    (fun _ _ _ h0 => by rw [hret] at h0; cases h0) ⟨hst.id, fun _ => hst.routed (Or.inl hl), fun h0 => ?_,
      fun rec h0 => ?_, fun h0 => ?_⟩
  · rw [hl'] at h0; cases h0
  · rw [hp] at h0; cases h0
  · dsimp only at h0
    rw [h0] at hl'; cases hl'

/-- A connection ends. -/
theorem Books.Inv.ends (h : v.Inv) (hk : v.handlers[n]? = some k) (hl : k.pc.live = true) :
    (v.move n .remove (fun c => { c with closed := some v.now })).Inv := by
  obtain ⟨c, hc, hst⟩ := h.stage n k hk
  refine h.move hk hc (fun h0 => by rw [h0] at hl; cases hl) (fun h0 => by cases h0) (fun _ _ _ h0 => by cases h0)
    ⟨hst.id, fun _ => hst.routed (Or.inl hl), fun _ => ⟨v.now, rfl, Int.le_refl _⟩,
      (fun _ h0 => by cases h0), (fun h0 => by cases h0)⟩

/-- A handler returns, its record stored. -/
theorem Books.Inv.returns {o : Option ReconnectRecord} (h : v.Inv) (hk : v.handlers[n]? = some k)
    (hpc : k.pc = .restamp o)
    (hst : ∀ id r, v.puts.lookup id = some r → k.target.id = id → ∀ c e, v.conns[n]? = some c → c.closed = some e →
      e ≤ r.updatedAt) : (v.move n .returned id).Inv := by
  obtain ⟨c, hc, hs⟩ := h.stage n k hk
  have hlive : k.pc.live = false := by rw [hpc]; rfl
  have hrem : Flushed.removed k.pc = true := by rw [hpc]; rfl
  refine h.move hk hc (fun h0 => by rw [h0] at hpc; cases hpc) (fun _ => ⟨hrem, rfl⟩)
    (fun id r hr _ hid e he => hst id r hr hid c e hc he)
    ⟨hs.id, ?_, fun _ => hs.ended hlive, (fun _ h0 => by cases h0), (fun h0 => by cases h0)⟩
  rintro (h0 | h0) <;> cases h0

/-! ### Registrations, removals, sweeps -/

/-- The books after a registration. -/
def Books.register (v : Books) (k : Handler) (rec : ReconnectRecord) : Books :=
  { v with
    handlers := v.handlers ++ [k], conns := v.conns ++ [⟨k.target.id, v.now, none⟩]
    targets := v.targets.insert k.target.id v.handlers.length, reconnects := v.reconnects.insert k.target.id rec }

theorem Books.register_handler {rec : ReconnectRecord} {m : Nat} {k' : Handler}
    (h : (v.register k rec).handlers[m]? = some k') :
    (v.handlers[m]? = some k' ∧ m < v.handlers.length) ∨ (m = v.handlers.length ∧ k' = k) := by
  rcases getElem?_concat_some h with h | h
  · exact Or.inl ⟨h, (List.getElem?_eq_some_iff.1 h).1⟩
  · exact Or.inr h

theorem Books.Inv.register_conn {rec : ReconnectRecord} (h : v.Inv) {m : Nat} (hm : m < v.handlers.length) :
    (v.register k rec).conns[m]? = v.conns[m]? :=
  List.getElem?_append_left (by rw [h.conns]; exact hm)

theorem Books.Covers.register {rec : ReconnectRecord} {id : UInt64} {u : Int} (hv : v.Covers P id u) (h : v.Inv)
    (hp : P k.pc = false) : (v.register k rec).Covers P id u := by
  refine ⟨hv.1, fun m k' c' hk' hc' hp' hid e he => ?_⟩
  rcases Books.register_handler hk' with ⟨hk', hm⟩ | ⟨-, rfl⟩
  · rw [h.register_conn hm] at hc'
    exact hv.2 m k' c' hk' hc' hp' hid e he
  · rw [hp] at hp'
    cases hp'

theorem Books.Inv.single_register {rec : ReconnectRecord} (h : v.Inv)
    (hret : ∀ k' ∈ v.handlers, k'.target.id = k.target.id → k'.pc = .returned) (m m' : Nat) (k₁ k₂ : Handler)
    (h₁ : (v.register k rec).handlers[m]? = some k₁) (h₂ : (v.register k rec).handlers[m']? = some k₂)
    (hn₁ : k₁.pc ≠ .returned) (hn₂ : k₂.pc ≠ .returned) (he : k₁.target.id = k₂.target.id) : m = m' := by
  rcases Books.register_handler h₁ with ⟨hk₁, -⟩ | ⟨rfl, rfl⟩
  · rcases Books.register_handler h₂ with ⟨hk₂, -⟩ | ⟨rfl, rfl⟩
    · exact h.single m m' k₁ k₂ hk₁ hk₂ hn₁ hn₂ he
    · exact absurd (hret k₁ (List.mem_of_getElem? hk₁) he) hn₁
  · rcases Books.register_handler h₂ with ⟨hk₂, -⟩ | ⟨rfl, rfl⟩
    · exact absurd (hret k₂ (List.mem_of_getElem? hk₂) he.symm) hn₂
    · rfl

/-- The handlers there are keep their places: none of them is still routed under the new one's CCBID. -/
theorem Books.Inv.stage_register {rec : ReconnectRecord} {m : Nat} {k' : Handler} (h : v.Inv)
    (hdone : hasReturned k.pc = false) (hret : ∀ k' ∈ v.handlers, k'.target.id = k.target.id → k'.pc = .returned)
    (hk' : v.handlers[m]? = some k') (hs : v.Stage m k' c) : (v.register k rec).Stage m k' c := by
  refine ⟨hs.id, fun hr => ?_, hs.ended, fun rec' hp => ?_, hs.stamped⟩
  · have hne : k'.target.id ≠ k.target.id := by
      intro he
      rw [hret k' (List.mem_of_getElem? hk') he] at hr
      rcases hr with hr | hr <;> cases hr
    show (v.targets.insert _ _).lookup _ = _
    rw [AList.lookup_insert_ne hne]
    exact hs.routed hr
  · obtain ⟨h1, h2, h3⟩ := hs.pending rec' hp
    exact ⟨h1, h2.register h hdone, h3⟩

theorem Books.Inv.stage_registered {rec : ReconnectRecord} (h : v.Inv) (hpc : k.pc = .put rec)
    (hid : rec.ccbid = k.target.id) (hnow : rec.updatedAt = v.now) :
    (v.register k rec).Stage v.handlers.length k ⟨k.target.id, v.now, none⟩ := by
  refine ⟨rfl, fun _ => AList.lookup_insert _, fun h0 => ?_, fun rec' hp => ?_, fun h0 => ?_⟩
  · rw [hpc] at h0
    cases h0
  · rw [hpc] at hp
    cases hp
    refine ⟨hid, ?_, fun _ he => (by cases he)⟩
    rw [hnow]
    exact (h.covers_now (fun _ => removed_of_hasReturned) _).register h (by rw [hpc]; rfl)
  · rw [hpc] at h0
    cases h0

/-- **A registration under a CCBID whose handlers have all returned.** -/
theorem Books.Inv.register {rec : ReconnectRecord} (h : v.Inv) (hpc : k.pc = .put rec) (hid : rec.ccbid = k.target.id)
    (hnow : rec.updatedAt = v.now) (hret : ∀ k' ∈ v.handlers, k'.target.id = k.target.id → k'.pc = .returned) :
    (v.register k rec).Inv := by
  have hrem : Flushed.removed k.pc = false := by rw [hpc]; rfl
  have hdone : hasReturned k.pc = false := by rw [hpc]; rfl
  have hlast : (v.register k rec).conns[v.handlers.length]? = some ⟨k.target.id, v.now, none⟩ := by
    rw [← h.conns]
    exact List.getElem?_concat_length
  refine ⟨fun m k' hk' => ?_, by simp [Books.register, h.conns], h.past, h.single_register hret, fun id m hm => ?_,
    fun id r hr => ?_, fun id r hr => ?_⟩
  · rcases Books.register_handler hk' with ⟨hk', hm⟩ | ⟨rfl, rfl⟩
    · obtain ⟨c, hc, hs⟩ := h.stage m k' hk'
      exact ⟨c, (h.register_conn hm).trans hc, h.stage_register hdone hret hk' hs⟩
    · exact ⟨_, hlast, h.stage_registered hpc hid hnow⟩
  · change (v.targets.insert _ _).lookup id = some m at hm
    show ((v.reconnects.insert _ _).lookup id).isSome = true
    by_cases he : id = k.target.id
    · rw [he, AList.lookup_insert]
      rfl
    · rw [AList.lookup_insert_ne he] at hm ⊢
      exact h.kept id m hm
  · change (v.reconnects.insert _ _).lookup id = some r at hr
    by_cases he : id = k.target.id
    · rw [he, AList.lookup_insert, Option.some.injEq] at hr
      subst hr
      refine ⟨hid.trans he.symm, ?_⟩
      rw [hnow]
      exact (h.covers_now (fun _ h => h) id).register h hrem
    · rw [AList.lookup_insert_ne he] at hr
      exact ⟨(h.records id r hr).1, (h.records id r hr).2.register h hrem⟩
  · exact ⟨(h.stored id r hr).1, (h.stored id r hr).2.register h hdone⟩

/-- The books after `removeTarget` has stamped the record. -/
def Books.remove (v : Books) (n : Nat) (id : UInt64) (cp : ReconnectRecord) : Books :=
  { v.move n (.restamp (some cp)) (fun c => c) with
    targets := v.targets.erase id, reconnects := v.reconnects.insert id cp }

theorem Books.remove_conns {id : UInt64} {cp : ReconnectRecord} : (v.remove n id cp).conns = v.conns :=
  List.modify_id n v.conns

theorem Books.Covers.remove {id id' : UInt64} {u : Int} {cp : ReconnectRecord} (h : v.Covers P id u)
    (hk : v.handlers[n]? = some k) (hc : v.conns[n]? = some c)
    (hnew : P (.restamp (some cp)) = true → k.target.id = id → ∀ e, c.closed = some e → e ≤ u) :
    (v.remove n id' cp).Covers P id u :=
  Books.Covers.move h hk hc hnew

/-- Another handler keeps its place: the entry erased is not its own. -/
theorem Books.Inv.stage_remove {m : Nat} {k' : Handler} {c' : Connection} {cp : ReconnectRecord} (h : v.Inv)
    (hk : v.handlers[n]? = some k) (hc : v.conns[n]? = some c) (hpc : k.pc = .remove) (hm : m ≠ n)
    (hs' : v.Stage m k' c') : (v.remove n k.target.id cp).Stage m k' c' := by
  obtain ⟨c₀, hc₀, hs⟩ := h.stage n k hk
  refine ⟨hs'.id, fun hrt => ?_, hs'.ended, fun rec hp => ?_, hs'.stamped⟩
  · have hlook := hs'.routed hrt
    show (v.targets.erase _).lookup _ = _
    rw [AList.lookup_erase_ne, hlook]
    intro heq
    rw [heq, hs.routed (Or.inr hpc)] at hlook
    exact hm (Option.some.inj hlook).symm
  · obtain ⟨h1, h2, h3⟩ := hs'.pending rec hp
    exact ⟨h1, h2.remove hk hc (fun h0 => by cases h0), h3⟩

/-- **`removeTarget`.** -/
theorem Books.Inv.remove {r : ReconnectRecord} (h : v.Inv) (hk : v.handlers[n]? = some k) (hpc : k.pc = .remove)
    (hr : v.reconnects.lookup k.target.id = some r) :
    (v.remove n k.target.id { r with updatedAt := v.now }).Inv := by
  obtain ⟨c, hc, hs⟩ := h.stage n k hk
  obtain ⟨e, he, hle⟩ := hs.ended (by rw [hpc]; rfl)
  have hnot : k.pc ≠ .returned := by rw [hpc]; exact fun h0 => by cases h0
  have hself : ∀ e', c.closed = some e' → e' ≤ v.now := by
    intro e' he'
    rw [he] at he'
    cases he'
    exact hle
  refine ⟨fun m k' hk' => ?_, ?_, h.past, h.single_move (g := fun c => c) hk hnot, fun id m hm => ?_,
    fun id r' hr' => ?_, fun id r' hr' => ?_⟩
  · rcases Books.move_handler (g := fun c => c) hk' with ⟨rfl, k₀, hk₀, rfl⟩ | ⟨hm, hk'⟩
    · rw [hk] at hk₀
      cases hk₀
      refine ⟨c, by rw [Books.remove_conns, hc], hs.id, ?_, fun _ => ⟨e, he, hle⟩, fun rec hp => ?_,
        (fun h0 => by cases h0)⟩
      · rintro (h0 | h0) <;> cases h0
      · cases hp
        exact ⟨(h.records _ r hr).1,
          (h.covers_now (fun _ => removed_of_hasReturned) _).remove hk hc (fun h0 => by cases h0), hself⟩
    · obtain ⟨c', hc', hs'⟩ := h.stage m k' hk'
      exact ⟨c', by rw [Books.remove_conns, hc'], h.stage_remove hk hc hpc hm hs'⟩
  · rw [Books.remove_conns, h.conns]
    exact (List.length_modify _ _ _).symm
  · change (v.targets.erase _).lookup id = some m at hm
    show ((v.reconnects.insert _ _).lookup id).isSome = true
    by_cases he : id = k.target.id
    · rw [he, AList.lookup_insert]
      rfl
    · rw [AList.lookup_erase_ne he] at hm
      rw [AList.lookup_insert_ne he]
      exact h.kept id m hm
  · change (v.reconnects.insert _ _).lookup id = some r' at hr'
    by_cases hid : id = k.target.id
    · rw [hid, AList.lookup_insert, Option.some.injEq] at hr'
      subst hr'
      exact ⟨((h.records _ r hr).1).trans hid.symm, (h.covers_now (fun _ h => h) id).remove hk hc (fun _ _ => hself)⟩
    · rw [AList.lookup_insert_ne hid] at hr'
      exact ⟨(h.records id r' hr').1, (h.records id r' hr').2.remove hk hc (fun _ he => absurd he.symm hid)⟩
  · exact ⟨(h.stored id r' hr').1, (h.stored id r' hr').2.remove hk hc (fun h0 => by cases h0)⟩

/-- Records of CCBIDs that are not connected go. -/
theorem Books.Inv.forget (h : v.Inv) {m : GoMap UInt64 ReconnectRecord}
    (hsub : ∀ id r, m.lookup id = some r → v.reconnects.lookup id = some r)
    (hkeep : ∀ id n, v.targets.lookup id = some n → m.lookup id = v.reconnects.lookup id) :
    Books.Inv { v with reconnects := m } := by
  refine ⟨fun n k hk => ?_, h.conns, h.past, h.single, fun id n hn => ?_, fun id r hr => h.records id r (hsub id r hr),
    h.stored⟩
  · obtain ⟨c, hc, hst⟩ := h.stage n k hk
    exact ⟨c, hc, hst.id, hst.routed, hst.ended, hst.pending, hst.stamped⟩
  · show (m.lookup id).isSome = true
    rw [hkeep id n hn]
    exact h.kept id n hn

/-- **A crash with every handler returned.** -/
theorem Books.Inv.crash (h : v.Inv) (hret : ∀ k ∈ v.handlers, k.pc = .returned) :
    Books.Inv ⟨[], [], v.past ++ v.conns.map (fun c => c.cut v.now), ∅, ∅, v.puts, v.now⟩ := by
  have hmine : ∀ c ∈ v.conns, ∃ (n : Nat) (k : Handler), v.handlers[n]? = some k ∧ v.conns[n]? = some c ∧
    k.pc = .returned ∧
      c.id = k.target.id ∧ ∃ e, c.closed = some e ∧ e ≤ v.now := by
    intro c hc
    obtain ⟨n, hn⟩ := List.mem_iff_getElem?.1 hc
    have hlt := (List.getElem?_eq_some_iff.1 hn).1
    rw [h.conns] at hlt
    obtain ⟨c', hc', hs⟩ := h.stage n _ (List.getElem?_eq_getElem hlt)
    rw [hn] at hc'
    cases hc'
    have hpc := hret _ (List.getElem_mem hlt)
    exact ⟨n, _, List.getElem?_eq_getElem hlt, hn, hpc, hs.id, hs.ended (by rw [hpc]; rfl)⟩
  refine ⟨(fun n k hk => by cases hk), rfl, fun c hc => ?_, (fun n m k k' hk => by cases hk),
    (fun id n hn => by cases hn), (fun id r hr => by cases hr),
    fun id r hr => ⟨(h.stored id r hr).1, fun c hc hid e he => ?_, fun n k c hk => by cases hk⟩⟩
  · rcases List.mem_append.1 hc with hc | hc
    · exact h.past c hc
    · obtain ⟨c₀, hc₀, rfl⟩ := List.mem_map.1 hc
      obtain ⟨-, -, -, -, -, -, e, he, hle⟩ := hmine c₀ hc₀
      exact ⟨e, by simp [Connection.cut, he], hle⟩
  · rcases List.mem_append.1 hc with hc | hc
    · exact (h.stored id r hr).2.1 c hc hid e he
    · obtain ⟨c₀, hc₀, rfl⟩ := List.mem_map.1 hc
      obtain ⟨n, k, hk, hn, hpc, hidk, e₀, he₀, -⟩ := hmine c₀ hc₀
      have : e₀ = e := by simpa [Connection.cut, he₀] using he
      subst this
      exact (h.stored id r hr).2.2 n k c₀ hk hn (by rw [hpc]; rfl) (hidk ▸ hid) e₀ he₀

/-- **A restart loads what the store has.** -/
theorem Books.Inv.restart (h : v.Inv) (hh : v.handlers = []) (ht : v.targets = ∅) {m : GoMap UInt64 ReconnectRecord}
    (hload : ∀ id r, m.lookup id = some r → v.puts.lookup id = some r) : Books.Inv { v with reconnects := m } := by
  refine ⟨fun n k hk => ?_, h.conns, h.past, h.single, fun id n hn => ?_, fun id r hr => ?_, h.stored⟩
  · change v.handlers[n]? = some k at hk
    rw [hh] at hk
    cases hk
  · change v.targets.lookup id = some n at hn
    rw [ht] at hn
    cases hn
  · refine ⟨(h.stored id r (hload id r hr)).1, (h.stored id r (hload id r hr)).2.1, fun n k c hk => ?_⟩
    change v.handlers[n]? = some k at hk
    rw [hh] at hk
    cases hk

end

/-! ## The steps -/

/-- What retention looks at. -/
def Clocked.books (s : Clocked) : Books :=
  match s.site.up with
  | some b => ⟨b.handlers, s.conns, s.past, b.targets, b.reconnects, s.puts, s.now⟩
  | none   => ⟨[], s.conns, s.past, ∅, ∅, s.puts, s.now⟩

/-- The store has what it was given, with the stamps in whole seconds. -/
def Rounded (recs puts : GoMap UInt64 ReconnectRecord) : Prop :=
  ∀ id, recs.lookup id = (puts.lookup id).map (fun r => { r with updatedAt := wholeSeconds r.updatedAt })

structure Clocked.Inv (cfg : Config) (s : Clocked) : Prop where
  books   : s.books.Inv
  noStore : cfg.reconnectStore = false → s.puts = ∅
  rounded : Rounded s.site.recs s.puts

/-- The broker goes down only after its handlers have returned, a CCBID is registered only after its earlier handlers
have, and the records a restart loads were stamped at whole seconds. -/
def Orderly (x : Ext) (cfg : Config) (s : Clocked) (l : TimedLabel) : Prop :=
  match l.label with
  | .broker (.reg (.register r)) => ∀ b ∈ s.site.up,
      ∀ k ∈ (Broker.handleRegister x cfg b r).handlers.drop b.handlers.length,
        ∀ k' ∈ b.handlers, k'.target.id = k.target.id → k'.pc = .returned
  | .crash => ∀ b ∈ s.site.up, ∀ k ∈ b.handlers, k.pc = .returned
  | .restart recs => ∀ r ∈ recs, ∀ r₀ ∈ s.puts.lookup r.ccbid, wholeSeconds r₀.updatedAt = r₀.updatedAt
  | _ => True

/-- **A sweep removes the record of a CCBID only if no connection under it was open within the TTL before the
sweep.** -/
def Retained (cfg : Config) (s : Clocked) (l : TimedLabel) : Prop :=
  match l.label with
  | .broker (.reg (.sweep now)) => ∀ b ∈ s.site.up, ∀ id ∈ Broker.stale cfg b now, ∀ c ∈ s.past ++ s.conns, c.id = id →
      ¬ c.OpenDuring (now - cfg.reconnectTTL) now
  | _ => True

section
variable {x : Ext} {cfg : Config} {s t : Clocked} {b b' : Broker.State}

theorem Clocked.books_up (h : s.site.up = some b) :
    s.books = ⟨b.handlers, s.conns, s.past, b.targets, b.reconnects, s.puts, s.now⟩ := by
  rw [Clocked.books, h]

theorem Clocked.step_some {l : TimedLabel} (h : s.step x cfg l = some t) :
    s.now ≤ l.time ∧ onTime l.time l.label = true ∧
      ∃ u, Flushed.step x cfg wholeSeconds s.site l.label = some u ∧ t = s.follow cfg l u := by
  unfold Clocked.step at h
  split at h
  · rename_i hg
    obtain ⟨u, hu, rfl⟩ := Option.map_eq_some_iff.1 h
    exact ⟨hg.1, hg.2, u, hu, rfl⟩
  · cases h

/-- A broker step, with its histories. -/
theorem Clocked.follow_broker {a : Broker.Label} {time : Int} {recs : GoMap UInt64 ReconnectRecord}
    {held : List (UInt64 × String)} (hup : s.site.up = some b) :
    s.follow cfg ⟨time, .broker a⟩ (State.settle ⟨some b', recs, held⟩) =
      ⟨State.settle ⟨some b', recs, held⟩, time, closeAt s.conns (closing a) time ++ opening b b' time, s.past,
        given cfg b s.puts a⟩ := by
  simp [Clocked.follow, State.settle, hup]

theorem opening_of_handlers {time : Int} (h : b'.handlers.length = b.handlers.length) : opening b b' time = [] := by
  rw [opening, List.drop_eq_nil_of_le (Nat.le_of_eq h)]
  rfl

/-- The store is given the record of a handler. -/
theorem Books.Inv.storePut {v : Books} {rec : ReconnectRecord} {id : UInt64} (h : v.Inv) (h1 : rec.ccbid = id)
    (h2 : v.Covers hasReturned id rec.updatedAt) :
    Books.Inv { v with puts := storeOp (fun t => t) v.puts (.put rec) } := by
  refine h.store fun id' r hl => ?_
  by_cases hid : id' = rec.ccbid
  · rw [storeOp, hid, AList.lookup_insert, Option.some.injEq] at hl
    subst hl
    refine Or.inr ⟨hid.symm, ?_⟩
    rw [hid, h1]
    exact h2
  · rw [storeOp, AList.lookup_insert_ne hid] at hl
    exact Or.inl hl

theorem lookup_sweep (cfg : Config) (b : Broker.State) (now : Int) (id : UInt64) :
    (Broker.sweepReconnects cfg b now).reconnects.lookup id =
      if id ∈ Broker.stale cfg b now then none else b.reconnects.lookup id :=
  Broker.lookup_foldl_erase ..

/-- The store call of a handler that has `rec` to store. -/
theorem given_put {l : Broker.RegLabel} {rec : ReconnectRecord} {puts : GoMap UInt64 ReconnectRecord}
    (hcall : Broker.storeCall cfg b l = if cfg.reconnectStore then some (.put rec) else none) :
    given cfg b puts (.reg l) = if cfg.reconnectStore then storeOp (fun t => t) puts (.put rec) else puts := by
  rw [given, callStore, hcall]
  cases cfg.reconnectStore <;> rfl

section
variable {time : Int} {n : Nat} {tgt : Broker.Target} {reused : Bool}

/-- The store takes what a handler has to store, if there is a store. -/
theorem stored_books (cfg : Config) {l : Broker.RegLabel} {k : Handler} {rec : ReconnectRecord}
    (h : Books.Inv ⟨b.handlers, s.conns, s.past, b.targets, b.reconnects, s.puts, time⟩)
    (hk : b.handlers[n]? = some k) (hp : pending k.pc = some rec)
    (hcall : Broker.storeCall cfg b l = if cfg.reconnectStore then some (.put rec) else none) :
    Books.Inv ⟨b.handlers, s.conns, s.past, b.targets, b.reconnects, given cfg b s.puts (.reg l),
      time⟩ := by
  obtain ⟨c, -, hst⟩ := h.stage n _ hk
  obtain ⟨h1, h2, -⟩ := hst.pending rec hp
  rw [given_put hcall]
  split
  · exact h.storePut h1 h2
  · exact h

theorem register_books {r : Broker.RegisterInput}
    (h : Books.Inv ⟨b.handlers, s.conns, s.past, b.targets, b.reconnects, s.puts, time⟩) (hup : s.site.up = some b)
    (hon : onTime time (.broker (.reg (.register r))) = true)
    (hg : Orderly x cfg s ⟨time, .broker (.reg (.register r))⟩) (hb : b' = Broker.handleRegister x cfg b r) :
    Books.Inv ⟨b'.handlers, s.conns ++ opening b b' time, s.past, b'.targets, b'.reconnects, s.puts, time⟩ := by
  subst hb
  rcases Broker.handleRegister_cases x cfg b r with ⟨heq, -⟩ | ⟨ad, tgt, reused, nextID, -, heq, -⟩
  · rw [heq, opening_of_handlers rfl, List.append_nil]
    exact h
  · have hnow : r.now = time := by simpa [onTime] using hon
    have hret := hg b hup
    rw [heq] at hret ⊢
    have hdrop :
      (Broker.insertTarget { b with nextID := nextID } tgt reused (x.peerIPString r.remoteAddr) r.now).handlers.drop
        b.handlers.length = [⟨tgt, reused, .put ⟨tgt.id, tgt.cookie, x.peerIPString r.remoteAddr, tgt.name, r.now⟩⟩] :=
      List.drop_left
    rw [hdrop] at hret
    rw [opening, hdrop]
    exact h.register (k := ⟨tgt, reused, .put ⟨tgt.id, tgt.cookie, x.peerIPString r.remoteAddr, tgt.name, r.now⟩⟩)
      rfl rfl hnow (hret _ List.mem_cons_self)

/-- A handler returns: the store has its record, or there is no store. -/
theorem restamped_books (cfg : Config) {o : Option ReconnectRecord}
    (h : Books.Inv ⟨b.handlers, s.conns, s.past, b.targets, b.reconnects, s.puts, time⟩)
    (hnst : cfg.reconnectStore = false → s.puts = ∅) (hk : b.handlers[n]? = some ⟨tgt, reused, .restamp o⟩) :
    (Books.move ⟨b.handlers, s.conns, s.past, b.targets, b.reconnects,
      given cfg b s.puts (.reg (.putRemoved n)), time⟩ n .returned id).Inv := by
  obtain ⟨c, hc, hst⟩ := h.stage n _ hk
  obtain ⟨rec, rfl⟩ : ∃ rec, o = some rec := by
    cases o with
    | none => exact absurd rfl hst.stamped
    | some rec => exact ⟨rec, rfl⟩
  obtain ⟨h1, -, h3⟩ := hst.pending rec rfl
  have hcall : Broker.storeCall cfg b (.putRemoved n) = if cfg.reconnectStore then some (.put rec) else none := by
    simp only [Broker.storeCall, hk]
  refine (stored_books cfg h hk rfl hcall).returns hk rfl fun id r hl hid c' e hc' he => ?_
  rw [show c' = c from Option.some.inj (hc'.symm.trans hc)] at he
  dsimp only at hl
  rw [given_put hcall] at hl
  split at hl
  · rw [storeOp, ← hid, ← h1, AList.lookup_insert, Option.some.injEq] at hl
    subst hl
    exact h3 e he
  · rename_i hno
    rw [hnst (Bool.eq_false_iff.2 hno)] at hl
    cases hl

/-- A sweep forgets records of targets that are gone. -/
theorem swept_books (cfg : Config) (now : Int)
    (h : Books.Inv ⟨b.handlers, s.conns, s.past, b.targets, b.reconnects, s.puts, time⟩) :
    Books.Inv ⟨(Broker.sweepReconnects cfg b now).handlers, s.conns, s.past, (Broker.sweepReconnects cfg b now).targets,
      (Broker.sweepReconnects cfg b now).reconnects, s.puts, time⟩ := by
  refine h.forget (m := (Broker.sweepReconnects cfg b now).reconnects) (fun id r hr => ?_) fun id n hn => ?_
  · rw [lookup_sweep] at hr
    split at hr
    · cases hr
    · exact hr
  · rw [lookup_sweep, if_neg (Broker.not_mem_stale_of_live hn now)]

theorem sweepDelete_books (cfg : Config) {id' : UInt64} {rest : List UInt64}
    (h : Books.Inv ⟨b.handlers, s.conns, s.past, b.targets, b.reconnects, s.puts, time⟩)
    (hsw : b.sweeps[n]? = some (id' :: rest)) :
    Books.Inv ⟨b.handlers, s.conns, s.past, b.targets, b.reconnects,
      given cfg b s.puts (.reg (.sweepDelete n)), time⟩ := by
  refine h.store fun id r hl => Or.inl ?_
  simp only [given, callStore, Broker.storeCall, hsw] at hl
  split at hl
  · rename_i op hop
    split at hop <;> cases hop
    by_cases hid : id = id'
    · rw [storeOp, hid, AList.lookup_erase] at hl
      cases hl
    · rwa [storeOp, AList.lookup_erase_ne hid] at hl
  · exact hl

end

/-- **A registration step keeps the books.** -/
theorem reg_books {l : Broker.RegLabel} {time : Int}
    (h : Books.Inv ⟨b.handlers, s.conns, s.past, b.targets, b.reconnects,
      s.puts, time⟩) (hnst : cfg.reconnectStore = false → s.puts = ∅) (hup : s.site.up = some b)
    (hon : onTime time (.broker (.reg l)) = true) (hg : Orderly x cfg s ⟨time, .broker (.reg l)⟩)
    (hs : Broker.stepReg x cfg b l = some b') :
    Books.Inv ⟨b'.handlers, closeAt s.conns (closing (.reg l)) time ++ opening b b' time, s.past, b'.targets,
      b'.reconnects, given cfg b s.puts (.reg l), time⟩ := by
  cases Broker.stepReg_cases hs with
  | register r => simpa [closing, closeAt, given, callStore, Broker.storeCall] using register_books h hup hon hg rfl
  | @put n tgt reused rec hk =>
    have hstore := stored_books cfg (l := .put n) h hk rfl (by simp only [Broker.storeCall, hk])
    rw [opening_of_handlers (by simp [Broker.setHandler])]
    simpa [Books.move, closing, closeAt, Broker.setHandler] using hstore.pass .reply hk rfl rfl rfl
  | accepted hk =>
    rw [opening_of_handlers (by simp [Broker.setHandler])]
    simpa [Books.move, closing, closeAt, Broker.setHandler, given, callStore, Broker.storeCall] using
      h.pass .serve hk rfl rfl rfl
  | reported hk =>
    rw [opening_of_handlers (by simp [Broker.setHandler])]
    simpa [Books.move, closing, closeAt, Broker.setHandler, given, callStore, Broker.storeCall] using
      h.pass (.deliver _ _ _) hk rfl rfl rfl
  | deliver hk =>
    rw [opening_of_handlers (by simp [Broker.setHandler, Broker.sendReply])]
    simpa [Books.move, closing, closeAt, Broker.setHandler, Broker.sendReply, given, callStore, Broker.storeCall] using
      h.pass .serve hk rfl rfl rfl
  | unheard hk | ended hk =>
    rw [opening_of_handlers (by simp [Broker.setHandler])]
    simpa [Books.move, closing, closeAt, Broker.setHandler, given, callStore, Broker.storeCall] using h.ends hk rfl
  | ignored =>
    rw [opening_of_handlers rfl]
    simpa [closing, closeAt, given, callStore, Broker.storeCall] using h
  | @removed n tgt reused now r hk hr =>
    have hnow : now = time := by simpa [onTime] using hon
    subst hnow
    have hsame : s.conns.modify n (fun c => c) = s.conns := List.modify_id _ _
    rw [opening_of_handlers (by simp [Broker.setHandler])]
    simpa [Books.remove, Books.move, hsame, closing, closeAt, Broker.setHandler, given, callStore,
      Broker.storeCall] using
      h.remove hk rfl hr
  | @unrecorded n tgt reused now hk hr =>
    -- A target that is still routed has its record.
    obtain ⟨c, -, hst⟩ := h.stage n _ hk
    have hkept : (b.reconnects.lookup tgt.id).isSome = true := h.kept _ _ (hst.routed (Or.inr rfl))
    rw [hr] at hkept
    cases hkept
  | putRemoved hk =>
    rw [opening_of_handlers (by simp [Broker.setHandler])]
    simpa [Books.move, closing, closeAt, Broker.setHandler] using restamped_books cfg h hnst hk
  | sweep now =>
    rw [opening_of_handlers (show (Broker.sweepReconnects cfg b now).handlers.length = b.handlers.length from rfl)]
    simpa [closing, closeAt, given, callStore, Broker.storeCall] using swept_books cfg now h
  | @sweepDelete n id' rest hsw =>
    rw [opening_of_handlers
      (show ({ b with sweeps := b.sweeps.set n rest } : Broker.State).handlers.length = b.handlers.length from rfl)]
    simpa [closing, closeAt] using sweepDelete_books cfg h hsw

theorem given_noStore {l : Broker.Label} (hst : cfg.reconnectStore = false) : given cfg b s.puts l = s.puts := by
  cases l with
  | req l | proxy l => rfl
  | reg l =>
    simp only [given, callStore]
    split
    · rename_i op hop
      rw [(storeCall_cases hop).1] at hst
      cases hst
    · rfl

theorem Rounded.storeOp {recs puts : GoMap UInt64 ReconnectRecord} (h : Rounded recs puts) (op : StoreOp) :
    Rounded (storeOp wholeSeconds recs op) (storeOp (fun t => t) puts op) := by
  intro id
  cases op with
  | put rec =>
    unfold Flushed.storeOp
    by_cases hid : id = rec.ccbid
    · rw [hid, AList.lookup_insert, AList.lookup_insert, Option.map_some]
    · rw [AList.lookup_insert_ne hid, AList.lookup_insert_ne hid]
      exact h id
  | delete ccbid =>
    unfold Flushed.storeOp
    by_cases hid : id = ccbid
    · rw [hid, AList.lookup_erase, AList.lookup_erase, Option.map_none]
    · rw [AList.lookup_erase_ne hid, AList.lookup_erase_ne hid]
      exact h id

theorem Rounded.callStore {recs puts : GoMap UInt64 ReconnectRecord} (h : Rounded recs puts) (a : Broker.Label) :
    Rounded (callStore cfg wholeSeconds b recs a) (given cfg b puts a) := by
  cases a with
  | req l | proxy l => exact h
  | reg l =>
    simp only [given, Flushed.callStore]
    split
    · exact h.storeOp _
    · exact h

/-- Stamps at whole seconds are read back as they were. -/
theorem Rounded.loaded {recs puts : GoMap UInt64 ReconnectRecord} (h : Rounded recs puts) {id : UInt64}
    {r : ReconnectRecord}
    (hr : recs.lookup id = some r) (hsec : ∀ r₀ ∈ puts.lookup id, wholeSeconds r₀.updatedAt = r₀.updatedAt) :
    puts.lookup id = some r := by
  rw [h id] at hr
  obtain ⟨r₀, hr₀, rfl⟩ := Option.map_eq_some_iff.1 hr
  rw [hr₀, hsec r₀ hr₀]

theorem Clocked.Inv.broker {a : Broker.Label} {time : Int} (hi : s.Inv cfg) (hg : Orderly x cfg s ⟨time, .broker a⟩)
    (hs : s.step x cfg ⟨time, .broker a⟩ = some t) : t.Inv cfg := by
  obtain ⟨hle, hon, u, hu, rfl⟩ := Clocked.step_some hs
  obtain ⟨b, b', hup, hb, rfl⟩ := step_broker hu
  have h := hi.books
  rw [Clocked.books_up hup] at h
  have h := h.tick hle
  rw [Clocked.follow_broker hup]
  refine ⟨?_, fun hst => (given_noStore hst).trans (hi.noStore hst), hi.rounded.callStore a⟩
  show Books.Inv ⟨b'.handlers, closeAt s.conns (closing a) time ++ opening b b' time, s.past, b'.targets, b'.reconnects,
    given cfg b s.puts a, time⟩
  cases a with
  | reg l => exact reg_books h hi.noStore hup hon hg hb
  | req l | proxy l =>
    obtain ⟨-, h2, h3, h1, -⟩ := Broker.tables_of_not_reg hb (fun r hr => by cases hr)
    rw [opening_of_handlers (congrArg List.length h1), h1, h2, h3]
    simpa [closing, closeAt, given, callStore] using h

theorem Clocked.Inv.crash {time : Int} (hi : s.Inv cfg) (hg : Orderly x cfg s ⟨time, .crash⟩)
    (hs : s.step x cfg ⟨time, .crash⟩ = some t) : t.Inv cfg := by
  obtain ⟨hle, -, u, hu, rfl⟩ := Clocked.step_some hs
  have h := hi.books
  simp only [Flushed.step] at hu
  split at hu <;> cases hu
  rename_i b hup
  rw [Clocked.books_up hup] at h
  exact ⟨(h.tick hle).crash (hg b hup), hi.noStore, hi.rounded⟩

theorem Clocked.Inv.restart {recs : List ReconnectRecord} {time : Int} (hi : s.Inv cfg)
    (hg : Orderly x cfg s ⟨time, .restart recs⟩) (hs : s.step x cfg ⟨time, .restart recs⟩ = some t) : t.Inv cfg := by
  obtain ⟨hle, -, u, hu, rfl⟩ := Clocked.step_some hs
  obtain ⟨hup, hp, rfl⟩ := step_restart hu
  have h := hi.books
  rw [Clocked.books, hup] at h
  refine ⟨?_, hi.noStore, hi.rounded⟩
  have hkey : ∀ id r, s.site.recs.lookup id = some r → r.ccbid = id := by
    intro id r hr
    rw [hi.rounded id] at hr
    obtain ⟨r₀, hr₀, rfl⟩ := Option.map_eq_some_iff.1 hr
    exact (h.stored id r₀ hr₀).1
  have hload : ∀ id r, (Site.newBroker cfg recs).reconnects.lookup id = some r → s.puts.lookup id = some r := by
    intro id r hr
    obtain ⟨hmem, rfl⟩ := newBroker_lookup hr
    exact hi.rounded.loaded (newBroker_stored hkey hp hr) (hg r hmem)
  have := (h.tick hle).restart (m := (Site.newBroker cfg recs).reconnects) rfl rfl hload
  show Books.Inv ⟨(Site.newBroker cfg recs).handlers, s.conns, s.past, (Site.newBroker cfg recs).targets, _, _, time⟩
  rw [(newBroker_handlers recs).1, (newBroker_handlers recs).2]
  exact this

theorem Clocked.Inv.step {l : TimedLabel} (hi : s.Inv cfg) (hg : Orderly x cfg s l) (hs : s.step x cfg l = some t) :
    t.Inv cfg := by
  obtain ⟨time, l⟩ := l
  cases l with
  | broker a => exact hi.broker hg hs
  | crash => exact hi.crash hg hs
  | restart recs => exact hi.restart hg hs

theorem mem_stale {id : UInt64} {now : Int} (h : id ∈ Broker.stale cfg b now) :
    b.targets.lookup id = none ∧ ∃ r, b.reconnects.lookup id = some r ∧ r.updatedAt < now - cfg.reconnectTTL := by
  obtain ⟨e, he, rfl⟩ := List.mem_map.1 h
  obtain ⟨hmem, hcond⟩ := List.mem_filter.1 he
  simp only [Bool.and_eq_true, Option.isNone_iff_eq_none, decide_eq_true_eq] at hcond
  exact ⟨hcond.1, e.2, AList.mem_lookup_iff.2 hmem, hcond.2⟩

/-- **Every connection of a swept CCBID ended before the cutoff.** -/
theorem Clocked.Inv.retained {l : TimedLabel} (hi : s.Inv cfg) : Retained cfg s l := by
  unfold Retained
  split
  · rename_i now _
    intro b hup id hid c hc hcid hopen
    obtain ⟨htg, r, hr, hlt⟩ := mem_stale hid
    have h := hi.books
    rw [Clocked.books_up hup] at h
    obtain ⟨h1, h2⟩ := (h.records id r hr).2
    obtain ⟨e, he, hle⟩ : ∃ e, c.closed = some e ∧ e ≤ r.updatedAt := by
      rcases List.mem_append.1 hc with hc | hc
      · obtain ⟨e, he, -⟩ := h.past c hc
        exact ⟨e, he, h1 c hc hcid e he⟩
      · obtain ⟨n, hn⟩ := List.mem_iff_getElem?.1 hc
        have hlen := (List.getElem?_eq_some_iff.1 hn).1
        have hlen' : n < b.handlers.length := by rw [← h.conns]; exact hlen
        obtain ⟨c', hc', hst⟩ := h.stage n _ (List.getElem?_eq_getElem hlen')
        obtain rfl : c = c' := Option.some.inj (hn.symm.trans hc')
        have hrem : removed b.handlers[n].pc = true :=
          hst.removed_of_unrouted (by rw [← hst.id, hcid]; exact htg)
        obtain ⟨e, he, -⟩ := hst.ended (not_live_of_removed hrem)
        exact ⟨e, he, h2 n _ c (List.getElem?_eq_getElem hlen') hn hrem (hst.id ▸ hcid) e he⟩
    have := hopen.2 e he
    omega
  · trivial

end

theorem Clocked.Inv.start (cfg : Config) (now : Int) : (Clocked.start now).Inv cfg :=
  ⟨⟨(fun n k hk => by cases hk), rfl, (fun c hc => by cases hc), (fun n m k k' hk => by cases hk),
    (fun id n hn => by cases hn), (fun id r hr => by cases hr), (fun id r hr => by cases hr)⟩, fun _ => rfl,
    fun _ => rfl⟩

/-- **Sweeps keep the records of those connected within the TTL**, in every orderly run. -/
theorem sweep_retains (x : Ext) (cfg : Config) (now : Int) (ls : List TimedLabel)
    (hm : Meets (Clocked.step x cfg) (Orderly x cfg) (Clocked.start now) ls) :
    Meets (Clocked.step x cfg) (Retained cfg) (Clocked.start now) ls :=
  Machine.Meets.of_inv (I := Clocked.Inv cfg) (fun _ _ _ hi hg hs => hi.step hg hs)
    (fun _ _ _ hi _ _ => hi.retained) ls _ (.start cfg now) hm

/-! ## Runs -/

instance (c : Connection) (lo hi : Int) : Decidable (c.OpenDuring lo hi) :=
  inferInstanceAs (Decidable (c.opened ≤ hi ∧ ∀ e ∈ c.closed, lo ≤ e))

instance (cfg : Config) (s : Clocked) : DecidablePred (Retained cfg s)
  | ⟨_, .broker (.reg (.sweep now))⟩ =>
    @Option.decidableForallMem _ _ (fun b => @List.decidableBAll _
      (fun id => ∀ c ∈ s.past ++ s.conns, c.id = id → ¬ c.OpenDuring (now - cfg.reconnectTTL) now) _
      (Broker.stale cfg b now)) s.site.up
  | ⟨_, .broker (.reg (.register _))⟩ | ⟨_, .broker (.reg (.put _))⟩ | ⟨_, .broker (.reg (.replied _ _))⟩
  | ⟨_, .broker (.reg (.read _ _))⟩ | ⟨_, .broker (.reg (.deliver _))⟩ | ⟨_, .broker (.reg (.removeTarget _ _))⟩
  | ⟨_, .broker (.reg (.putRemoved _))⟩ | ⟨_, .broker (.reg (.sweepDelete _))⟩ | ⟨_, .broker (.req _)⟩
  | ⟨_, .broker (.proxy _)⟩ | ⟨_, .crash⟩ | ⟨_, .restart _⟩ => .isTrue trivial

instance (x : Ext) (cfg : Config) (s : Clocked) : DecidablePred (Orderly x cfg s)
  | ⟨_, .broker (.reg (.register r))⟩ =>
    inferInstanceAs (Decidable (∀ b ∈ s.site.up,
      ∀ k ∈ (Broker.handleRegister x cfg b r).handlers.drop b.handlers.length,
        ∀ k' ∈ b.handlers, k'.target.id = k.target.id → k'.pc = .returned))
  | ⟨_, .crash⟩ => inferInstanceAs (Decidable (∀ b ∈ s.site.up, ∀ k ∈ b.handlers, k.pc = .returned))
  | ⟨_, .restart recs⟩ => inferInstanceAs (Decidable (∀ r ∈ recs, ∀ r₀ ∈ s.puts.lookup r.ccbid,
      wholeSeconds r₀.updatedAt = r₀.updatedAt))
  | ⟨_, .broker (.reg (.removeTarget _ _))⟩ | ⟨_, .broker (.reg (.put _))⟩ | ⟨_, .broker (.reg (.replied _ _))⟩
  | ⟨_, .broker (.reg (.read _ _))⟩
  | ⟨_, .broker (.reg (.deliver _))⟩ | ⟨_, .broker (.reg (.putRemoved _))⟩ | ⟨_, .broker (.reg (.sweep _))⟩
  | ⟨_, .broker (.reg (.sweepDelete _))⟩ | ⟨_, .broker (.req _)⟩ | ⟨_, .broker (.proxy _)⟩ => .isTrue trivial

def seconds (n : Int) : Int := n * 1000000000

/-- A target registers ten seconds in. -/
def registers : List TimedLabel :=
  [⟨0, .restart []⟩,
   ⟨seconds 10,
     .broker (.reg (.register ⟨"10.0.0.7:4000", "condor@pool", some ⟨"startd", "", ""⟩, some "c0ffee", seconds 10⟩))⟩,
   ⟨seconds 10, .broker (.reg (.put 0))⟩, ⟨seconds 10, .broker (.reg (.replied 0 true))⟩]

/-- Its connection ends after eleven days, and a day and a second later comes a sweep, over a restart. -/
def disconnects : List TimedLabel :=
  [⟨seconds 1000000, .broker (.reg (.read 0 none))⟩,
    ⟨seconds 1000000, .broker (.reg (.removeTarget 0 (seconds 1000000)))⟩,
   ⟨seconds 1000000, .broker (.reg (.putRemoved 0))⟩, ⟨seconds 1000000, .crash⟩,
   ⟨seconds 1000000, .restart [⟨1, "c0ffee", "10.0.0.7", "startd", seconds 1000000⟩]⟩,
   ⟨seconds 1086401, .broker (.reg (.sweep (seconds 1086401)))⟩]

theorem sweep_retains_disconnects :
    (run (Clocked.step Broker.splitExt Broker.plainConfig) (Clocked.start 0) (registers ++ disconnects)).map
        (fun s => (s.site.up.map (·.sweeps), s.past)) =
          some (some [[1]], [⟨1, seconds 10, some (seconds 1000000)⟩]) ∧
      Meets (Clocked.step Broker.splitExt Broker.plainConfig) (Retained Broker.plainConfig) (Clocked.start 0)
        (registers ++ disconnects) :=
  ⟨by decide +kernel, sweep_retains _ _ _ _ (by decide +kernel)⟩

/-- The broker crashes after eleven days, with the connection open, and sweeps a second after its restart. -/
def crashes : List TimedLabel :=
  [⟨seconds 1000000, .crash⟩, ⟨seconds 1000000, .restart [⟨1, "c0ffee", "10.0.0.7", "startd", seconds 10⟩]⟩,
   ⟨seconds 1000001, .broker (.reg (.sweep (seconds 1000001)))⟩]

/-- **A sweep after a crash removes the record of a target connected a second before.** -/
theorem crash_sweeps_early :
    (run (Clocked.step Broker.splitExt Broker.plainConfig) (Clocked.start 0) (registers ++ crashes)).map
        (fun s => (s.site.up.map (·.sweeps), s.past)) =
          some (some [[1]], [⟨1, seconds 10, some (seconds 1000000)⟩]) ∧
      ¬ Meets (Clocked.step Broker.splitExt Broker.plainConfig) (Retained Broker.plainConfig) (Clocked.start 0)
        (registers ++ crashes) := by
  constructor <;> decide +kernel

end Flushed
end Ccb
