import Ccb.Machine
import Ccb.BrokerProxy
/-!
# BrokerProxyInv — the invariant of the proxy sessions

The table holds exactly the sessions between their insert and their delete, a hello holds only a session with its own
connect id, and each connection handed over is in its session's channel, with its owner, or closed (`ProxyInv`).  One
lemma per effect of `step_proxyEffect`, then `ProxyInv.step`, and `proxyInv_of_run` for whole runs.
-/
namespace Ccb
namespace Broker

open Machine (run)

/-- What holds of one `proxyRelay` call, given the histories. -/
structure RelayOk (handed splices : List (Nat × Nat)) (closed : List Nat) (k : Nat) (r : Relay) : Prop where
  place     : ∀ c, (c, k) ∈ handed → r.targetCh = some c ∨ r.pc.taken = some c ∨ c ∈ closed
  holds     : ∀ c, r.targetCh = some c ∨ r.pc.taken = some c → (c, k) ∈ handed
  untaken   : r.pc.untaken = true ∨ r.done = false ∧ (r.pc = .exit ∨ r.pc = .returned) →
                ∀ c, (c, k) ∈ handed → r.targetCh = some c
  unspliced : r.pc.beforeSplice = true → ∀ c, (k, c) ∉ splices

/-- Session `k` has been in the table under `id`. -/
def Seen (s : State) (k : Nat) (id : String) : Prop :=
  ∃ r, s.relays[k]? = some r ∧ r.connectID = id ∧ r.pc.inserted = true

/-- The invariant of the proxy sessions. -/
structure ProxyInv (s : State) : Prop where
  table       : ∀ id k, s.proxies.lookup id = some k ↔
                  ∃ r, s.relays[k]? = some r ∧ r.connectID = id ∧ r.pc.pending = true
  relay       : ∀ (k : Nat) r, s.relays[k]? = some r → RelayOk s.handed s.splices s.closed k r
  sending     : ∀ (c : Nat) h k, s.hellos[c]? = some h → h.pc = .send k → Seen s k h.claimID
  waiting     : ∀ (c : Nat) h k, s.hellos[c]? = some h → h.pc = .waitDone k → (c, k) ∈ s.handed
  keeps       : ∀ (c : Nat) h, s.hellos[c]? = some h → h.pc.keeps = true → ∀ k, (c, k) ∉ s.handed
  handed      : ∀ c k, (c, k) ∈ s.handed → ∃ h, s.hellos[c]? = some h ∧ Seen s k h.claimID
  handedOnce  : (s.handed.map Prod.fst).Nodup
  spliced     : ∀ k c, (k, c) ∈ s.splices → (c, k) ∈ s.handed
  splicedOnce : (s.splices.map Prod.fst).Nodup

theorem RelayPc.inserted_of_pending {pc : RelayPc} (h : pc.pending = true) : pc.inserted = true := by
  cases pc <;> first | rfl | cases h

/-- A relay's facts read the histories at its own number only, and `closed` only grows. -/
theorem RelayOk.congr {hd hd' sp sp' : List (Nat × Nat)} {cl cl' : List Nat} {k : Nat} {r : Relay}
    (h : RelayOk hd sp cl k r) (h1 : ∀ c, (c, k) ∈ hd' ↔ (c, k) ∈ hd) (h2 : ∀ c, (k, c) ∈ sp' ↔ (k, c) ∈ sp)
    (h3 : ∀ c ∈ cl, c ∈ cl') : RelayOk hd' sp' cl' k r where
  place c hc := by
    rcases h.place c ((h1 c).1 hc) with h | h | h
    · exact Or.inl h
    · exact Or.inr (Or.inl h)
    · exact Or.inr (Or.inr (h3 c h))
  holds c hc := (h1 c).2 (h.holds c hc)
  untaken hu c hc := h.untaken hu c ((h1 c).1 hc)
  unspliced hb c hc := h.unspliced hb c ((h2 c).1 hc)

theorem nodup_fst_concat {l : List (Nat × Nat)} {a b : Nat} (hl : (l.map Prod.fst).Nodup) (ha : ∀ b, (a, b) ∉ l) :
    ((l ++ [(a, b)]).map Prod.fst).Nodup := by
  rw [List.map_append, List.nodup_append]
  refine ⟨hl, by simp, ?_⟩
  rintro x hx y hy rfl
  simp only [List.map_cons, List.map_nil, List.mem_singleton] at hy
  obtain ⟨⟨i, j⟩, hij, rfl⟩ := List.mem_map.1 hx
  dsimp only at hy
  exact ha j (hy ▸ hij)

/-- **One session changes**: every other one, the hellos and what has been handed over stand.  The caller says what
became of the table and of the session itself. -/
theorem ProxyInv.modify {s t : State} (hi : ProxyInv s) {k : Nat} {r : Relay} {f : Relay → Relay}
    (hk : s.relays[k]? = some r) (hrel : t.relays = s.relays.modify k f) (hid : ∀ r, (f r).connectID = r.connectID)
    (hins : r.pc.inserted = true → (f r).pc.inserted = true)
    (htab : ∀ id j, t.proxies.lookup id = some j ↔ ∃ r, t.relays[j]? = some r ∧ r.connectID = id ∧ r.pc.pending = true)
    (hhel : t.hellos = s.hellos) (hhd : t.handed = s.handed)
    (hsp : t.splices = s.splices ∨
      ∃ c, t.splices = s.splices ++ [(k, c)] ∧ (c, k) ∈ s.handed ∧ ∀ c, (k, c) ∉ s.splices)
    (hcl : ∀ c ∈ s.closed, c ∈ t.closed) (hok : RelayOk s.handed t.splices t.closed k (f r)) : ProxyInv t := by
  have hseen : ∀ j id, Seen s j id → Seen t j id := by
    rintro j id ⟨r', hr', hid', hin'⟩
    by_cases he : k = j
    · subst he
      rw [hk] at hr'
      cases hr'
      exact ⟨f r, by rw [hrel]; simp [hk], by rw [hid, hid'], hins hin'⟩
    · exact ⟨r', by rw [hrel, List.getElem?_modify_ne _ _ he]; exact hr', hid', hin'⟩
  have hother : ∀ j, k ≠ j → ∀ c, (j, c) ∈ t.splices ↔ (j, c) ∈ s.splices := by
    intro j hj c
    rcases hsp with hsp | ⟨c', hsp, -⟩
    · rw [hsp]
    · rw [hsp]
      simp only [List.mem_append, List.mem_singleton, Prod.mk.injEq, or_iff_left_iff_imp]
      rintro ⟨rfl, -⟩
      exact absurd rfl hj
  refine ⟨htab, fun j r' hr' => ?_, ?_, ?_, ?_, ?_, by rw [hhd]; exact hi.handedOnce, ?_, ?_⟩
  · rw [hrel] at hr'
    rcases getElem?_modify_some hr' with ⟨rfl, b, hb, rfl⟩ | ⟨hne, hr'⟩
    · rw [hk] at hb
      cases hb
      rw [hhd]; exact hok
    · exact (hi.relay j r' hr').congr (fun c => by rw [hhd]) (hother j hne) hcl
  · intro c h j hc hp
    exact hseen j h.claimID (hi.sending c h j (hhel ▸ hc) hp)
  · intro c h j hc hp
    rw [hhd]; exact hi.waiting c h j (hhel ▸ hc) hp
  · intro c h hc hp j
    rw [hhd]; exact hi.keeps c h (hhel ▸ hc) hp j
  · intro c j hc
    rw [hhd] at hc
    obtain ⟨h, hh, hs⟩ := hi.handed c j hc
    exact ⟨h, by rw [hhel]; exact hh, hseen j h.claimID hs⟩
  · intro j c hc
    rw [hhd]
    rcases hsp with hsp | ⟨c', hsp, hc', -⟩
    · exact hi.spliced j c (hsp ▸ hc)
    · rw [hsp] at hc
      rcases List.mem_append.1 hc with hc | hc
      · exact hi.spliced j c hc
      · rw [List.mem_singleton] at hc
        cases hc
        exact hc'
  · rcases hsp with hsp | ⟨c', hsp, -, hnot⟩
    · rw [hsp]; exact hi.splicedOnce
    · rw [hsp]; exact nodup_fst_concat hi.splicedOnce hnot

/-- The table of a step that neither inserts nor deletes. -/
theorem table_of_modify {s t : State} (hi : ProxyInv s) {k : Nat} {r : Relay} {f : Relay → Relay}
    (hk : s.relays[k]? = some r) (hrel : t.relays = s.relays.modify k f) (hid : ∀ r, (f r).connectID = r.connectID)
    (hpend : (f r).pc.pending = r.pc.pending) (hpr : t.proxies = s.proxies) (id : String) (j : Nat) :
    t.proxies.lookup id = some j ↔ ∃ r, t.relays[j]? = some r ∧ r.connectID = id ∧ r.pc.pending = true := by
  rw [hpr, hi.table, hrel]
  constructor
  · rintro ⟨r', hr', hid', hp'⟩
    by_cases he : k = j
    · subst he
      rw [hk] at hr'
      cases hr'
      exact ⟨f r, by simp [hk], by rw [hid, hid'], by rw [hpend, hp']⟩
    · exact ⟨r', by rw [List.getElem?_modify_ne _ _ he]; exact hr', hid', hp'⟩
  · rintro ⟨r', hr', hid', hp'⟩
    rcases getElem?_modify_some hr' with ⟨rfl, b, hb, rfl⟩ | ⟨hne, hr'⟩
    · rw [hk] at hb
      cases hb
      exact ⟨r, hk, by rw [← hid', hid], by rw [← hpend, hp']⟩
    · exact ⟨r', hr', hid', hp'⟩

theorem ProxyInv.start {s t : State} (hi : ProxyInv s) {k : Nat} {r : Relay} {n : UInt64} (hk : s.relays[k]? = some r)
    (hpc : r.pc = .start) (hfree : s.proxies.lookup r.connectID = none)
    (hpr : t.proxies = s.proxies.insert r.connectID k)
    (hrel : t.relays = s.relays.modify k (fun r => { r with requestID := n, pc := .forward }))
    (hhel : t.hellos = s.hellos)
    (hhd : t.handed = s.handed) (hsp : t.splices = s.splices) (hcl : t.closed = s.closed) : ProxyInv t := by
  have ok := hi.relay k r hk
  refine hi.modify hk hrel (fun _ => rfl) (fun _ => rfl) (fun id j => ?_) hhel hhd (Or.inl hsp) (fun c hc => hcl ▸ hc)
    ⟨fun c hc => ?_, fun c hc => ?_, fun _ => ok.untaken (Or.inl (by rw [hpc]; rfl)), fun _ => ?_⟩
  · rw [hpr, hrel]
    by_cases hidr : id = r.connectID
    · subst hidr
      rw [AList.lookup_insert]
      constructor
      · rintro ⟨⟩
        exact ⟨{ r with requestID := n, pc := .forward }, by simp [hk], rfl, rfl⟩
      · rintro ⟨r', hr', hid', hp'⟩
        rcases getElem?_modify_some hr' with ⟨rfl, -⟩ | ⟨-, hr'⟩
        · rfl
        · have := (hi.table r.connectID j).2 ⟨r', hr', hid', hp'⟩
          rw [hfree] at this; cases this
    · rw [AList.lookup_insert_ne hidr, hi.table]
      constructor
      · rintro ⟨r', hr', hid', hp'⟩
        have hne : k ≠ j := fun he => by subst he; rw [hk] at hr'; cases hr'; exact hidr hid'.symm
        exact ⟨r', by rw [List.getElem?_modify_ne _ _ hne]; exact hr', hid', hp'⟩
      · rintro ⟨r', hr', hid', hp'⟩
        rcases getElem?_modify_some hr' with ⟨rfl, b, hb, rfl⟩ | ⟨-, hr'⟩
        · rw [hk] at hb
          cases hb
          exact absurd hid'.symm hidr
        · exact ⟨r', hr', hid', hp'⟩
  · exact Or.inl (ok.untaken (Or.inl (by rw [hpc]; rfl)) c hc)
  · rcases hc with hc | hc
    · exact ok.holds c (Or.inl hc)
    · cases hc
  · rw [hsp]; exact ok.unspliced (by rw [hpc]; rfl)

theorem ProxyInv.move {s t : State} (hi : ProxyInv s) {k : Nat} {r : Relay} {pc : RelayPc} (hk : s.relays[k]? = some r)
    (hm : PlainMove r.pc pc) (hpr : t.proxies = s.proxies)
    (hrel : t.relays = s.relays.modify k (fun r => { r with pc := pc })) (hhel : t.hellos = s.hellos)
    (hhd : t.handed = s.handed) (hsp : t.splices = s.splices) (hcl : t.closed = s.closed) : ProxyInv t := by
  have ok := hi.relay k r hk
  have hun : r.pc.untaken = true := by generalize r.pc = p at hm; cases hm <;> rfl
  have hbefore : r.pc.beforeSplice = true := by generalize r.pc = p at hm; cases hm <;> rfl
  have htaken : pc.taken = none := by generalize r.pc = p at hm; cases hm <;> rfl
  have hch := ok.untaken (Or.inl hun)
  refine hi.modify hk hrel (fun _ => rfl) (fun h => ?_)
    (table_of_modify hi hk hrel (fun _ => rfl) ?_ hpr) hhel hhd (Or.inl hsp) (fun c hc => hcl ▸ hc)
    ⟨fun c hc => Or.inl (hch c hc), fun c hc => ?_, fun _ => hch, fun _ => ?_⟩
  · generalize r.pc = p at hm h
    cases hm <;> first | rfl | cases h
  · generalize r.pc = p at hm
    cases hm <;> rfl
  · rcases hc with hc | hc
    · exact ok.holds c (Or.inl hc)
    · rw [htaken] at hc; cases hc
  · rw [hsp]; exact ok.unspliced hbefore

theorem ProxyInv.take {s t : State} (hi : ProxyInv s) {k : Nat} {r : Relay} {c : Nat} {pc : RelayPc}
    (hk : s.relays[k]? = some r) (hpc : r.pc = .wait) (hch : r.targetCh = some c)
    (hnext : pc = .reply c ∧ t.splices = s.splices ∨ pc = .splice c ∧ t.splices = s.splices ++ [(k, c)])
    (hpr : t.proxies = s.proxies) (hrel : t.relays = s.relays.modify k (fun r => { r with targetCh := none, pc := pc }))
    (hhel : t.hellos = s.hellos) (hhd : t.handed = s.handed) (hcl : t.closed = s.closed) : ProxyInv t := by
  have ok := hi.relay k r hk
  have hmem : (c, k) ∈ s.handed := ok.holds c (Or.inl hch)
  have honly : ∀ c', (c', k) ∈ s.handed → c' = c := by
    intro c' hc'
    have := ok.untaken (Or.inl (by rw [hpc]; rfl)) c' hc'
    rw [hch] at this
    exact (Option.some.inj this).symm
  have hnot : ∀ c, (k, c) ∉ s.splices := ok.unspliced (by rw [hpc]; rfl)
  have htaken : pc.taken = some c := by rcases hnext with ⟨rfl, -⟩ | ⟨rfl, -⟩ <;> rfl
  have huntaken : pc.untaken = false := by rcases hnext with ⟨rfl, -⟩ | ⟨rfl, -⟩ <;> rfl
  refine hi.modify hk hrel (fun _ => rfl) (fun _ => ?_) (table_of_modify hi hk hrel (fun _ => rfl) ?_ hpr) hhel hhd
    ?_ (fun c hc => hcl ▸ hc) ⟨fun c' hc' => Or.inr (Or.inl ?_), fun c' hc' => ?_, fun h => ?_, fun h => ?_⟩
  · rcases hnext with ⟨rfl, -⟩ | ⟨rfl, -⟩ <;> rfl
  · rw [hpc]
    rcases hnext with ⟨rfl, -⟩ | ⟨rfl, -⟩ <;> rfl
  · rcases hnext with ⟨-, h⟩ | ⟨-, h⟩
    · exact Or.inl h
    · exact Or.inr ⟨c, h, hmem, hnot⟩
  · rw [honly c' hc']; exact htaken
  · rcases hc' with h | h
    · cases h
    · have : some c = some c' := by rw [← htaken]; exact h
      cases this
      exact hmem
  · rcases h with h | ⟨-, h⟩
    · exact absurd h (by rw [huntaken]; decide)
    · rcases hnext with ⟨rfl, -⟩ | ⟨rfl, -⟩ <;> rcases h with h | h <;> cases h
  · rcases hnext with ⟨-, hsp⟩ | ⟨rfl, -⟩
    · rw [hsp]; exact hnot
    · cases h

theorem ProxyInv.splice {s t : State} (hi : ProxyInv s) {k : Nat} {r : Relay} {c : Nat} (hk : s.relays[k]? = some r)
    (hpc : r.pc = .reply c) (hpr : t.proxies = s.proxies)
    (hrel : t.relays = s.relays.modify k (fun r => { r with pc := .splice c })) (hhel : t.hellos = s.hellos)
    (hhd : t.handed = s.handed) (hsp : t.splices = s.splices ++ [(k, c)]) (hcl : t.closed = s.closed) : ProxyInv t := by
  have ok := hi.relay k r hk
  have hmem : (c, k) ∈ s.handed := ok.holds c (Or.inr (by rw [hpc]; rfl))
  refine hi.modify hk hrel (fun _ => rfl) (fun _ => rfl)
    (table_of_modify hi hk hrel (fun _ => rfl) (by rw [hpc]; rfl) hpr) hhel hhd
    (Or.inr ⟨c, hsp, hmem, ok.unspliced (by rw [hpc]; rfl)⟩) (fun c hc => hcl ▸ hc)
    ⟨fun c' hc' => ?_, fun c' hc' => ok.holds c' ?_, fun h => ?_, fun h => by cases h⟩
  · have := ok.place c' hc'
    rw [hpc] at this
    rw [hcl]; exact this
  · rw [hpc]; exact hc'
  · rcases h with h | ⟨-, h | h⟩ <;> cases h

theorem ProxyInv.close {s t : State} (hi : ProxyInv s) {k : Nat} {r : Relay} {c : Nat} (hk : s.relays[k]? = some r)
    (hpc : r.pc.taken = some c) (hpr : t.proxies = s.proxies)
    (hrel : t.relays = s.relays.modify k (fun r => { r with pc := .finish })) (hhel : t.hellos = s.hellos)
    (hhd : t.handed = s.handed) (hsp : t.splices = s.splices) (hcl : t.closed = c :: s.closed) : ProxyInv t := by
  have ok := hi.relay k r hk
  have hpend : r.pc.pending = true := by
    generalize r.pc = p at hpc
    cases p <;> first | rfl | cases hpc
  refine hi.modify hk hrel (fun _ => rfl) (fun _ => rfl)
    (table_of_modify hi hk hrel (fun _ => rfl) (by rw [hpend]; rfl) hpr) hhel hhd (Or.inl hsp)
    (fun c hc => by rw [hcl]; exact List.mem_cons_of_mem _ hc)
    ⟨fun c' hc' => ?_, fun c' hc' => ?_, fun h => ?_, fun h => by cases h⟩
  · rw [hcl]
    rcases ok.place c' hc' with h | h | h
    · exact Or.inl h
    · rw [hpc] at h
      cases h
      exact Or.inr (Or.inr List.mem_cons_self)
    · exact Or.inr (Or.inr (List.mem_cons_of_mem _ h))
  · rcases hc' with h | h
    · exact ok.holds c' (Or.inl h)
    · cases h
  · rcases h with h | ⟨-, h | h⟩ <;> cases h

theorem ProxyInv.finish {s t : State} (hi : ProxyInv s) {k : Nat} {r : Relay} (hk : s.relays[k]? = some r)
    (hpc : r.pc = .finish) (hpr : t.proxies = s.proxies)
    (hrel : t.relays = s.relays.modify k (fun r => { r with done := true, pc := .exit })) (hhel : t.hellos = s.hellos)
    (hhd : t.handed = s.handed) (hsp : t.splices = s.splices) (hcl : t.closed = s.closed) : ProxyInv t := by
  have ok := hi.relay k r hk
  refine hi.modify hk hrel (fun _ => rfl) (fun _ => rfl)
    (table_of_modify hi hk hrel (fun _ => rfl) (by rw [hpc]; rfl) hpr) hhel hhd (Or.inl hsp) (fun c hc => hcl ▸ hc)
    ⟨fun c' hc' => ?_, fun c' hc' => ok.holds c' ?_, fun h => ?_, fun h => by cases h⟩
  · have := ok.place c' hc'
    rw [hpc] at this
    rw [hcl]; exact this
  · rw [hpc]; exact hc'
  · rcases h with h | ⟨h, -⟩ <;> cases h

/-- **The deferred delete takes the handler's own session out**, and no other. -/
theorem ProxyInv.delete {s t : State} (hi : ProxyInv s) {k : Nat} {r : Relay} (hk : s.relays[k]? = some r)
    (hpc : r.pc = .exit) (hpr : t.proxies = s.proxies.erase r.connectID)
    (hrel : t.relays = s.relays.modify k (fun r => { r with pc := .returned })) (hhel : t.hellos = s.hellos)
    (hhd : t.handed = s.handed) (hsp : t.splices = s.splices) (hcl : t.closed = s.closed) : ProxyInv t := by
  have ok := hi.relay k r hk
  have hown : s.proxies.lookup r.connectID = some k := (hi.table _ _).2 ⟨r, hk, rfl, by rw [hpc]; rfl⟩
  refine hi.modify hk hrel (fun _ => rfl) (fun _ => rfl) (fun id j => ?_) hhel hhd (Or.inl hsp) (fun c hc => hcl ▸ hc)
    ⟨fun c' hc' => ?_, fun c' hc' => ok.holds c' ?_, fun h => ok.untaken ?_, fun h => by cases h⟩
  · rw [hpr, hrel]
    by_cases hidr : id = r.connectID
    · subst hidr
      rw [AList.lookup_erase]
      constructor
      · rintro ⟨⟩
      · rintro ⟨r', hr', hid', hp'⟩
        rcases getElem?_modify_some hr' with ⟨rfl, b, hb, rfl⟩ | ⟨hne, hr'⟩
        · cases hp'
        · have := (hi.table r.connectID j).2 ⟨r', hr', hid', hp'⟩
          rw [hown] at this
          exact absurd (Option.some.inj this) hne
    · rw [AList.lookup_erase_ne hidr, hi.table]
      constructor
      · rintro ⟨r', hr', hid', hp'⟩
        have hne : k ≠ j := fun he => by subst he; rw [hk] at hr'; cases hr'; exact hidr hid'.symm
        exact ⟨r', by rw [List.getElem?_modify_ne _ _ hne]; exact hr', hid', hp'⟩
      · rintro ⟨r', hr', hid', hp'⟩
        rcases getElem?_modify_some hr' with ⟨rfl, b, hb, rfl⟩ | ⟨-, hr'⟩
        · cases hp'
        · exact ⟨r', hr', hid', hp'⟩
  · have := ok.place c' hc'
    rw [hpc] at this
    rw [hcl]; exact this
  · rw [hpc]; exact hc'
  · rcases h with h | ⟨h, -⟩
    · cases h
    · exact Or.inr ⟨h, Or.inl hpc⟩

theorem ProxyInv.newRelay {s t : State} (hi : ProxyInv s) {r : Relay} (hpc : r.pc = .start) (hch : r.targetCh = none)
    (hpr : t.proxies = s.proxies) (hrel : t.relays = s.relays ++ [r]) (hhel : t.hellos = s.hellos)
    (hhd : t.handed = s.handed) (hsp : t.splices = s.splices) (hcl : t.closed = s.closed) : ProxyInv t := by
  have hseen : ∀ j id, Seen s j id → Seen t j id := by
    rintro j id ⟨r', hr', h⟩
    exact ⟨r', by rw [hrel]; exact getElem?_concat_left hr', h⟩
  -- No history names the new call: those it names have been in the table.
  have hnew : ∀ c, (c, s.relays.length) ∉ s.handed := by
    intro c hc
    obtain ⟨_, -, r', hr', -⟩ := hi.handed c _ hc
    simp at hr'
  refine ⟨fun id j => ?_, fun j r' hr' => ?_, fun c h j hc hp => hseen _ _ (hi.sending c h j (hhel ▸ hc) hp),
    fun c h j hc hp => hhd ▸ hi.waiting c h j (hhel ▸ hc) hp, fun c h hc hp j => hhd ▸ hi.keeps c h (hhel ▸ hc) hp j,
    fun c j hc => ?_, hhd ▸ hi.handedOnce, fun j c hc => hhd ▸ hi.spliced j c (hsp ▸ hc), hsp ▸ hi.splicedOnce⟩
  · rw [hpr, hi.table, hrel]
    constructor
    · rintro ⟨r', hr', h⟩
      exact ⟨r', getElem?_concat_left hr', h⟩
    · rintro ⟨r', hr', hid, hp⟩
      rcases getElem?_concat_some hr' with hr' | ⟨-, rfl⟩
      · exact ⟨r', hr', hid, hp⟩
      · rw [hpc] at hp; cases hp
  · rw [hhd, hsp, hcl]
    rw [hrel] at hr'
    rcases getElem?_concat_some hr' with hr' | ⟨rfl, rfl⟩
    · exact hi.relay j r' hr'
    · refine ⟨fun c hc => absurd hc (hnew c), fun c hc => ?_, fun _ c hc => absurd hc (hnew c), fun _ c hc => ?_⟩
      · rw [hch, hpc] at hc
        rcases hc with hc | hc <;> cases hc
      · exact absurd (hi.spliced _ _ hc) (hnew c)
  · obtain ⟨h, hh, hs⟩ := hi.handed c j (hhd ▸ hc)
    exact ⟨h, by rw [hhel]; exact hh, hseen _ _ hs⟩

/-- **One hello changes**, and hands nothing over. -/
theorem ProxyInv.modifyHello {s t : State} (hi : ProxyInv s) {c : Nat} {h : Hello} {pc : HelloPc}
    (hc : s.hellos[c]? = some h) (hpr : t.proxies = s.proxies) (hrel : t.relays = s.relays)
    (hhel : t.hellos = s.hellos.modify c (fun h => { h with pc := pc })) (hhd : t.handed = s.handed)
    (hsp : t.splices = s.splices) (hcl : t.closed = s.closed) (hsend : ∀ k, pc = .send k → Seen s k h.claimID)
    (hwait : ∀ k, pc = .waitDone k → (c, k) ∈ s.handed) (hkeep : pc.keeps = true → ∀ k, (c, k) ∉ s.handed) :
    ProxyInv t := by
  have hseen : ∀ j id, Seen t j id ↔ Seen s j id := fun j id => by unfold Seen; rw [hrel]
  have hcase : ∀ (d : Nat) h', t.hellos[d]? = some h' →
      (d = c ∧ h' = { h with pc := pc }) ∨ s.hellos[d]? = some h' := by
    intro d h' hd
    rw [hhel] at hd
    rcases getElem?_modify_some hd with ⟨rfl, b, hb, rfl⟩ | ⟨-, hd⟩
    · rw [hc] at hb
      cases hb
      exact Or.inl ⟨rfl, rfl⟩
    · exact Or.inr hd
  refine ⟨fun id j => by rw [hpr, hrel]; exact hi.table id j,
    fun j r hr => by rw [hhd, hsp, hcl]; exact hi.relay j r (hrel ▸ hr), fun d h' j hd hp => ?_, fun d h' j hd hp => ?_,
    fun d h' hd hp j => ?_, fun d j hd => ?_, hhd ▸ hi.handedOnce, fun j d hd => hhd ▸ hi.spliced j d (hsp ▸ hd),
    hsp ▸ hi.splicedOnce⟩
  · rw [hseen]
    rcases hcase d h' hd with ⟨rfl, rfl⟩ | hd
    · exact hsend j hp
    · exact hi.sending d h' j hd hp
  · rw [hhd]
    rcases hcase d h' hd with ⟨rfl, rfl⟩ | hd
    · exact hwait j hp
    · exact hi.waiting d h' j hd hp
  · rw [hhd]
    rcases hcase d h' hd with ⟨rfl, rfl⟩ | hd
    · exact hkeep hp j
    · exact hi.keeps d h' hd hp j
  · obtain ⟨h', hh', hs'⟩ := hi.handed d j (hhd ▸ hd)
    by_cases he : c = d
    · subst he
      rw [hc] at hh'
      cases hh'
      exact ⟨{ h with pc := pc }, by rw [hhel]; simp [hc], (hseen _ _).2 hs'⟩
    · exact ⟨h', by rw [hhel, List.getElem?_modify_ne _ _ he]; exact hh', (hseen _ _).2 hs'⟩

theorem ProxyInv.hello {s t : State} (hi : ProxyInv s) {h : Hello} (hpc : h.pc = .lookup) (hpr : t.proxies = s.proxies)
    (hrel : t.relays = s.relays) (hhel : t.hellos = s.hellos ++ [h]) (hhd : t.handed = s.handed)
    (hsp : t.splices = s.splices) (hcl : t.closed = s.closed) : ProxyInv t := by
  have hseen : ∀ j id, Seen t j id ↔ Seen s j id := fun j id => by unfold Seen; rw [hrel]
  refine ⟨fun id j => by rw [hpr, hrel]; exact hi.table id j,
    fun j r hr => by rw [hhd, hsp, hcl]; exact hi.relay j r (hrel ▸ hr), fun d h' j hd hp => ?_, fun d h' j hd hp => ?_,
    fun d h' hd hp j => ?_, fun d j hd => ?_, hhd ▸ hi.handedOnce, fun j d hd => hhd ▸ hi.spliced j d (hsp ▸ hd),
    hsp ▸ hi.splicedOnce⟩
  · rw [hseen]
    rw [hhel] at hd
    rcases getElem?_concat_some hd with hd | ⟨-, rfl⟩
    · exact hi.sending d h' j hd hp
    · rw [hpc] at hp; cases hp
  · rw [hhd]
    rw [hhel] at hd
    rcases getElem?_concat_some hd with hd | ⟨-, rfl⟩
    · exact hi.waiting d h' j hd hp
    · rw [hpc] at hp; cases hp
  · rw [hhd]
    rw [hhel] at hd
    rcases getElem?_concat_some hd with hd | ⟨rfl, -⟩
    · exact hi.keeps d h' hd hp j
    · intro hmem
      obtain ⟨h', hh', -⟩ := hi.handed _ _ hmem
      simp at hh'
  · obtain ⟨h', hh', hs'⟩ := hi.handed d j (hhd ▸ hd)
    exact ⟨h', by rw [hhel]; exact getElem?_concat_left hh', (hseen _ _).2 hs'⟩

/-- **The hand-off**: hello `c` fills the empty slot of session `k`. -/
theorem ProxyInv.hand {s t : State} (hi : ProxyInv s) {c : Nat} {h : Hello} {k : Nat} {r : Relay}
    (hc : s.hellos[c]? = some h) (hpc : h.pc = .send k) (hk : s.relays[k]? = some r) (hch : r.targetCh = none)
    (hpr : t.proxies = s.proxies) (hrel : t.relays = s.relays.modify k (fun r => { r with targetCh := some c }))
    (hhel : t.hellos = s.hellos.modify c (fun h => { h with pc := .waitDone k }))
    (hhd : t.handed = s.handed ++ [(c, k)]) (hsp : t.splices = s.splices) (hcl : t.closed = s.closed) : ProxyInv t := by
  have ok := hi.relay k r hk
  have hfresh : ∀ j, (c, j) ∉ s.handed := hi.keeps c h hc (by rw [hpc]; rfl)
  have hmem : ∀ d j, (d, j) ∈ t.handed ↔ (d, j) ∈ s.handed ∨ d = c ∧ j = k := by
    intro d j; rw [hhd]; simp
  have hseen : ∀ j id, Seen s j id → Seen t j id := by
    rintro j id ⟨r', hr', hid', hin'⟩
    by_cases he : k = j
    · subst he
      rw [hk] at hr'
      cases hr'
      exact ⟨{ r with targetCh := some c }, by rw [hrel]; simp [hk], hid', hin'⟩
    · exact ⟨r', by rw [hrel, List.getElem?_modify_ne _ _ he]; exact hr', hid', hin'⟩
  -- The slot was empty, so a session that has taken nothing has been handed nothing.
  have hfirst : r.pc.untaken = true ∨ r.done = false ∧ (r.pc = .exit ∨ r.pc = .returned) →
      ∀ d, (d, k) ∉ s.handed := by
    intro hu d hd
    have := ok.untaken hu d hd
    rw [hch] at this; cases this
  have hcase : ∀ (d : Nat) h', t.hellos[d]? = some h' →
      (d = c ∧ h' = { h with pc := .waitDone k }) ∨ (d ≠ c ∧ s.hellos[d]? = some h') := by
    intro d h' hd
    rw [hhel] at hd
    rcases getElem?_modify_some hd with ⟨rfl, b, hb, rfl⟩ | ⟨hne, hd⟩
    · rw [hc] at hb
      cases hb
      exact Or.inl ⟨rfl, rfl⟩
    · exact Or.inr ⟨Ne.symm hne, hd⟩
  refine ⟨table_of_modify hi hk hrel (fun _ => rfl) rfl hpr, fun j r' hr' => ?_, fun d h' j hd hp => ?_,
    fun d h' j hd hp => ?_, fun d h' hd hp j hdj => ?_, fun d j hd => ?_,
    hhd ▸ nodup_fst_concat hi.handedOnce hfresh, fun j d hd => (hmem d j).2 (Or.inl (hi.spliced j d (hsp ▸ hd))),
    hsp ▸ hi.splicedOnce⟩
  · rw [hsp, hcl]
    rw [hrel] at hr'
    rcases getElem?_modify_some hr' with ⟨rfl, b, hb, rfl⟩ | ⟨hne, hr'⟩
    · rw [hk] at hb
      cases hb
      refine ⟨fun d hd => ?_, fun d hd => ?_, fun hu d hd => ?_, ok.unspliced⟩
      · rcases (hmem d k).1 hd with hd | ⟨rfl, -⟩
        · rcases ok.place d hd with hp | hp
          · rw [hch] at hp; cases hp
          · exact Or.inr hp
        · exact Or.inl rfl
      · rcases hd with hd | hd
        · cases hd
          exact (hmem c k).2 (Or.inr ⟨rfl, rfl⟩)
        · exact (hmem d k).2 (Or.inl (ok.holds d (Or.inr hd)))
      · rcases (hmem d k).1 hd with hd | ⟨rfl, -⟩
        · exact absurd hd (hfirst hu d)
        · rfl
    · refine (hi.relay j r' hr').congr (fun d => ?_) (fun _ => Iff.rfl) (fun _ h => h)
      rw [hmem]
      constructor
      · rintro (hd | ⟨-, rfl⟩)
        · exact hd
        · exact absurd rfl hne
      · exact Or.inl
  · rcases hcase d h' hd with ⟨rfl, rfl⟩ | ⟨-, hd⟩
    · cases hp
    · exact hseen _ _ (hi.sending d h' j hd hp)
  · rcases hcase d h' hd with ⟨rfl, rfl⟩ | ⟨-, hd⟩
    · cases hp
      exact (hmem d k).2 (Or.inr ⟨rfl, rfl⟩)
    · exact (hmem d j).2 (Or.inl (hi.waiting d h' j hd hp))
  · rcases hcase d h' hd with ⟨rfl, rfl⟩ | ⟨hne, hd⟩
    · cases hp
    · rcases (hmem d j).1 hdj with hdj | ⟨he, -⟩
      · exact hi.keeps d h' hd hp j hdj
      · exact hne he
  · rcases (hmem d j).1 hd with hd | ⟨rfl, rfl⟩
    · obtain ⟨h', hh', hs'⟩ := hi.handed d j hd
      have hne : c ≠ d := fun he => hfresh j (he ▸ hd)
      exact ⟨h', by rw [hhel, List.getElem?_modify_ne _ _ hne]; exact hh', hseen _ _ hs'⟩
    · exact ⟨{ h with pc := .waitDone j }, by rw [hhel]; simp [hc], hseen _ _ (hi.sending d h j hc hpc)⟩

theorem ProxyInv.frame {s t : State} (hi : ProxyInv s) (hpr : t.proxies = s.proxies) (hrel : t.relays = s.relays)
    (hhel : t.hellos = s.hellos) (hhd : t.handed = s.handed) (hsp : t.splices = s.splices)
    (hcl : t.closed = s.closed) : ProxyInv t := by
  have hseen : ∀ j id, Seen t j id ↔ Seen s j id := fun j id => by unfold Seen; rw [hrel]
  refine ⟨?_, ?_, ?_, ?_, ?_, ?_, hhd ▸ hi.handedOnce, ?_, hsp ▸ hi.splicedOnce⟩
  · rw [hpr, hrel]; exact hi.table
  · rw [hrel, hhd, hsp, hcl]; exact hi.relay
  · simp only [hhel, hseen]; exact hi.sending
  · rw [hhel, hhd]; exact hi.waiting
  · rw [hhel, hhd]; exact hi.keeps
  · simp only [hhel, hhd, hseen]; exact hi.handed
  · rw [hhd, hsp]; exact hi.spliced

/-- **Every step keeps the invariant.** -/
theorem ProxyInv.step {x : Ext} {cfg : Config} {s t : State} {l : Label} (hi : ProxyInv s)
    (hs : step x cfg s l = some t) : ProxyInv t := by
  cases step_proxyEffect hs with
  | frame h1 h2 h3 h4 h5 h6 => exact hi.frame h1 h2 h3 h4 h5 h6
  | newRelay r hpc hch h1 h2 h3 h4 h5 h6 => exact hi.newRelay hpc hch h1 h2 h3 h4 h5 h6
  | start k r n hk hpc hf h1 h2 h3 h4 h5 h6 => exact hi.start hk hpc hf h1 h2 h3 h4 h5 h6
  | move k r pc hk hm h1 h2 h3 h4 h5 h6 => exact hi.move hk hm h1 h2 h3 h4 h5 h6
  | take k r c pc hk hpc hch hn h1 h2 h3 h4 h5 => exact hi.take hk hpc hch hn h1 h2 h3 h4 h5
  | splice k r c hk hpc h1 h2 h3 h4 h5 h6 => exact hi.splice hk hpc h1 h2 h3 h4 h5 h6
  | close k r c hk hpc h1 h2 h3 h4 h5 h6 => exact hi.close hk hpc h1 h2 h3 h4 h5 h6
  | finish k r hk hpc h1 h2 h3 h4 h5 h6 => exact hi.finish hk hpc h1 h2 h3 h4 h5 h6
  | delete k r _ hk hpc h1 h2 h3 h4 h5 h6 => exact hi.delete hk hpc h1 h2 h3 h4 h5 h6
  | hello h hpc h1 h2 h3 h4 h5 h6 => exact hi.hello hpc h1 h2 h3 h4 h5 h6
  | found c h k hc hpc hk h1 h2 h3 h4 h5 h6 =>
    obtain ⟨r, hr, hid, hp⟩ := (hi.table _ _).1 hk
    refine hi.modifyHello hc h1 h2 h3 h4 h5 h6 (fun j hj => ?_) (fun j hj => by cases hj)
      (fun _ => hi.keeps c h hc (by rw [hpc]; rfl))
    cases hj
    exact ⟨r, hr, hid, RelayPc.inserted_of_pending hp⟩
  | refuse c h hc hpc h1 h2 h3 h4 h5 h6 =>
    exact hi.modifyHello hc h1 h2 h3 h4 h5 h6 (fun j hj => by cases hj) (fun j hj => by cases hj)
      (fun _ => hi.keeps c h hc hpc)
  | hand c h k r hc hpc hk hch h1 h2 h3 h4 h5 h6 => exact hi.hand hc hpc hk hch h1 h2 h3 h4 h5 h6
  | leave c h k hc hpc h1 h2 h3 h4 h5 h6 =>
    exact hi.modifyHello hc h1 h2 h3 h4 h5 h6 (fun j hj => by cases hj) (fun j hj => by cases hj)
      (fun hk => by cases hk)

/-- **A session is spliced to a hello that presented its connect id.** -/
theorem ProxyInv.spliceOwn {s : State} (hi : ProxyInv s) {k c : Nat} (hkc : (k, c) ∈ s.splices) :
    (c, k) ∈ s.handed ∧ ∃ r h, s.relays[k]? = some r ∧ s.hellos[c]? = some h ∧ h.claimID = r.connectID := by
  have hmem := hi.spliced k c hkc
  obtain ⟨h, hh, r, hr, hid, -⟩ := hi.handed c k hmem
  exact ⟨hmem, r, h, hr, hh, hid.symm⟩

theorem ProxyInv.init : ProxyInv State.init := by
  refine ⟨fun id k => ?_, ?_, ?_, ?_, ?_, ?_, List.nodup_nil, ?_, List.nodup_nil⟩
  · simp [State.init]
  all_goals simp [State.init]

theorem proxyInv_of_run {x : Ext} {cfg : Config} {as : List Label} {s : State}
    (hr : run (Broker.step x cfg) State.init as = some s) : ProxyInv s :=
  Machine.inv_of_step (fun _ _ _ hi hs => hi.step hs) as State.init s ProxyInv.init hr

/-! ## Calls -/

/-- What a `proxyRelay` was called with. -/
def Relay.call (r : Relay) : Bool × Nat × String × String × RouteContext :=
  (r.clientFacing, r.target, r.connectID, r.name, r.rc)

/-- **A `proxyRelay` keeps what it was called with**, whoever moves. -/
theorem step_call {x : Ext} {cfg : Config} {s t : State} {l : Label} {k : Nat} {r : Relay}
    (hs : step x cfg s l = some t) (hk : s.relays[k]? = some r) : ∃ r', t.relays[k]? = some r' ∧ r'.call = r.call := by
  have hmod : ∀ {j : Nat} {f : Relay → Relay}, t.relays = s.relays.modify j f → (∀ r, (f r).call = r.call) →
      ∃ r', t.relays[k]? = some r' ∧ r'.call = r.call := by
    intro j f ht hf
    by_cases he : j = k
    · subst he
      exact ⟨f r, by rw [ht]; simp [hk], hf r⟩
    · exact ⟨r, by rw [ht, List.getElem?_modify_ne _ _ he]; exact hk, rfl⟩
  cases step_proxyEffect hs with
  | newRelay _ _ _ _ h => exact ⟨r, by rw [h]; exact getElem?_concat_left hk, rfl⟩
  | start _ _ _ _ _ _ _ h | take _ _ _ _ _ _ _ _ _ h | delete _ _ _ _ _ _ h => exact hmod h (fun _ => rfl)
  | move _ _ _ _ _ _ h | splice _ _ _ _ _ _ h | close _ _ _ _ _ _ h => exact hmod h (fun _ => rfl)
  | finish _ _ _ _ _ h => exact hmod h (fun _ => rfl)
  | hand _ _ _ _ _ _ _ _ _ h => exact hmod h (fun _ => rfl)
  | frame _ h | hello _ _ _ h => exact ⟨r, by rw [h]; exact hk, rfl⟩
  | found _ _ _ _ _ _ _ h | refuse _ _ _ _ _ h | leave _ _ _ _ _ _ h => exact ⟨r, by rw [h]; exact hk, rfl⟩

theorem run_call {x : Ext} {cfg : Config} {as : List Label} {s t : State} {k : Nat} {r : Relay}
    (hr : run (Broker.step x cfg) s as = some t) (hk : s.relays[k]? = some r) :
    ∃ r', t.relays[k]? = some r' ∧ r'.call = r.call := by
  refine Machine.inv_of_step (I := fun t => ∃ r', t.relays[k]? = some r' ∧ r'.call = r.call) ?_ as s t ⟨r, hk, rfl⟩ hr
  rintro u a v ⟨r', hr', hcall⟩ hs
  obtain ⟨r'', hr'', hcall'⟩ := step_call hs hr'
  exact ⟨r'', hr'', hcall'.trans hcall⟩

/-! ## Hellos -/

/-- The hello has yet to find its session, or to hand its connection over. -/
def HelloPc.undecided : HelloPc → Bool
  | .lookup | .send _ => true
  | .waitDone _ | .kept | .refused => false

/-- **A hello that is decided stays so**, and its connection is handed to nobody more. -/
theorem step_decided {x : Ext} {cfg : Config} {s t : State} {l : Label} {c : Nat} {h : Hello}
    (hs : step x cfg s l = some t) (hc : s.hellos[c]? = some h) (hd : h.pc.undecided = false) :
    (∃ h', t.hellos[c]? = some h' ∧ h'.pc.undecided = false) ∧ ∀ k, (c, k) ∈ t.handed → (c, k) ∈ s.handed := by
  have hsame : t.hellos = s.hellos → ∃ h', t.hellos[c]? = some h' ∧ h'.pc.undecided = false :=
    fun ht => ⟨h, by rw [ht]; exact hc, hd⟩
  -- Whatever a hello is moved to, `c` is decided after: it is another one, or the move decides.
  have hmove : ∀ {d : Nat} {g : Hello} {pc : HelloPc}, s.hellos[d]? = some g →
      (g.pc.undecided = false → pc.undecided = false) →
      t.hellos = s.hellos.modify d (fun h => { h with pc := pc }) → ∃ h', t.hellos[c]? = some h' ∧
        h'.pc.undecided = false := by
    intro d g pc hg hpc ht
    by_cases he : d = c
    · subst he
      rw [hc] at hg
      cases hg
      exact ⟨{ h with pc := pc }, by rw [ht]; simp [hc], hpc hd⟩
    · exact ⟨h, by rw [ht, List.getElem?_modify_ne _ _ he]; exact hc, hd⟩
  cases step_proxyEffect hs with
  | frame _ _ h3 h4 | newRelay _ _ _ _ _ h3 h4 | finish _ _ _ _ _ _ h3 h4 => exact ⟨hsame h3, fun k hk => h4 ▸ hk⟩
  | start _ _ _ _ _ _ _ _ h3 h4 | take _ _ _ _ _ _ _ _ _ _ h3 h4 => exact ⟨hsame h3, fun k hk => h4 ▸ hk⟩
  | move _ _ _ _ _ _ _ h3 h4 | splice _ _ _ _ _ _ _ h3 h4 => exact ⟨hsame h3, fun k hk => h4 ▸ hk⟩
  | close _ _ _ _ _ _ _ h3 h4 | delete _ _ _ _ _ _ _ h3 h4 => exact ⟨hsame h3, fun k hk => h4 ▸ hk⟩
  | hello _ _ _ _ h3 h4 => exact ⟨⟨h, by rw [h3]; exact getElem?_concat_left hc, hd⟩, fun k hk => h4 ▸ hk⟩
  | found _ g _ hg hpc _ _ _ h3 h4 =>
    exact ⟨hmove hg (fun hn => by rw [hpc] at hn; cases hn) h3, fun k hk => h4 ▸ hk⟩
  | refuse _ _ hg _ _ _ h3 h4 | leave _ _ _ hg _ _ _ h3 h4 => exact ⟨hmove hg (fun _ => rfl) h3, fun k hk => h4 ▸ hk⟩
  | hand d g k r hg hpc _ _ _ _ h3 h4 =>
    refine ⟨hmove hg (fun _ => rfl) h3, fun j hj => ?_⟩
    rw [h4] at hj
    rcases List.mem_append.1 hj with hj | hj
    · exact hj
    · -- what is handed over is the connection of a hello that was about to
      cases List.mem_singleton.1 hj
      rw [hc] at hg
      cases hg
      rw [hpc] at hd
      cases hd

theorem run_decided {x : Ext} {cfg : Config} {as : List Label} {s t : State} {c : Nat} {h : Hello}
    (hr : run (Broker.step x cfg) s as = some t) (hc : s.hellos[c]? = some h) (hd : h.pc.undecided = false) :
    ∀ k, (c, k) ∈ t.handed → (c, k) ∈ s.handed := by
  refine (Machine.inv_of_step (I := fun t => (∃ h', t.hellos[c]? = some h' ∧ h'.pc.undecided = false) ∧
    ∀ k, (c, k) ∈ t.handed → (c, k) ∈ s.handed) ?_ as s t ⟨⟨h, hc, hd⟩, fun _ hk => hk⟩ hr).2
  rintro u a v ⟨⟨h', hc', hd'⟩, hold⟩ hs
  obtain ⟨hdec, hnew⟩ := step_decided hs hc' hd'
  exact ⟨hdec, fun k hk => hold k (hnew k hk)⟩

end Broker
end Ccb
