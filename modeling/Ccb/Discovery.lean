import Ccb.ListenerEffect
/-!
# Discovery — what the Listener engages and what it deletes

Invariants of the Listener over every interleaving of its goroutines with any number of initiators.  `watchLoop` is the
only one that puts ids into `seen`, and an id leaves it only by the goroutine of its tunnel: so what `watchLoop` has
found not in `seen` stays out of it until `watchLoop` acts on that (`Held`), however much time passes between the check
and the act.
-/
namespace Ccb
namespace Listener

open Machine (run)

/-! ## One Conn per id -/

/-- Every tunnel that has not been forgotten has its id in `seen`, and no two have one id; and what `watchLoop` has
found out about the id in its hand is still so. -/
structure Held (s : State) : Prop where
  seen    : ∀ (n : Nat) (k : Tunnel), s.tunnels[n]? = some k → k.holds = true → s.seen k.id = true
  one     : ∀ (m n : Nat) (j k : Tunnel), s.tunnels[m]? = some j → s.tunnels[n]? = some k → j.holds = true →
    k.holds = true → j.id = k.id → m = n
  fresh   : ∀ id, s.watch.fresh = some id → s.seen id = false
  claimed : ∀ id, s.watch.claimed = some id →
    s.seen id = true ∧ ∀ (n : Nat) (k : Tunnel), s.tunnels[n]? = some k → k.holds = true → k.id ≠ id

theorem Held.start : Held .start :=
  ⟨fun _ _ h => (by cases h), fun _ _ _ _ h => (by cases h), fun _ h => (by cases h), fun _ h => (by cases h)⟩

theorem Held.watch {s t : State} (h : Held s) (he : WatchEffect s t) : Held t := by
  cases he with
  | pass hs _ ht hfresh _ hclaimed _ =>
    refine ⟨by rw [hs, ht]; exact h.seen, by rw [ht]; exact h.one, fun id hid => ?_, fun id hid => ?_⟩
    · rw [hs]
      exact (hfresh id hid).elim (h.fresh id) (fun h => h)
    · rw [hs, ht]
      exact h.claimed id (hclaimed id hid)
  | engage id _ hnew hs _ ht hfresh _ hclaimed _ =>
    have hout : s.seen id = false := hnew.elim (h.fresh id) (fun h => h)
    -- Whoever holds an id has it in `seen`, where this one is not.
    have hfree : ∀ (n : Nat) (k : Tunnel), s.tunnels[n]? = some k → k.holds = true → k.id ≠ id := by
      intro n k hk hh heq
      have := h.seen n k hk hh
      rw [heq, hout] at this
      cases this
    refine ⟨fun n k hk hh => ?_, by rw [ht]; exact h.one, fun _ hid => ?_, fun id' hid => ?_⟩
    · rw [ht] at hk
      rw [hs, Function.update_of_ne (hfree n k hk hh)]
      exact h.seen n k hk hh
    · rw [hfresh] at hid
      cases hid
    · rw [hclaimed] at hid
      cases hid
      rw [hs, ht]
      exact ⟨Function.update_self .., hfree⟩
  | accept id hid hs _ ht hfresh _ hclaimed _ =>
    obtain ⟨hin, hfree⟩ := h.claimed id hid
    refine ⟨fun n k hk hh => ?_, fun m n j k hj hk hhj hhk heq => ?_, fun _ h => ?_, fun _ h => ?_⟩
    · rw [hs]
      rw [ht] at hk
      rcases getElem?_concat_some hk with hk | ⟨-, rfl⟩
      · exact h.seen n k hk hh
      · exact hin
    · rw [ht] at hj hk
      rcases getElem?_concat_some hj with hj | ⟨rfl, rfl⟩
      · rcases getElem?_concat_some hk with hk | ⟨rfl, rfl⟩
        · exact h.one m n j k hj hk hhj hhk heq
        · exact absurd heq (hfree m j hj hhj)
      · rcases getElem?_concat_some hk with hk | ⟨rfl, -⟩
        · exact absurd heq.symm (hfree n k hk hhk)
        · rfl
    · rw [hfresh] at h
      cases h
    · rw [hclaimed] at h
      cases h

theorem Held.tunnel {s t : State} {n : Nat} {k k' : Tunnel} {seen' : String → Bool} {markers' : String → Option Int}
    {trees' : Path → Option Subtree} (h : Held s) (hk : s.tunnels[n]? = some k)
    (he : TunnelEffect s n k t k' seen' markers' trees') : Held t := by
  obtain ⟨rfl, hid, hholds, hseen, -, -⟩ := he
  -- A holder afterwards was one before, with the same id.
  have hback : ∀ (m : Nat) (j : Tunnel), (s.tunnels.set n k')[m]? = some j → j.holds = true →
      ∃ j₀ : Tunnel, s.tunnels[m]? = some j₀ ∧ j₀.holds = true ∧ j₀.id = j.id := by
    intro m j hj hh
    rcases getElem?_set_some hj with ⟨rfl, rfl⟩ | ⟨-, hj⟩
    · exact ⟨k, hk, hholds hh, hid.symm⟩
    · exact ⟨j, hj, hh, rfl⟩
  have hkeep : ∀ (m : Nat) (j : Tunnel), (s.tunnels.set n k')[m]? = some j → j.holds = true → seen' j.id = true := by
    intro m j hj hh
    obtain ⟨j₀, hj₀, hh₀, hid₀⟩ := hback m j hj hh
    have hin : s.seen j.id = true := hid₀ ▸ h.seen m j₀ hj₀ hh₀
    rcases hseen with rfl | ⟨rfl, hkh, hk'⟩
    · exact hin
    · -- The step forgets `k.id`; a holder of that id would be the tunnel itself, which holds no longer.
      rw [Function.update_of_ne]
      · exact hin
      · intro heq
        have hmn := h.one m n j₀ k hj₀ hk hh₀ hkh (by rw [hid₀, heq])
        rcases getElem?_set_some hj with ⟨-, rfl⟩ | ⟨hne, -⟩
        · rw [hk'] at hh
          cases hh
        · exact hne hmn.symm
  refine ⟨hkeep, fun m m' j j' hj hj' hh hh' heq => ?_, fun id hf => ?_, fun id hc => ?_⟩
  · obtain ⟨j₀, hj₀, hh₀, hid₀⟩ := hback m j hj hh
    obtain ⟨j₁, hj₁, hh₁, hid₁⟩ := hback m' j' hj' hh'
    exact h.one m m' j₀ j₁ hj₀ hj₁ hh₀ hh₁ (by rw [hid₀, hid₁, heq])
  · rcases hseen with rfl | ⟨rfl, -, -⟩
    · exact h.fresh id hf
    · by_cases heq : id = k.id
      · subst heq
        exact Function.update_self ..
      · exact (Function.update_of_ne heq _ _).trans (h.fresh id hf)
  · obtain ⟨hin, hfree⟩ := h.claimed id hc
    refine ⟨?_, fun m j hj hh => ?_⟩
    · rcases hseen with rfl | ⟨rfl, hkh, -⟩
      · exact hin
      · exact (Function.update_of_ne (hfree n k hk hkh).symm _ _).trans hin
    · obtain ⟨j₀, hj₀, hh₀, hid₀⟩ := hback m j hj hh
      rw [← hid₀]
      exact hfree m j₀ hj₀ hh₀

variable {threshold : Int}

theorem Held.of_step {s t : State} {l : Label} (h : Held s) (hs : step threshold s l = some t) : Held t := by
  cases step_effect hs with
  | watch he => exact h.watch he
  | tunnel hk he => exact h.tunnel hk he
  | dialer _ he =>
    rw [he.eq]
    exact ⟨h.seen, h.one, h.fresh, h.claimed⟩
  | dial | write | surface | fade | close => exact ⟨h.seen, h.one, h.fresh, h.claimed⟩

/-! ## What has been engaged -/

/-- The history of `seen`. -/
structure Known (s : State) : Prop where
  seen    : ∀ id, s.seen id = true → id ∈ s.engaged
  tunnels : ∀ (n : Nat) (k : Tunnel), s.tunnels[n]? = some k → k.id ∈ s.engaged
  claimed : ∀ id, s.watch.claimed = some id → id ∈ s.engaged
  stale   : ∀ id, s.watch.stale = some id → id ∈ s.engaged

theorem Known.start : Known .start :=
  ⟨fun _ h => (by cases h), fun _ _ h => (by cases h), fun _ h => (by cases h), fun _ h => (by cases h)⟩

theorem Known.watch {s t : State} (h : Known s) (he : WatchEffect s t) : Known t := by
  cases he with
  | pass hseen heng htun _ _ hclaimed hstale =>
    refine ⟨by rw [hseen, heng]; exact h.seen, by rw [htun, heng]; exact h.tunnels, fun id hid => ?_, fun id hid => ?_⟩
    · rw [heng]
      exact h.claimed id (hclaimed id hid)
    · rw [heng]
      exact h.seen id (hstale id hid)
  | engage id _ _ hseen heng htun _ _ hclaimed hstale =>
    refine ⟨fun id' hid => ?_, fun n k hk => ?_, fun id' hid => ?_, fun id' hid => ?_⟩
    · rw [heng]
      by_cases heq : id' = id
      · rw [heq]
        exact List.mem_cons_self
      · rw [hseen, Function.update_of_ne heq] at hid
        exact List.mem_cons_of_mem _ (h.seen id' hid)
    · rw [heng]
      rw [htun] at hk
      exact List.mem_cons_of_mem _ (h.tunnels n k hk)
    · rw [hclaimed] at hid
      cases hid
      rw [heng]
      exact List.mem_cons_self
    · rw [hstale] at hid
      cases hid
  | accept id hid hseen heng htun _ _ hclaimed hstale =>
    refine ⟨by rw [hseen, heng]; exact h.seen, fun n k hk => ?_, fun _ hc => ?_, fun _ hc => ?_⟩
    · rw [heng]
      rw [htun] at hk
      rcases getElem?_concat_some hk with hk | ⟨-, rfl⟩
      · exact h.tunnels n k hk
      · exact h.claimed id hid
    · rw [hclaimed] at hc
      cases hc
    · rw [hstale] at hc
      cases hc

/-- A tunnel takes no id into `seen`. -/
theorem TunnelEffect.seen_le {s t : State} {n : Nat} {k k' : Tunnel} {seen' : String → Bool}
    {markers' : String → Option Int}
    {trees' : Path → Option Subtree} (he : TunnelEffect s n k t k' seen' markers' trees') {id : String}
    (hin : seen' id = true) : s.seen id = true := by
  rcases he.seen with rfl | ⟨rfl, -, -⟩
  · exact hin
  · by_cases heq : id = k.id
    · subst heq
      simp at hin
    · rwa [Function.update_of_ne heq] at hin

theorem Known.of_step {s t : State} {l : Label} (h : Known s) (hs : step threshold s l = some t) : Known t := by
  cases step_effect hs with
  | watch he => exact h.watch he
  | @tunnel n _ k _ _ seen' _ _ hk he =>
    have hle : ∀ id, seen' id = true → s.seen id = true := fun _ => he.seen_le
    obtain ⟨rfl, hid, -, -, -, -⟩ := he
    refine ⟨fun id hin => h.seen id (hle id hin), fun m j hj => ?_, h.claimed, h.stale⟩
    rcases getElem?_set_some hj with ⟨-, rfl⟩ | ⟨-, hj⟩
    · rw [hid]
      exact h.tunnels n k hk
    · exact h.tunnels m j hj
  | dialer _ he =>
    rw [he.eq]
    exact ⟨h.seen, h.tunnels, h.claimed, h.stale⟩
  | dial | write | surface | fade | close => exact ⟨h.seen, h.tunnels, h.claimed, h.stale⟩

/-! ## Markers -/

/-- A `Dial` with this id has come past its marker. -/
def State.Dropped (s : State) (id : String) : Prop :=
  ∃ (i : Nat) (d : Dialer), s.dialers[i]? = some d ∧ d.id = id ∧ d.pc.unmarked = false

/-- Each conn-id has one initiator, which alone drops its marker, once; so a marker a sweep has found old stays old. -/
structure Marked (s : State) : Prop where
  unmarked : ∀ (i : Nat) (d : Dialer), s.dialers[i]? = some d → d.pc.unmarked = true → s.markers d.id = none
  dropped  : ∀ id m, s.markers id = some m → s.Dropped id
  one      : ∀ (i j : Nat) (d e : Dialer), s.dialers[i]? = some d → s.dialers[j]? = some e → d.id = e.id → i = j
  old      : ∀ cutoff id rest, s.watch = .sweepMarker cutoff id rest →
    (∀ m, s.markers id = some m → m < cutoff) ∧ s.Dropped id

theorem Marked.start : Marked .start :=
  ⟨fun _ _ h => (by cases h), fun _ _ h => (by cases h), fun _ _ _ _ h => (by cases h), fun _ _ _ h => (by cases h)⟩

theorem of_update_none {f : String → Option Int} {id id' : String} {m : Int}
    (h : Function.update f id none id' = some m) : f id' = some m := by
  rw [Function.update_apply] at h
  split at h
  · cases h
  · exact h

/-- **The acceptor only removes markers.** -/
theorem acceptor_markers {s t : State} {l : Label} (hl : l.acceptor = true) (hs : step threshold s l = some t)
    {id : String} {m : Int} (hm : t.markers id = some m) : s.markers id = some m := by
  cases step_effect hs with
  | watch _ hf =>
    rcases hf.markers with heq | ⟨id', heq, -⟩ <;> rw [heq] at hm
    · exact hm
    · exact of_update_none hm
  | tunnel _ he =>
    obtain ⟨rfl, -, -, -, rfl | rfl, -⟩ := he
    · exact hm
    · exact of_update_none hm
  | dial | dialer | write | surface | fade | close => cases hl

/-- Removing markers keeps it all. -/
theorem Marked.remove {s t : State} (h : Marked s) (hd : t.dialers = s.dialers) (hw : t.watch = s.watch)
    (hless : ∀ {id m}, t.markers id = some m → s.markers id = some m) : Marked t := by
  refine ⟨fun i d hi hu => ?_, fun id' m hm' => ?_, by rw [hd]; exact h.one, fun cutoff id' rest hw' => ?_⟩
  · rw [hd] at hi
    rw [Option.eq_none_iff_forall_ne_some]
    intro m hm'
    have := hless hm'
    rw [h.unmarked i d hi hu] at this
    cases this
  · unfold State.Dropped
    rw [hd]
    exact h.dropped id' m (hless hm')
  · unfold State.Dropped
    rw [hw] at hw'
    rw [hd]
    obtain ⟨h1, h2⟩ := h.old cutoff id' rest hw'
    exact ⟨fun m hm' => h1 m (hless hm'), h2⟩

theorem Marked.watch {s t : State} (h : Marked s) (hf : WatchFrame s t)
    (hless : ∀ {id m}, t.markers id = some m → s.markers id = some m) : Marked t := by
  have hsub : Marked { t with watch := s.watch } := h.remove hf.dialers rfl hless
  refine ⟨hsub.unmarked, hsub.dropped, hsub.one, fun cutoff id rest hw => ?_⟩
  obtain ⟨m, hm, hlt⟩ := hf.old cutoff id rest hw
  refine ⟨fun m' hm' => ?_, ?_⟩
  · -- The marker read a moment ago is the one that is there.
    cases hm.symm.trans (hless hm')
    exact hlt
  · unfold State.Dropped
    rw [hf.dialers]
    exact h.dropped id m hm

theorem Marked.dial {s t : State} {i : Nat} {d : Dialer} {pc : DialPc} {markers' : String → Option Int}
    {trees' : Path → Option Subtree} (h : Marked s) (hi : s.dialers[i]? = some d)
    (he : DialEffect s i d t pc markers' trees') : Marked t := by
  obtain ⟨rfl, hun, hm, -⟩ := he
  have hlt := (List.getElem?_eq_some_iff.1 hi).1
  have hdropped : ∀ id, s.Dropped id →
      State.Dropped
        { s with dialers := s.dialers.set i { d with pc := pc }, markers := markers', trees := trees' } id := by
    rintro id ⟨j, e, hj, rfl, hu⟩
    by_cases hij : i = j
    · subst hij
      rw [hi] at hj
      cases hj
      refine ⟨i, _, List.getElem?_set_self hlt, rfl, ?_⟩
      cases hp : pc.unmarked with
      | false => rfl
      | true =>
        rw [hun hp] at hu
        cases hu
    · exact ⟨j, e, by rw [← hj]; exact List.getElem?_set_ne hij, rfl, hu⟩
  have hone : ∀ (j k : Nat) (e f : Dialer), (s.dialers.set i { d with pc := pc })[j]? = some e →
      (s.dialers.set i { d with pc := pc })[k]? = some f → e.id = f.id → j = k := by
    have hback : ∀ (j : Nat) (e : Dialer), (s.dialers.set i { d with pc := pc })[j]? = some e →
        ∃ e₀ : Dialer, s.dialers[j]? = some e₀ ∧ e₀.id = e.id := by
      intro j e hj
      rcases getElem?_set_some hj with ⟨rfl, rfl⟩ | ⟨-, hj⟩
      · exact ⟨d, hi, rfl⟩
      · exact ⟨e, hj, rfl⟩
    intro j k e f hj hk heq
    obtain ⟨e₀, he₀, hid⟩ := hback j e hj
    obtain ⟨f₀, hf₀, hid'⟩ := hback k f hk
    exact h.one j k e₀ f₀ he₀ hf₀ (by rw [hid, hid', heq])
  rcases hm with rfl | ⟨hu, hu', now, rfl⟩ | ⟨hpc, rfl⟩
  · refine ⟨fun j e hj hue => ?_, fun id m hm => hdropped id (h.dropped id m hm), hone, fun cutoff id rest hw => ?_⟩
    · rcases getElem?_set_some hj with ⟨rfl, rfl⟩ | ⟨-, hj⟩
      · exact h.unmarked i d hi (hun hue)
      · exact h.unmarked j e hj hue
    · obtain ⟨h1, h2⟩ := h.old cutoff id rest hw
      exact ⟨h1, hdropped id h2⟩
  · -- The initiator drops its marker: no one else has its id.
    refine ⟨fun j e hj hue => ?_, fun id m hm => ?_, hone, fun cutoff id rest hw => ?_⟩
    · rcases getElem?_set_some hj with ⟨rfl, rfl⟩ | ⟨hne, hj⟩
      · rw [hu'] at hue
        cases hue
      · have hid : e.id ≠ d.id := fun heq => hne (h.one i j d e hi hj heq.symm)
        exact (Function.update_of_ne hid _ _).trans (h.unmarked j e hj hue)
    · by_cases hid : id = d.id
      · subst hid
        exact ⟨i, _, List.getElem?_set_self hlt, rfl, hu'⟩
      · have : s.markers id = some m := (Function.update_of_ne hid _ _).symm.trans hm
        exact hdropped id (h.dropped id m this)
    · obtain ⟨h1, j, e, hj, rfl, hue⟩ := h.old cutoff id rest hw
      have hid : e.id ≠ d.id := by
        intro heq
        cases h.one j i e d hj hi heq
        rw [hi] at hj
        cases hj
        rw [hu] at hue
        cases hue
      refine ⟨fun m hm => h1 m ((Function.update_of_ne hid _ _).symm.trans hm), hdropped _ ⟨j, e, hj, rfl, hue⟩⟩
  · refine ⟨fun j e hj hue => ?_, fun id m hm => hdropped id (h.dropped id m (of_update_none hm)), hone,
      fun cutoff id rest hw => ?_⟩
    · rw [Option.eq_none_iff_forall_ne_some]
      intro m hm
      have hm := of_update_none hm
      rcases getElem?_set_some hj with ⟨rfl, rfl⟩ | ⟨-, hj⟩
      · have := hun hue
        rw [hpc] at this
        cases this
      · rw [h.unmarked j e hj hue] at hm
        cases hm
    · obtain ⟨h1, h2⟩ := h.old cutoff id rest hw
      exact ⟨fun m hm => h1 m (of_update_none hm), hdropped id h2⟩

/-- A new `Dial` has an id of its own. -/
theorem Marked.newDialer {s : State} {id : String} (h : Marked s)
    (hnew : ∀ (i : Nat) (d : Dialer), s.dialers[i]? = some d → d.id ≠ id) :
    Marked { s with dialers := s.dialers ++ [⟨id, .mkdir⟩] } := by
  have hdropped : ∀ id', s.Dropped id' → State.Dropped { s with dialers := s.dialers ++ [⟨id, .mkdir⟩] } id' := by
    rintro id' ⟨i, d, hi, h1, h2⟩
    exact ⟨i, d, getElem?_concat_left hi, h1, h2⟩
  refine ⟨fun i d hi hu => ?_, fun id' m hm => hdropped id' (h.dropped id' m hm), fun i j d e hi hj heq => ?_,
    fun cutoff id' rest hw => ?_⟩
  · rcases getElem?_concat_some hi with hi | ⟨-, rfl⟩
    · exact h.unmarked i d hi hu
    · -- A marker of the new id would have an initiator already.
      rw [Option.eq_none_iff_forall_ne_some]
      intro m hm
      obtain ⟨j, e, hj, he, -⟩ := h.dropped _ m hm
      exact hnew j e hj he
  · rcases getElem?_concat_some hi with hi | ⟨rfl, rfl⟩
    · rcases getElem?_concat_some hj with hj | ⟨rfl, rfl⟩
      · exact h.one i j d e hi hj heq
      · exact absurd heq (hnew i d hi)
    · rcases getElem?_concat_some hj with hj | ⟨rfl, -⟩
      · exact absurd heq.symm (hnew j e hj)
      · rfl
  · obtain ⟨h1, h2⟩ := h.old cutoff id' rest hw
    exact ⟨h1, hdropped id' h2⟩

theorem Marked.of_step {s t : State} {l : Label} (h : Marked s) (hs : step threshold s l = some t) : Marked t := by
  cases step_effect hs with
  | watch _ hf => exact h.watch hf (acceptor_markers rfl hs)
  | dialer hi he => exact h.dial hi he
  | tunnel _ he => exact h.remove (by rw [he.eq]) (by rw [he.eq]) (acceptor_markers rfl hs)
  | dial _ hnew => exact h.newDialer hnew
  | write | surface | fade | close => exact ⟨h.unmarked, h.dropped, h.one, h.old⟩

/-! ## Subtrees -/

theorem connPath_eq_pair {id fo re : String} (h : connPath id = [fo, re]) : fo ++ re = id := by
  unfold connPath at h
  split at h
  · simp at h
  · simp only [List.cons.injEq, and_true] at h
    obtain ⟨rfl, rfl⟩ := h
    rw [← String.ofList_append, List.take_append_drop, String.ofList_toList]

theorem connPath_inj {id id' : String} (h2 : (connPath id).length = 2) (h : connPath id = connPath id') : id = id' := by
  match hp : connPath id, h2 with
  | [fo, re], _ => rw [← connPath_eq_pair hp, ← connPath_eq_pair (h.symm.trans hp)]

theorem length_connPath {id : String} (h : isConnID id = true) : (connPath id).length = 2 := by
  unfold isConnID at h
  simp only [Bool.and_eq_true, beq_iff_eq] at h
  unfold connPath
  rw [if_neg (by omega)]
  rfl

theorem cut_eq_some {p q : Path} {trees : Path → Option Subtree} {u : Subtree} (h : cut p trees q = some u) :
    trees q = some u := by
  unfold cut at h
  split at h
  · cases h
  · exact h

/-- A path that is a conn-id's. -/
def AtConnID (p : Path) : Prop := ∃ id, isConnID id = true ∧ p = connPath id

theorem AtConnID.length {p : Path} (h : AtConnID p) : p.length = 2 := by
  obtain ⟨id, hid, rfl⟩ := h
  exact length_connPath hid

theorem AtConnID.isConnID {id : String} (h : AtConnID (connPath id)) : isConnID id = true := by
  obtain ⟨id', hid, heq⟩ := h
  rw [← connPath_inj (length_connPath hid) heq.symm]
  exact hid

/-- Subtrees are at the paths of conn-ids, and only such are found and engaged. -/
structure Shaped (s : State) : Prop where
  dialers : ∀ (i : Nat) (d : Dialer), s.dialers[i]? = some d → isConnID d.id = true
  trees   : ∀ p, (s.trees p).isSome = true → AtConnID p
  visible : ∀ p, s.visible p = true → AtConnID p
  tunnels : ∀ (n : Nat) (k : Tunnel), s.tunnels[n]? = some k → isConnID k.id = true
  found   : ∀ id, s.watch.found = some id → isConnID id = true
  claimed : ∀ id, s.watch.claimed = some id → isConnID id = true

theorem Shaped.start : Shaped .start :=
  ⟨fun _ _ h => (by cases h), fun _ h => (by cases h), fun _ h => (by cases h), fun _ _ h => (by cases h),
    fun _ h => (by cases h), fun _ h => (by cases h)⟩

theorem TreeChange.shaped {may : Prop} {p : Path} {before trees' : Path → Option Subtree}
    (h : TreeChange may p before trees') (hp : AtConnID p) (hb : ∀ q, (before q).isSome = true → AtConnID q) :
    ∀ q, (trees' q).isSome = true → AtConnID q := by
  intro q hq
  cases h with
  | keep => exact hb q hq
  | write u =>
    by_cases heq : q = p
    · rw [heq]
      exact hp
    · rw [Function.update_of_ne heq] at hq
      exact hb q hq
  | remove =>
    obtain ⟨u, hu⟩ := Option.isSome_iff_exists.1 hq
    exact hb q (by rw [cut_eq_some hu]; rfl)

theorem Shaped.watch {s t : State} (h : Shaped s) (he : WatchEffect s t) (hf : WatchFrame s t) : Shaped t := by
  obtain ⟨hd, hv, -, htr, -, -⟩ := hf
  have htrees : ∀ p, (t.trees p).isSome = true → AtConnID p := by
    intro p hp
    rcases htr with htr | ⟨_, dir, _, -, htr⟩
    · rw [htr] at hp
      exact h.trees p hp
    · rw [htr] at hp
      obtain ⟨u, hu⟩ := Option.isSome_iff_exists.1 hp
      exact h.trees p (by rw [cut_eq_some hu]; rfl)
  cases he with
  | pass _ _ htun _ hfound hclaimed _ =>
    exact ⟨by rw [hd]; exact h.dialers, htrees, by rw [hv]; exact h.visible, by rw [htun]; exact h.tunnels,
      fun id hid => (h.visible _ (hfound id hid)).isConnID, fun id hid => h.claimed id (hclaimed id hid)⟩
  | engage id hid _ _ _ htun _ hfound hclaimed _ =>
    refine ⟨by rw [hd]; exact h.dialers, htrees, by rw [hv]; exact h.visible, by rw [htun]; exact h.tunnels,
      fun _ hf => ?_, fun id' hc => ?_⟩
    · rw [hfound] at hf
      cases hf
    · rw [hclaimed] at hc
      cases hc
      exact h.found id hid
  | accept id hid _ _ htun _ hfound hclaimed _ =>
    refine ⟨by rw [hd]; exact h.dialers, htrees, by rw [hv]; exact h.visible, fun n k hk => ?_, fun _ hf => ?_,
      fun _ hc => ?_⟩
    · rw [htun] at hk
      rcases getElem?_concat_some hk with hk | ⟨-, rfl⟩
      · exact h.tunnels n k hk
      · exact h.claimed id hid
    · rw [hfound] at hf
      cases hf
    · rw [hclaimed] at hc
      cases hc

theorem Shaped.of_step {s t : State} {l : Label} (h : Shaped s) (hs : step threshold s l = some t) : Shaped t := by
  cases step_effect hs with
  | watch he hf => exact h.watch he hf
  | dial hnew =>
    refine ⟨fun i d hi => ?_, h.trees, h.visible, h.tunnels, h.found, h.claimed⟩
    rcases getElem?_concat_some hi with hi | ⟨-, rfl⟩
    · exact h.dialers i d hi
    · exact hnew
  | @dialer i _ d _ _ _ _ hi he =>
    obtain ⟨rfl, -, -, htr⟩ := he
    refine ⟨fun j e hj => ?_, htr.shaped ⟨d.id, h.dialers i d hi, rfl⟩ h.trees, h.visible, h.tunnels, h.found,
      h.claimed⟩
    rcases getElem?_set_some hj with ⟨-, rfl⟩ | ⟨-, hj⟩
    · exact h.dialers i d hi
    · exact h.dialers j e hj
  | @tunnel n _ k _ _ _ _ _ hk he =>
    obtain ⟨rfl, hid, -, -, -, htr⟩ := he
    refine ⟨h.dialers, htr.shaped ⟨k.id, h.tunnels n k hk, rfl⟩ h.trees, h.visible, fun m j hj => ?_, h.found,
      h.claimed⟩
    rcases getElem?_set_some hj with ⟨-, rfl⟩ | ⟨-, hj⟩
    · rw [hid]
      exact h.tunnels n k hk
    · exact h.tunnels m j hj
  | @write p u hp =>
    have hc : TreeChange True p s.trees (Function.update s.trees p (some u)) := .write u
    exact ⟨h.dialers, hc.shaped (h.trees p hp) h.trees, h.visible, h.tunnels, h.found, h.claimed⟩
  | @surface p hp =>
    refine ⟨h.dialers, h.trees, fun q hq => ?_, h.tunnels, h.found, h.claimed⟩
    by_cases heq : q = p
    · rw [heq]
      exact h.trees p hp
    · exact h.visible q ((Function.update_of_ne heq _ _).symm.trans hq)
  | @fade p =>
    refine ⟨h.dialers, h.trees, fun q hq => ?_, h.tunnels, h.found, h.claimed⟩
    by_cases heq : q = p
    · subst heq
      simp at hq
    · exact h.visible q ((Function.update_of_ne heq _ _).symm.trans hq)
  | close => exact ⟨h.dialers, h.trees, h.visible, h.tunnels, h.found, h.claimed⟩

/-! ## The cutoff -/

/-- Everything above, of a reachable state. -/
structure Inv (s : State) : Prop where
  held   : Held s
  known  : Known s
  marked : Marked s
  shaped : Shaped s

theorem Inv.of_run {ls : List Label} {s : State} (hr : run (step threshold) .start ls = some s) : Inv s :=
  Machine.inv_of_step
    (fun _ _ _ h hs => ⟨h.held.of_step hs, h.known.of_step hs, h.marked.of_step hs, h.shaped.of_step hs⟩)
    ls _ s ⟨.start, .start, .start, .start⟩ hr

/-- The tunnel has a Conn, or is about to. -/
def Tunnel.running (k : Tunnel) : Bool :=
  match k.pc with
  | .opening | .waiting | .live _ => true
  | .failed | .forgotten | .done _ => false

/-- An initiator whose marker a scan finds before its segment is visible, and a later scan engages. -/
def arrival : List Label :=
  [.watch (.readWork none), .watch .go, .dial "0123456789abcdef0123456789abcdef", .dialer 0 (.mkdir 1),
    .dialer 0 (.openSeg 2), .dialer 0 (.syn 3), .dialer 0 (.mark 4 true), .dialer 0 .ring,
    .watch (.fast true (some [⟨"0123456789abcdef0123456789abcdef", false⟩])), .watch .go, .watch .go, .watch .go,
    .surface (connPath "0123456789abcdef0123456789abcdef"),
    .watch (.slow (some [⟨"0123456789abcdef0123456789abcdef", false⟩])), .watch .go, .watch .go, .watch .go, .watch .go,
    .watch .go, .watch .go, .tunnel 0 (.opened 5), .dialer 0 .established, .tunnel 0 .established]

end Listener
end Ccb
