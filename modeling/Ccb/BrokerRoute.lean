import Ccb.Machine
import Ccb.BrokerEffect
/-!
# BrokerRoute — which registration a CCBID reaches

The registration a CCBID should reach is the last one inserted under it, as long as its own handler has not started
its removal (`Holds`).  `removeTarget` deletes by number, so the end of an older connection also takes a newer
registration out of the table: `superseded_unroutes` is such a run.  A run keeps every registration routed exactly if
no handler removes its CCBID while a newer registration holds it (`routed_iff_removesOwn`).
-/
namespace Ccb
namespace Broker

open Machine (run Along Meets)

/-- Handler `h` holds the last registration inserted under its CCBID and has not started its own removal. -/
def Holds (s : State) (h : Nat) (k : Handler) : Prop :=
  s.handlers[h]? = some k ∧ k.pc.live = true ∧
    ∀ h' k', h < h' → s.handlers[h']? = some k' → k'.target.id ≠ k.target.id

/-- **Every such registration is the one `targets` holds**, its record is there, and no sweep would take it. -/
def Routed (cfg : Config) (s : State) : Prop :=
  ∀ h k, Holds s h k → s.targets.lookup k.target.id = some h ∧ (s.reconnects.lookup k.target.id).isSome = true ∧
    ∀ now, k.target.id ∉ stale cfg s now

/-- A newer registration holds the CCBID of handler `h`. -/
def Superseded (s : State) (h : Nat) : Prop :=
  ∃ k h' k', s.handlers[h]? = some k ∧ h < h' ∧ Holds s h' k' ∧ k'.target.id = k.target.id

/-- A step that is a removal is not one by a superseded handler. -/
def RemovesOwn (s : State) (l : Label) : Prop :=
  ∀ h, l.removal = some h → ¬ Superseded s h

theorem not_mem_stale_of_live {cfg : Config} {s : State} {id : UInt64} {h : Nat} (hl : s.targets.lookup id = some h)
    (now : Int) : id ∉ stale cfg s now := by
  intro hm
  obtain ⟨e, he, rfl⟩ := List.mem_map.1 hm
  have := (List.mem_filter.1 he).2
  simp [hl] at this

/-- A CCBID that `targets` sends to its holder, with its record there, is routed. -/
theorem routed_of_lookup {cfg : Config} {s : State}
    (h : ∀ h k, Holds s h k → s.targets.lookup k.target.id = some h ∧ (s.reconnects.lookup k.target.id).isSome = true) :
    Routed cfg s :=
  fun n k hk => ⟨(h n k hk).1, (h n k hk).2, not_mem_stale_of_live (h n k hk).1⟩

theorem lookup_foldl_erase (i : UInt64) : ∀ (ids : List UInt64) (m : GoMap UInt64 ReconnectRecord),
    (ids.foldl (fun m id => m.erase id) m).lookup i = if i ∈ ids then none else m.lookup i
  | [], m => by simp
  | a :: ids, m => by
    rw [List.foldl_cons, lookup_foldl_erase i ids]
    by_cases ha : i = a
    · subst ha; simp
    · simp [AList.lookup_erase_ne ha, ha]

theorem isSome_lookup_stampRecord (m : GoMap UInt64 ReconnectRecord) (i id : UInt64) (now : Int) :
    ((stampRecord m id now).lookup i).isSome = (m.lookup i).isSome := by
  unfold stampRecord
  split
  · rfl
  · rename_i r hr
    by_cases hi : i = id
    · subst hi; simp [hr]
    · rw [AList.lookup_insert_ne hi]

/-- A moved program counter makes no new holder: the handler held its CCBID before, with the same target. -/
theorem holds_of_modify {s t : State} {h : Nat} {pc : RegPc}
    (hh : t.handlers = s.handlers.modify h (fun k => { k with pc := pc }))
    (hl : ∀ k, s.handlers[h]? = some k → pc.live = true → k.pc.live = true) {n : Nat} {k : Handler}
    (hk : Holds t n k) : ∃ k₀, Holds s n k₀ ∧ k₀.target = k.target ∧ (n = h → pc.live = true) := by
  obtain ⟨hget, hlive, hlast⟩ := hk
  have hlast' : ∀ n' k', n < n' → s.handlers[n']? = some k' → k'.target.id ≠ k.target.id := by
    intro n' k' hn' hk'
    by_cases he : h = n'
    · subst he
      exact hlast h { k' with pc := pc } hn' (by rw [hh]; simp [hk'])
    · exact hlast n' k' hn' (by rw [hh]; simp [he, hk'])
  rw [hh] at hget
  rcases getElem?_modify_some hget with ⟨rfl, k₀, hk₀, rfl⟩ | ⟨he, hget⟩
  · exact ⟨k₀, ⟨hk₀, hl k₀ hk₀ hlive, hlast'⟩, rfl, fun _ => hlive⟩
  · exact ⟨k, ⟨hget, hlive, hlast'⟩, rfl, fun hn => absurd hn.symm he⟩

theorem holds_congr {s t : State} (hh : t.handlers = s.handlers) (n : Nat) (k : Handler) :
    Holds t n k ↔ Holds s n k := by
  simp only [Holds, hh]

/-- After an insertion, a holder is the new registration or an old holder of another CCBID. -/
theorem holds_of_insert {s t : State} {new : Handler} (hh : t.handlers = s.handlers ++ [new]) {n : Nat} {k : Handler}
    (hk : Holds t n k) : (n = s.handlers.length ∧ k = new) ∨ (Holds s n k ∧ new.target.id ≠ k.target.id) := by
  obtain ⟨hget, hlive, hlast⟩ := hk
  rw [hh] at hget
  rcases Nat.lt_trichotomy n s.handlers.length with hn | hn | hn
  · right
    rw [List.getElem?_append_left hn] at hget
    refine ⟨⟨hget, hlive, fun n' k' hn' hk' => hlast n' k' hn' ?_⟩, hlast s.handlers.length new hn (by simp [hh])⟩
    have := (List.getElem?_eq_some_iff.1 hk').1
    rw [hh, List.getElem?_append_left this]; exact hk'
  · left
    subst hn
    simp only [List.getElem?_concat_length, Option.some.injEq] at hget
    exact ⟨rfl, hget.symm⟩
  · rw [List.getElem?_eq_none (by simp; omega)] at hget
    cases hget

/-- **A step keeps every registration routed exactly if it is not a removal by a superseded handler.** -/
theorem routed_step {x : Ext} {cfg : Config} {s t : State} {l : Label} (hr : Routed cfg s)
    (hs : step x cfg s l = some t) : Routed cfg t ↔ RemovesOwn s l := by
  have hown : l.removal = none → RemovesOwn s l := fun hl h hh => by rw [hl] at hh; cases hh
  cases step_effect hs with
  | frame hl _ ht hrc hh =>
    refine ⟨fun _ => hown hl, fun _ => routed_of_lookup fun n k hk => ?_⟩
    have := hr n k ((holds_congr hh n k).1 hk)
    exact ⟨by rw [ht]; exact this.1, by rw [hrc]; exact this.2.1⟩
  | move h pc hl _ ht hrc hh hlive =>
    refine ⟨fun _ => hown hl, fun _ => routed_of_lookup fun n k hk => ?_⟩
    obtain ⟨k₀, hk₀, htg, -⟩ := holds_of_modify hh hlive hk
    have := hr n k₀ hk₀
    rw [htg] at this
    exact ⟨by rw [ht]; exact this.1, by rw [hrc]; exact this.2.1⟩
  | insert tgt reused rec hl _ ht hrc hh hid _ =>
    refine ⟨fun _ => hown hl, fun _ => routed_of_lookup fun n k hk => ?_⟩
    rw [ht, hrc]
    rcases holds_of_insert hh hk with ⟨rfl, rfl⟩ | ⟨hk, hne⟩
    · simp
    · rw [AList.lookup_insert_ne (Ne.symm hne), AList.lookup_insert_ne (Ne.symm hne)]
      exact ⟨(hr n k hk).1, (hr n k hk).2.1⟩
  | sweep now hl _ ht hrc hh =>
    refine ⟨fun _ => hown (by rw [hl]; rfl), fun _ => routed_of_lookup fun n k hk => ?_⟩
    have := hr n k ((holds_congr hh n k).1 hk)
    rw [ht, hrc, lookup_foldl_erase, if_neg (this.2.2 now)]
    exact ⟨this.1, this.2.1⟩
  | remove h k pc now hl hk hpc hdead _ ht hrc hh =>
    -- the one step that can unroute: the entry of the CCBID goes, whoever holds it
    have hlive : ∀ k', s.handlers[h]? = some k' → pc.live = true → k'.pc.live = true := by
      intro _ _ hp; rw [hdead] at hp; cases hp
    constructor
    · intro hrt h' hh' hsup
      rw [hl] at hh'
      cases hh'
      obtain ⟨k₁, n, k', hk₁, hn, ⟨hget, hk'live, hlast⟩, hid⟩ := hsup
      rw [hk] at hk₁
      cases hk₁
      have hne : h ≠ n := by omega
      have hold : Holds t n k' := by
        refine ⟨by rw [hh, List.getElem?_modify_ne _ _ hne]; exact hget, hk'live, fun n' k'' hn' hg => ?_⟩
        rw [hh, List.getElem?_modify_ne _ _ (by omega)] at hg
        exact hlast n' k'' hn' hg
      have := (hrt n k' hold).1
      rw [ht, hid, AList.lookup_erase] at this
      cases this
    · intro hg
      refine routed_of_lookup fun n k' hk' => ?_
      obtain ⟨k₀, hk₀, htg, hnh⟩ := holds_of_modify hh hlive hk'
      have hne : n ≠ h := fun he => by have := hnh he; rw [hdead] at this; cases this
      have hid : k'.target.id ≠ k.target.id := by
        intro he
        rcases Nat.lt_or_ge h n with hlt | hge
        · exact hg h hl ⟨k, n, k₀, hk, hlt, hk₀, by rw [htg]; exact he⟩
        · -- an older handler of the same CCBID is not its last one
          exact hk₀.2.2 h k (by omega) hk (by rw [htg]; exact he.symm)
      have := hr n k₀ hk₀
      rw [htg] at this
      rw [ht, hrc, AList.lookup_erase_ne hid, isSome_lookup_stampRecord]
      exact ⟨this.1, this.2.1⟩

theorem routed_init (cfg : Config) : Routed cfg State.init := by
  intro h k hk
  simp [Holds, State.init] at hk

/-- **A run routes every registration at every state it passes exactly if no step of it is a removal by a handler that
a newer registration has superseded.** -/
theorem routed_iff_removesOwn (x : Ext) (cfg : Config) (ls : List Label) :
    Along (step x cfg) (Routed cfg) State.init ls ↔ Meets (step x cfg) RemovesOwn State.init ls :=
  Machine.along_iff_meets (J := fun _ => True) (fun _ _ _ _ _ => trivial)
    (fun _ _ _ _ hr hs => routed_step hr hs) ls State.init trivial (routed_init cfg)

/-! ## A reconnect overtaken by its old connection's end -/

/-- `SplitCCBContact` on a contact `addr#id`, at its last `#`, and the host of a `host:port`. -/
def splitExt : Ext where
  splitCCBContact c :=
    match c.toList.reverse.span (fun ch => ch != '#') with
    | (_, [])          => none
    | (id, _ :: addr) => some (String.ofList addr.reverse, String.ofList id.reverse)
  peerIPString a := String.ofList (a.toList.takeWhile (fun ch => ch != ':'))
  sinfulIsCCB _ := false
  quote := String.quote

def plainConfig : Config := ⟨"broker:9618", none, true, false, 86400000000000⟩

/-- A target registers and gets CCBID 1; its connection dies unnoticed; it reconnects with its cookie from the same
host; then the first connection's end is noticed and its handler removes CCBID 1. -/
def overtakenRun : List Label :=
  [.reg (.register ⟨"10.0.0.7:4000", "condor@pool", some ⟨"startd", "", ""⟩, some "c0ffee", 10⟩),
   .reg (.put 0), .reg (.replied 0 true),
   .reg (.register ⟨"10.0.0.7:4001", "condor@pool", some ⟨"startd", "broker:9618#1", "c0ffee"⟩, some "unused", 20⟩),
   .reg (.put 1), .reg (.replied 1 true),
   .reg (.read 0 none), .reg (.removeTarget 0 30)]

/-- **The end of the older connection unroutes the newer registration**, and leaves its record to the sweep. -/
theorem superseded_unroutes :
    ∃ s, run (step splitExt plainConfig) State.init overtakenRun = some s ∧
      Holds s 1 ⟨⟨1, "startd", "c0ffee"⟩, true, .serve⟩ ∧ s.targets.lookup 1 = none ∧
      1 ∈ stale plainConfig s 90000000000000 ∧ ¬ Routed plainConfig s := by
  obtain ⟨s, hs⟩ : ∃ s, run (step splitExt plainConfig) State.init overtakenRun = some s := ⟨_, rfl⟩
  have hlen : (run (step splitExt plainConfig) State.init overtakenRun).map (·.handlers.length) = some 2 := by decide
  have hget : (run (step splitExt plainConfig) State.init overtakenRun).bind (·.handlers[1]?) =
      some ⟨⟨1, "startd", "c0ffee"⟩, true, .serve⟩ := by decide
  have hnone : (run (step splitExt plainConfig) State.init overtakenRun).map (·.targets.lookup 1) = some none := by
    decide
  have hstale : (run (step splitExt plainConfig) State.init overtakenRun).map
      (fun s => decide (1 ∈ stale plainConfig s 90000000000000)) = some true := by decide
  simp only [hs, Option.map_some, Option.bind_some, Option.some.injEq, decide_eq_true_eq] at hlen hget hnone hstale
  have hold : Holds s 1 ⟨⟨1, "startd", "c0ffee"⟩, true, .serve⟩ := by
    refine ⟨hget, rfl, fun h' k' hlt hk' => ?_⟩
    have := (List.getElem?_eq_some_iff.1 hk').1
    omega
  exact ⟨s, hs, hold, hnone, hstale, fun hr => by have := (hr 1 _ hold).1; rw [hnone] at this; cases this⟩

end Broker
end Ccb
