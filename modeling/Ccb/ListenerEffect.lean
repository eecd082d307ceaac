import Ccb.Listener
/-!
# ListenerEffect — what one step of the Listener does

For each goroutine, what its steps can do to `seen`, the tunnels, the markers and the subtrees, guards included.  The
invariants of the Listener are case analyses on these.
-/
namespace Ccb
namespace Listener

/-! ## What a step of `watchLoop` does -/

/-- The id `watchLoop` has found not in `seen` and is about to act on. -/
def WatchPc.fresh : WatchPc → Option String
  | .scanStat id _ | .scanEngage id _ | .sweepInfo _ id _ | .sweepMarker _ id _ => some id
  | .sweepStat _ dir _ | .sweepTree _ dir _ => some (dir.1 ++ dir.2)
  | _ => none

/-- The id whose first segment it has found. -/
def WatchPc.found : WatchPc → Option String
  | .startupEngage id _ | .scanEngage id _ => some id
  | _ => none

/-- The id it has put into `seen` and not yet started `accept` for. -/
def WatchPc.claimed : WatchPc → Option String
  | .startupAccept id _ | .scanRemove id _ | .scanAccept id _ => some id
  | _ => none

/-- The id it has found in `seen` and whose marker it is about to remove. -/
def WatchPc.stale : WatchPc → Option String
  | .scanStale id _ => some id
  | _ => none

/-- What a step of `watchLoop` does to `seen` and the tunnels. -/
inductive WatchEffect (s t : State) : Prop
  | pass : t.seen = s.seen → t.engaged = s.engaged → t.tunnels = s.tunnels →
      (∀ id, t.watch.fresh = some id → s.watch.fresh = some id ∨ s.seen id = false) →
      (∀ id, t.watch.found = some id → s.visible (connPath id) = true) →
      (∀ id, t.watch.claimed = some id → s.watch.claimed = some id) →
      (∀ id, t.watch.stale = some id → s.seen id = true) → WatchEffect s t
  | engage (id : String) : s.watch.found = some id → (s.watch.fresh = some id ∨ s.seen id = false) →
      t.seen = Function.update s.seen id true → t.engaged = id :: s.engaged → t.tunnels = s.tunnels →
      t.watch.fresh = none → t.watch.found = none → t.watch.claimed = some id → t.watch.stale = none → WatchEffect s t
  | accept (id : String) : s.watch.claimed = some id → t.seen = s.seen → t.engaged = s.engaged →
      t.tunnels = s.tunnels ++ [⟨id, .opening, false⟩] → t.watch.fresh = none → t.watch.found = none →
      t.watch.claimed = none → t.watch.stale = none → WatchEffect s t

theorem goStep_effect {s t : State} (h : goStep s = some t) : WatchEffect s t := by
  unfold goStep at h
  split at h <;> rename_i hw <;> try split at h
  all_goals cases h
  all_goals
    first
      | exact .pass rfl rfl rfl (by simp_all [WatchPc.fresh]) (by simp_all [WatchPc.found])
          (by simp_all [WatchPc.claimed]) (by simp_all [WatchPc.stale])
      | exact .engage _ (by rw [hw]; rfl) (by simp_all [WatchPc.fresh]) rfl rfl rfl rfl rfl rfl rfl
      | exact .accept _ (by rw [hw]; rfl) rfl rfl rfl rfl rfl rfl rfl

/-- `watchLoop` has no entry in hand. -/
def WatchPc.between : WatchPc → Bool
  | .startup _ | .idle | .scan _ | .sweepInbox _ _ | .sweepWork _ _ | .returned => true
  | _ => false

theorem WatchPc.between_free {pc : WatchPc} (h : pc.between = true) :
    pc.fresh = none ∧ pc.found = none ∧ pc.claimed = none ∧ pc.stale = none := by
  cases pc <;> first | exact ⟨rfl, rfl, rfl, rfl⟩ | cases h

/-- Apart from the steps inside a scan, `watchLoop` only begins or ends one. -/
theorem watchStep_cases {threshold : Int} {s t : State} {l : WatchLabel} (h : watchStep threshold s l = some t) :
    goStep s = some t ∨ ∃ pc r, t = { s with watch := pc, rescans := r } ∧ pc.between = true := by
  cases l with
  | go => exact Or.inl h
  | readWork fanouts =>
    simp only [watchStep] at h
    split at h <;> cases h
    · exact Or.inr ⟨_, _, rfl, rfl⟩
    · exact Or.inr ⟨_, _, rfl, rfl⟩
  | slow inbox =>
    simp only [watchStep] at h
    split at h <;> cases h
    rename_i hw
    cases inbox with
    | none => exact Or.inr ⟨s.watch, s.rescans, rfl, by rw [hw]; rfl⟩
    | some entries => exact Or.inr ⟨_, _, rfl, rfl⟩
  | fast changed inbox =>
    simp only [watchStep] at h
    split at h <;> cases h
    rename_i hw
    by_cases hr : (if changed then doorbellRescans else s.rescans) > 0
    · simp only [State.fastTick, if_pos hr]
      cases inbox with
      | none => exact Or.inr ⟨s.watch, _, rfl, by rw [hw]; rfl⟩
      | some entries => exact Or.inr ⟨_, _, rfl, rfl⟩
    · simp only [State.fastTick, if_neg hr]
      exact Or.inr ⟨s.watch, _, rfl, by rw [hw]; rfl⟩
  | age now inbox =>
    simp only [watchStep] at h
    split at h <;> cases h
    exact Or.inr ⟨_, _, rfl, rfl⟩
  | stop =>
    simp only [watchStep] at h
    split at h <;> cases h
    exact Or.inr ⟨_, _, rfl, rfl⟩

theorem watchStep_effect {threshold : Int} {s t : State} {l : WatchLabel} (h : watchStep threshold s l = some t) :
    WatchEffect s t := by
  rcases watchStep_cases h with h | ⟨pc, r, rfl, hpc⟩
  · exact goStep_effect h
  · obtain ⟨h1, h2, h3, h4⟩ := pc.between_free hpc
    exact .pass rfl rfl rfl (by simp [h1]) (by simp [h2]) (by simp [h3]) (by simp [h4])

/-- What a step of `watchLoop` leaves alone, and how it removes markers and subtrees. -/
structure WatchFrame (s t : State) : Prop where
  dialers : t.dialers = s.dialers
  visible : t.visible = s.visible
  markers : t.markers = s.markers ∨ ∃ id, t.markers = Function.update s.markers id none ∧
    (s.watch.stale = some id ∨ s.watch.claimed = some id ∨ ∃ cutoff rest, s.watch = .sweepMarker cutoff id rest)
  trees   : t.trees = s.trees ∨ ∃ cutoff dir rest, s.watch = .sweepTree cutoff dir rest ∧
    t.trees = cut [dir.1, dir.2] s.trees
  /-- A sweep is about to remove a marker only when it has found it old. -/
  old     : ∀ cutoff id rest, t.watch = .sweepMarker cutoff id rest → ∃ m, s.markers id = some m ∧ m < cutoff
  /-- A sweep is about to remove a subtree only when it has found it quiet. -/
  quiet   : ∀ cutoff dir rest, t.watch = .sweepTree cutoff dir rest → s.watch = .sweepStat cutoff dir rest ∧
    after (subtreeLastActivity (s.trees [dir.1, dir.2])) cutoff = false

theorem watchStep_frame {threshold : Int} {s t : State} {l : WatchLabel} (h : watchStep threshold s l = some t) :
    WatchFrame s t := by
  rcases watchStep_cases h with h | ⟨pc, r, rfl, hpc⟩
  · unfold goStep at h
    split at h <;> rename_i hw <;> try split at h
    all_goals cases h
    all_goals
      refine ⟨rfl, rfl, ?_, ?_, by simp_all [Option.any_eq_true], by simp_all⟩
      · first
          | exact Or.inl rfl
          | exact Or.inr ⟨_, rfl, by simp_all [WatchPc.stale, WatchPc.claimed]⟩
      · first
          | exact Or.inl rfl
          | exact Or.inr ⟨_, _, _, hw, rfl⟩
  · refine ⟨rfl, rfl, Or.inl rfl, Or.inl rfl, fun _ _ _ he => ?_, fun _ _ _ he => ?_⟩ <;>
    · simp only at he
      rw [he] at hpc
      cases hpc

/-! ## What the other goroutines do -/

/-- The subtrees after a step that wrote to the one at `p` or, where it `may`, removed it. -/
inductive TreeChange (may : Prop) (p : Path) (before : Path → Option Subtree) : (Path → Option Subtree) → Prop
  | keep : TreeChange may p before before
  | write (u : Subtree) : TreeChange may p before (Function.update before p (some u))
  | remove : may → TreeChange may p before (cut p before)

/-- The tunnel's id is still in `seen` on its account. -/
def Tunnel.holds (k : Tunnel) : Bool :=
  match k.pc with
  | .forgotten | .done .returned => false
  | _ => true

theorem Tunnel.holds_of (k : Tunnel) {pc : TunnelPc} (h : k.pc = pc)
    (hpc : (⟨k.id, pc, k.handed⟩ : Tunnel).holds = true) :
    k.holds = true := by
  subst h
  exact hpc

/-- What a step of a tunnel's goroutines does. -/
structure TunnelEffect (s : State) (n : Nat) (k : Tunnel) (t : State) (k' : Tunnel) (seen' : String → Bool)
    (markers' : String → Option Int) (trees' : Path → Option Subtree) : Prop where
  eq      : t = { s with tunnels := s.tunnels.set n k', seen := seen', markers := markers', trees := trees' }
  id      : k'.id = k.id
  holds   : k'.holds = true → k.holds = true
  seen    : seen' = s.seen ∨ seen' = Function.update s.seen k.id false ∧ k.holds = true ∧ k'.holds = false
  markers : markers' = s.markers ∨ markers' = Function.update s.markers k.id none
  trees   : TreeChange (k.pc = .done .removeTree) (connPath k.id) s.trees trees'

theorem TunnelEffect.move {s : State} {n : Nat} {k k' : Tunnel} (hid : k'.id = k.id)
    (hh : k'.holds = true → k.holds = true) : TunnelEffect s n k (s.setTunnel n k') k' s.seen s.markers s.trees :=
  ⟨rfl, hid, hh, Or.inl rfl, Or.inl rfl, .keep⟩

theorem TunnelEffect.forget {s : State} {n : Nat} {k k' : Tunnel} (hid : k'.id = k.id) (hh : k.holds = true)
    (hh' : k'.holds = false) :
    TunnelEffect s n k ((s.forget k.id).setTunnel n k') k' (Function.update s.seen k.id false) s.markers s.trees :=
  ⟨rfl, hid, fun _ => hh, Or.inr ⟨rfl, hh, hh'⟩, Or.inl rfl, .keep⟩

theorem tunnelStep_effect {s t : State} {n : Nat} {l : TunnelLabel} (h : tunnelStep s n l = some t) :
    ∃ k k' seen markers trees, s.tunnels[n]? = some k ∧ TunnelEffect s n k t k' seen markers trees := by
  unfold tunnelStep at h
  cases hk : s.tunnels[n]? with
  | none => simp [hk] at h
  | some k =>
    simp only [hk] at h
    cases l with
    | opened now =>
      simp only at h
      split at h <;> cases h
      rename_i hpc
      exact ⟨k, _, _, _, _, rfl, rfl, rfl, fun _ => k.holds_of hpc rfl, Or.inl rfl, Or.inl rfl, .write _⟩
    | failed =>
      simp only at h
      split at h <;> cases h
      rename_i hpc
      exact ⟨k, _, _, _, _, rfl, .move rfl (fun _ => hpc.elim (fun h => k.holds_of h rfl) (fun h => k.holds_of h rfl))⟩
    | established =>
      simp only at h
      split at h <;> cases h
      rename_i hpc
      exact ⟨k, _, _, _, _, rfl, .move rfl (fun _ => k.holds_of hpc rfl)⟩
    | forget =>
      simp only at h
      split at h <;> cases h
      rename_i hpc
      exact ⟨k, _, _, _, _, rfl, .forget rfl (k.holds_of hpc rfl) rfl⟩
    | handed =>
      simp only at h
      split at h
      · split at h <;> cases h
        exact ⟨k, _, _, _, _, rfl, .move rfl (fun h => h)⟩
      · split at h <;> cases h
        exact ⟨k, _, _, _, _, rfl, .move rfl (fun h => h)⟩
      · cases h
    | finish =>
      simp only at h
      split at h <;> cases h
      rename_i watched hpc
      exact ⟨k, _, _, _, _, rfl, .move rfl (fun _ => k.holds_of hpc rfl)⟩
    | leave =>
      simp only at h
      split at h
      · split at h <;> cases h
        · exact ⟨k, _, _, _, _, rfl, .move rfl (fun _ => k.holds_of ‹_› rfl)⟩
        · exact ⟨k, _, _, _, _, rfl, .move rfl (fun _ => k.holds_of ‹_› rfl)⟩
      · cases h
    | reap =>
      simp only at h
      split at h <;> cases h
      rename_i hpc
      exact ⟨k, _, _, _, _, rfl, .move rfl (fun _ => k.holds_of hpc rfl)⟩
    | removeTree =>
      simp only at h
      split at h <;> cases h
      rename_i hpc
      exact ⟨k, _, _, _, _, rfl, rfl, rfl, fun _ => k.holds_of hpc rfl, Or.inl rfl, Or.inl rfl, .remove hpc⟩
    | removeMarker =>
      simp only at h
      split at h <;> cases h
      rename_i hpc
      exact ⟨k, _, _, _, _, rfl, rfl, rfl, fun _ => k.holds_of hpc rfl, Or.inl rfl, Or.inr rfl, .keep⟩
    | reapForget =>
      simp only at h
      split at h <;> cases h
      rename_i hpc
      exact ⟨k, _, _, _, _, rfl, .forget rfl (k.holds_of hpc rfl) rfl⟩

/-- The initiator has not come to its marker yet. -/
def DialPc.unmarked : DialPc → Bool
  | .mkdir | .openSeg | .syn | .mark => true
  | _ => false

/-- What a step of an initiator does. -/
structure DialEffect (s : State) (i : Nat) (d : Dialer) (t : State) (pc : DialPc) (markers' : String → Option Int)
    (trees' : Path → Option Subtree) : Prop where
  eq       : t = { s with dialers := s.dialers.set i { d with pc := pc }, markers := markers', trees := trees' }
  unmarked : pc.unmarked = true → d.pc.unmarked = true
  markers  : markers' = s.markers ∨
    (d.pc.unmarked = true ∧ pc.unmarked = false ∧ ∃ now, markers' = Function.update s.markers d.id (some now)) ∨
    (d.pc = .removeMarker ∧ markers' = Function.update s.markers d.id none)
  trees    : TreeChange True (connPath d.id) s.trees trees'

theorem DialEffect.move {s : State} {i : Nat} {d : Dialer} {pc : DialPc}
    (h : pc.unmarked = true → d.pc.unmarked = true) :
    DialEffect s i d (s.setDialer i { d with pc := pc }) pc s.markers s.trees :=
  ⟨rfl, h, Or.inl rfl, .keep⟩

theorem DialEffect.write {s : State} {i : Nat} {d : Dialer} {pc : DialPc} (u : Subtree) (h : d.pc.unmarked = true) :
    DialEffect s i d ((s.setTree (connPath d.id) u).setDialer i { d with pc := pc }) pc s.markers
      (Function.update s.trees (connPath d.id) (some u)) :=
  ⟨rfl, fun _ => h, Or.inl rfl, .write u⟩

theorem dialStep_effect {s t : State} {i : Nat} {l : DialLabel} (h : dialStep s i l = some t) :
    ∃ d pc markers trees, s.dialers[i]? = some d ∧ DialEffect s i d t pc markers trees := by
  unfold dialStep at h
  cases hd : s.dialers[i]? with
  | none => simp [hd] at h
  | some d =>
    simp only [hd] at h
    cases l with
    | mkdir now =>
      simp only at h
      split at h <;> cases h
      rename_i hpc
      exact ⟨d, _, _, _, rfl, .write _ (by rw [hpc]; rfl)⟩
    | openSeg now =>
      simp only at h
      split at h <;> cases h
      rename_i hpc
      exact ⟨d, _, _, _, rfl, .write _ (by rw [hpc]; rfl)⟩
    | syn now =>
      simp only at h
      split at h <;> cases h
      rename_i hpc
      exact ⟨d, _, _, _, rfl, .write _ (by rw [hpc]; rfl)⟩
    | mark now ok =>
      simp only at h
      split at h
      · rename_i hpc
        cases ok with
        | true =>
          cases h
          exact ⟨d, _, _, _, rfl, rfl, fun hf => (by cases hf), Or.inr (Or.inl ⟨by rw [hpc]; rfl, rfl, now, rfl⟩),
            .keep⟩
        | false =>
          cases h
          exact ⟨d, _, _, _, rfl, .move (fun hf => by cases hf)⟩
      · cases h
    | ring =>
      simp only at h
      split at h <;> cases h
      exact ⟨d, _, _, _, rfl, .move (fun hf => by cases hf)⟩
    | established =>
      simp only at h
      split at h <;> cases h
      exact ⟨d, _, _, _, rfl, .move (fun hf => by cases hf)⟩
    | fail =>
      simp only at h
      split at h <;> cases h
      exact ⟨d, _, _, _, rfl, .move (fun hf => by cases hf)⟩
    | removeTree =>
      simp only at h
      split at h <;> cases h
      exact ⟨d, _, _, _, rfl, rfl, fun hf => (by cases hf), Or.inl rfl, .remove trivial⟩
    | removeMarker =>
      simp only at h
      split at h <;> cases h
      rename_i hpc
      exact ⟨d, _, _, _, rfl, rfl, fun hf => (by cases hf), Or.inr (Or.inr ⟨hpc, rfl⟩), .keep⟩
    | crash =>
      simp only at h
      split at h <;> cases h
      exact ⟨d, _, _, _, rfl, .move (fun hf => by cases hf)⟩

/-! ## What a step of the whole system does -/

/-- A step is one of a goroutine, or the world's. -/
inductive Effect (s : State) : Label → State → Prop
  | dial {id : String} : isConnID id = true → (∀ (i : Nat) (d : Dialer), s.dialers[i]? = some d → d.id ≠ id) →
      Effect s (.dial id) { s with dialers := s.dialers ++ [⟨id, .mkdir⟩] }
  | dialer {i : Nat} {l : DialLabel} {d : Dialer} {t : State} {pc : DialPc} {markers' : String → Option Int}
      {trees' : Path → Option Subtree} : s.dialers[i]? = some d → DialEffect s i d t pc markers' trees' →
      Effect s (.dialer i l) t
  | watch {l : WatchLabel} {t : State} : WatchEffect s t → WatchFrame s t → Effect s (.watch l) t
  | tunnel {n : Nat} {l : TunnelLabel} {k k' : Tunnel} {t : State} {seen' : String → Bool}
      {markers' : String → Option Int} {trees' : Path → Option Subtree} : s.tunnels[n]? = some k →
      TunnelEffect s n k t k' seen' markers' trees' → Effect s (.tunnel n l) t
  | write {p : Path} {u : Subtree} : (s.trees p).isSome = true → Effect s (.write p u) (s.setTree p u)
  | surface {p : Path} : (s.trees p).isSome = true →
      Effect s (.surface p) { s with visible := Function.update s.visible p true }
  | fade {p : Path} : Effect s (.fade p) { s with visible := Function.update s.visible p false }
  | close : Effect s .close { s with closed := true }

theorem step_effect {threshold : Int} {s t : State} {l : Label} (hs : step threshold s l = some t) : Effect s l t := by
  cases l with
  | dial id =>
    simp only [step] at hs
    split at hs <;> cases hs
    rename_i hnew
    refine .dial hnew.1 (fun i d hi => ?_)
    simpa using List.all_eq_true.1 hnew.2 d (List.mem_of_getElem? hi)
  | dialer i l =>
    obtain ⟨d, pc, markers', trees', hd, he⟩ := dialStep_effect hs
    exact .dialer hd he
  | watch l => exact .watch (watchStep_effect hs) (watchStep_frame hs)
  | tunnel n l =>
    obtain ⟨k, k', seen', markers', trees', hk, he⟩ := tunnelStep_effect hs
    exact .tunnel hk he
  | write p u =>
    simp only [step] at hs
    split at hs <;> cases hs
    rename_i hp
    exact .write hp
  | surface p =>
    simp only [step] at hs
    split at hs <;> cases hs
    rename_i hp
    refine .surface ?_
    cases hu : s.trees p with
    | none => simp [hu] at hp
    | some u => rfl
  | fade p =>
    cases hs
    exact .fade
  | close =>
    cases hs
    exact .close

end Listener
end Ccb
