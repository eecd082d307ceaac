import Ccb.Machine
import Ccb.Broker
/-!
# Upstream — an inside CCB and its tunnel contact

An inside CCB (upstream.go) is a broker that is itself registered with an upstream one.  Cedar's `Listener` keeps that
registration and its `Contact()` is the latest contact the upstream assigned; `watchTunnelReady` polls it and publishes
what it finds to `tunnelContact`, which `contactString` puts before the ids of the local registrants.

The watcher returns at its first non-empty contact.  So the local contacts nest under the current registration as long
as the upstream assigns no other contact once one is published (`contacts_follow`), and stay under the first one when it
does (`reassigned_contact_is_stale`).
-/
namespace Ccb
namespace Upstream

open Machine (run Meets)

/-- `addr` and `id` to a contact, as cedar's `ccb.ContactString` writes it. -/
structure UpExt extends Broker.Ext where
  contactString : String → UInt64 → String

structure UpConfig extends Broker.Config where
  /-- `Upstream.ReadyFile`, `""` for none. -/
  readyFile : String

/-- The broker, its upstream listener's `Contact()`, the published contact, whether `watchTunnelReady` still runs,
whether `tunnelReady` is closed, the text of the readiness file, and the contacts handed to registrants, by handler. -/
structure State where
  broker        : Broker.State
  contact       : String
  tunnelContact : Option String
  watching      : Bool
  tunnelReady   : Bool
  readyText     : Option String
  stamps        : List (Nat × String)

/-- `startUpstream` has been called. -/
def State.start (b : Broker.State) : State := ⟨b, "", none, true, false, none, []⟩

def State.getTunnelContact (s : State) : String := s.tunnelContact.getD ""

def contactString (x : UpExt) (cfg : UpConfig) (s : State) (id : UInt64) : String :=
  match s.tunnelContact with
  | some tc => if tc ≠ "" then tc ++ "#" ++ formatUint id else x.contactString cfg.publicAddress id
  | none    => x.contactString cfg.publicAddress id

/-- `writeReadyFile`, with whether its writes succeed. -/
def writeReadyFile (cfg : UpConfig) (s : State) (ok : Bool) : State :=
  if cfg.readyFile = "" then s else if ok then { s with readyText := some (s.contact ++ "\n") } else s

/-- One tick of `watchTunnelReady`. -/
def watchTick (cfg : UpConfig) (s : State) (fileOk : Bool) : State :=
  if s.watching = true ∧ s.contact ≠ "" then
    { writeReadyFile cfg { s with tunnelContact := some s.contact } fileOk with tunnelReady := true, watching := false }
  else s

inductive Label where
  /-- A step of the broker. -/
  | broker (l : Broker.Label)
  /-- A registration's handler makes the contact of its reply. -/
  | stamp (h : Nat)
  /-- The upstream registers this CCB (again) and assigns it a contact. -/
  | assign (c : String)
  /-- The watcher's ticker fires. -/
  | tick (fileOk : Bool)
  /-- The context is done. -/
  | cancel
  deriving DecidableEq, Repr

/-- The handler whose reply a broker step is. -/
def replies : Broker.Label → Option Nat
  | .reg (.replied h _) => some h
  | _ => none

def State.stamped (s : State) (h : Nat) : Bool := s.stamps.any (fun p => p.1 == h)

def step (x : UpExt) (cfg : UpConfig) (s : State) : Label → Option State
  | .broker l =>
    if (replies l).all s.stamped then
      (Broker.step x.toExt cfg.toConfig s.broker l).map (fun b => { s with broker := b })
    else none
  | .stamp h =>
    match s.broker.handlers[h]? with
    | some ⟨t, _, .reply⟩ =>
      if s.stamped h then none else some { s with stamps := s.stamps ++ [(h, contactString x cfg s t.id)] }
    | _ => none
  | .assign c => if c = "" then none else some { s with contact := c }
  | .tick fileOk => some (watchTick cfg s fileOk)
  | .cancel => some { s with watching := false }

/-! ## What a step does to the contact -/

/-- How a step changes the contact, what is published of it and the watcher. -/
inductive Effect (s t : State) : Label → Prop
  | frame {l : Label} : (∀ c, l ≠ .assign c) → t.contact = s.contact → t.tunnelContact = s.tunnelContact →
      t.tunnelReady = s.tunnelReady → t.watching = s.watching →
      (∀ ok, l = .tick ok → s.watching = false ∨ s.contact = "") → t.readyText = s.readyText → Effect s t l
  | assign (c : String) : c ≠ "" → t.contact = c → t.tunnelContact = s.tunnelContact →
      t.tunnelReady = s.tunnelReady → t.watching = s.watching → t.readyText = s.readyText → Effect s t (.assign c)
  | publish (ok : Bool) : s.contact ≠ "" → t.contact = s.contact → t.tunnelContact = some s.contact →
      t.tunnelReady = true → t.watching = false → s.watching = true →
      t.readyText = s.readyText ∨ t.readyText = some (s.contact ++ "\n") → Effect s t (.tick ok)
  | cancel : t.contact = s.contact → t.tunnelContact = s.tunnelContact → t.tunnelReady = s.tunnelReady →
      t.watching = false → t.readyText = s.readyText → Effect s t .cancel

theorem writeReadyFile_frame (cfg : UpConfig) (s : State) (ok : Bool) :
    (writeReadyFile cfg s ok).contact = s.contact ∧ (writeReadyFile cfg s ok).tunnelContact = s.tunnelContact ∧
      ((writeReadyFile cfg s ok).readyText = s.readyText ∨
        (writeReadyFile cfg s ok).readyText = some (s.contact ++ "\n")) := by
  unfold writeReadyFile
  split
  · exact ⟨rfl, rfl, .inl rfl⟩
  · split
    · exact ⟨rfl, rfl, .inr rfl⟩
    · exact ⟨rfl, rfl, .inl rfl⟩

variable {x : UpExt} {cfg : UpConfig}

theorem step_effect {s t : State} {l : Label} (h : step x cfg s l = some t) : Effect s t l := by
  cases l with
  | broker l =>
    simp only [step] at h
    split at h
    · obtain ⟨b, -, rfl⟩ := Option.map_eq_some_iff.1 h
      exact .frame (by simp) rfl rfl rfl rfl (by simp) rfl
    · cases h
  | stamp n =>
    simp only [step] at h
    split at h
    · split at h
      · cases h
      · cases h
        exact .frame (by simp) rfl rfl rfl rfl (by simp) rfl
    · cases h
  | assign c =>
    simp only [step] at h
    split at h
    · cases h
    · cases h
      exact .assign c ‹_› rfl rfl rfl rfl rfl
  | tick ok =>
    simp only [step, Option.some.injEq] at h
    subst h
    unfold watchTick
    split
    · rename_i hw
      obtain ⟨h1, h2, h3⟩ := writeReadyFile_frame cfg { s with tunnelContact := some s.contact } ok
      exact .publish ok hw.2 h1 h2 rfl rfl hw.1 h3
    · rename_i hw
      refine .frame (by simp) rfl rfl rfl rfl (fun _ _ => ?_) rfl
      by_cases hs : s.watching = true
      · exact Or.inr (Classical.byContradiction (fun hc => hw ⟨hs, hc⟩))
      · exact Or.inl (by simpa using hs)
  | cancel =>
    simp only [step, Option.some.injEq] at h
    subst h
    exact .cancel rfl rfl rfl rfl rfl

/-! ## Contacts follow the registration -/

/-- The upstream assigns a contact only while the watcher still polls, or assigns the published one again; and the
context lasts until a contact is published. -/
def FirstOnly (s : State) : Label → Prop
  | .assign c => s.watching = true ∨ s.tunnelContact = some c
  | .cancel   => s.watching = false
  | _         => True

instance (s : State) : ∀ l : Label, Decidable (FirstOnly s l)
  | .assign _ => inferInstanceAs (Decidable (_ ∨ _))
  | .cancel   => inferInstanceAs (Decidable (_ = _))
  | .broker _ | .stamp _ | .tick _ => .isTrue trivial

/-- Nothing is published yet, or what is published is the listener's contact. -/
def Current (s : State) : Prop :=
  (s.watching = true ∧ s.tunnelContact = none) ∨
    (s.watching = false ∧ s.tunnelContact = some s.contact ∧ s.contact ≠ "")

theorem Current.of_step {s t : State} {l : Label} (h : Current s) (hg : FirstOnly s l) (hs : step x cfg s l = some t) :
    Current t := by
  cases step_effect hs with
  | frame _ hc ht _ hw _ =>
    unfold Current at h ⊢
    rwa [hc, ht, hw]
  | assign c hne hc ht _ hw =>
    rcases h with ⟨h1, h2⟩ | ⟨h1, h2, h3⟩
    · exact Or.inl ⟨hw.trans h1, ht.trans h2⟩
    · -- The watcher is gone, so the contact is the published one.
      rcases hg with hg | hg
      · rw [h1] at hg
        cases hg
      · exact Or.inr ⟨hw.trans h1, by rw [ht, hc, hg], by rwa [hc]⟩
  | publish _ hne hc ht _ hw => exact Or.inr ⟨hw, by rw [ht, hc], by rwa [hc]⟩
  | cancel hc ht _ hw =>
    rcases h with ⟨h1, -⟩ | ⟨-, h2, h3⟩
    · rw [show s.watching = false from hg] at h1
      cases h1
    · exact Or.inr ⟨hw, by rw [ht, hc, h2], by rwa [hc]⟩

/-- After a tick that finds a contact the watcher is gone. -/
theorem watching_of_tick {s t : State} {ok : Bool} (hne : s.contact ≠ "") (hs : step x cfg s (.tick ok) = some t) :
    t.watching = false := by
  cases step_effect hs with
  | frame _ _ _ _ hw hidle =>
    rcases hidle ok rfl with hidle | hidle
    · exact hw.trans hidle
    · exact absurd hidle hne
  | publish _ _ _ _ _ hw => exact hw

def Label.isAssign : Label → Bool
  | .assign _ => true
  | _         => false

theorem contact_of_step {s t : State} {l : Label} (hl : l.isAssign = false) (hs : step x cfg s l = some t) :
    t.contact = s.contact := by
  cases step_effect hs with
  | frame _ hc => exact hc
  | assign c => cases hl
  | publish _ _ hc => exact hc
  | cancel hc => exact hc

theorem watching_of_step {s t : State} {l : Label} (h : s.watching = false) (hs : step x cfg s l = some t) :
    t.watching = false := by
  cases step_effect hs with
  | frame _ _ _ _ hw _ => exact hw.trans h
  | assign _ _ _ _ _ hw => exact hw.trans h
  | publish _ _ _ _ _ hw => exact hw
  | cancel _ _ _ hw => exact hw

/-- Without an assignment the listener's contact stays. -/
theorem contact_of_run : ∀ (ls : List Label) {s t : State}, (∀ l ∈ ls, l.isAssign = false) →
    run (step x cfg) s ls = some t → t.contact = s.contact
  | [], s, t, _, hr => by
    cases hr
    rfl
  | l :: ls, s, t, hl, hr => by
    obtain ⟨u, hu, hr⟩ := Machine.run_cons hr
    rw [contact_of_run ls (fun l' h' => hl l' (List.mem_cons_of_mem _ h')) hr]
    exact contact_of_step (hl l List.mem_cons_self) hu

/-- **After an assignment and a tick the assigned contact is published.** -/
theorem published_of_tick {s u : State} {c : String} {ls : List Label} (h : Current s)
    (hl : ∀ l ∈ ls, l.isAssign = false) (htick : ∃ ok, Label.tick ok ∈ ls)
    (hm : Meets (step x cfg) FirstOnly s (.assign c :: ls)) (hr : run (step x cfg) s (.assign c :: ls) = some u) :
    u.tunnelContact = some c ∧ u.contact = c ∧ c ≠ "" := by
  obtain ⟨t, ht, hr⟩ := Machine.run_cons hr
  obtain ⟨hg, hm⟩ := hm t ht
  have hcur := Current.of_step h hg ht
  have htc : t.contact = c ∧ c ≠ "" := by
    cases step_effect ht with
    | frame hne => exact absurd rfl (hne c)
    | assign _ hne hc => exact ⟨hc, hne⟩
  -- Cut the labels at the tick.
  obtain ⟨ok, hmem⟩ := htick
  obtain ⟨as, bs, rfl⟩ := List.append_of_mem hmem
  have hcontact := (contact_of_run _ hl hr).trans htc.1
  rw [Machine.run_append] at hr
  obtain ⟨v, hv, hr⟩ := Option.bind_eq_some_iff.1 hr
  obtain ⟨hm1, hm2⟩ := hm.of_append as hv
  have hvcur := Machine.inv_of_meets (fun _ _ _ h hg hs => Current.of_step h hg hs) as t v hcur hm1 hv
  have hvc := (contact_of_run as (fun l h' => hl l (List.mem_append_left _ h')) hv).trans htc.1
  have hucur := Machine.inv_of_meets (fun _ _ _ h hg hs => Current.of_step h hg hs) _ v u hvcur hm2 hr
  obtain ⟨w, hw, hr⟩ := Machine.run_cons hr
  have hoff := Machine.inv_of_step (fun _ _ _ h hs => watching_of_step h hs) bs w u
    (watching_of_tick (by rw [hvc]; exact htc.2) hw) hr
  rcases hucur with ⟨hon, -⟩ | ⟨-, hpub, -⟩
  · rw [hoff] at hon
    cases hon
  · exact ⟨by rw [hpub, hcontact], hcontact, htc.2⟩

/-- A registration is stamped below the contact that is published. -/
theorem stamp_of_published {s t : State} {c : String} {h : Nat} (hpub : s.tunnelContact = some c) (hne : c ≠ "")
    (ht : step x cfg s (.stamp h) = some t) :
    ∃ k, s.broker.handlers[h]? = some k ∧ t.stamps = s.stamps ++ [(h, c ++ "#" ++ formatUint k.target.id)] := by
  simp only [step] at ht
  split at ht
  · rename_i tgt r hk
    split at ht
    · cases ht
    · cases ht
      refine ⟨_, hk, ?_⟩
      simp only [contactString, hpub, if_pos hne]
  · cases ht

/-- **Nested contacts follow the upstream registration**: after a tick that follows the assignment of `c`, and until
another assignment, the tunnel contact is `c` and every registration stamped gets `c#id`, when the upstream reassigns
nothing once a contact is published. -/
theorem contacts_follow (x : UpExt) (cfg : UpConfig) (b : Broker.State) (as bs : List Label) (c : String) (s : State)
    (hm : Meets (step x cfg) FirstOnly (.start b) (as ++ .assign c :: bs))
    (hr : run (step x cfg) (.start b) (as ++ .assign c :: bs) = some s)
    (hl : ∀ l ∈ bs, l.isAssign = false) (htick : ∃ ok, Label.tick ok ∈ bs) :
    s.getTunnelContact = c ∧
      ∀ h t, step x cfg s (.stamp h) = some t →
        ∃ k, s.broker.handlers[h]? = some k ∧ t.stamps = s.stamps ++ [(h, c ++ "#" ++ formatUint k.target.id)] := by
  rw [Machine.run_append] at hr
  obtain ⟨u, hu, hr⟩ := Option.bind_eq_some_iff.1 hr
  obtain ⟨hm1, hm2⟩ := hm.of_append as hu
  have hcur := Machine.inv_of_meets (fun _ _ _ h hg hs => Current.of_step h hg hs) as _ u (Or.inl ⟨rfl, rfl⟩) hm1 hu
  obtain ⟨hpub, -, hne⟩ := published_of_tick hcur hl htick hm2 hr
  exact ⟨by rw [State.getTunnelContact, hpub, Option.getD_some], fun h t ht => stamp_of_published hpub hne ht⟩

/-! ## What is published stays -/

/-- The watcher has published `c` and returned, and the readiness file has nothing else. -/
structure Settled (c : String) (s : State) : Prop where
  watching  : s.watching = false
  published : s.tunnelContact = some c
  nonempty  : c ≠ ""
  file      : ∀ text, s.readyText = some text → text = c ++ "\n"

theorem Settled.step {c : String} {s t : State} {l : Label} (h : Settled c s) (hs : step x cfg s l = some t) :
    Settled c t := by
  cases step_effect hs with
  | frame _ _ ht _ hw _ hf => exact ⟨hw.trans h.watching, ht.trans h.published, h.nonempty, by rw [hf]; exact h.file⟩
  | assign _ _ _ ht _ hw hf => exact ⟨hw.trans h.watching, ht.trans h.published, h.nonempty, by rw [hf]; exact h.file⟩
  | publish _ _ _ _ _ _ hon => rw [h.watching] at hon; cases hon
  | cancel _ ht _ hw hf => exact ⟨hw, ht.trans h.published, h.nonempty, by rw [hf]; exact h.file⟩

/-- `tunnelReady` is not closed and nothing is written, or what is published is settled. -/
def Readied (s : State) : Prop := (s.tunnelReady = false ∧ s.readyText = none) ∨ ∃ c, Settled c s

theorem Readied.step {s t : State} {l : Label} (h : Readied s) (hs : step x cfg s l = some t) : Readied t := by
  rcases h with ⟨hready, hfile⟩ | ⟨c, h⟩
  · cases step_effect hs with
    | frame _ _ _ hr _ _ hf => exact .inl ⟨hr.trans hready, hf.trans hfile⟩
    | assign _ _ _ _ hr _ hf => exact .inl ⟨hr.trans hready, hf.trans hfile⟩
    | publish _ hne _ ht _ hw _ hf =>
      refine .inr ⟨s.contact, hw, ht, hne, fun text htext => ?_⟩
      rcases hf with hf | hf
      · rw [hf, hfile] at htext
        cases htext
      · rw [hf] at htext
        exact (Option.some.inj htext).symm
    | cancel _ _ hr _ hf => exact .inl ⟨hr.trans hready, hf.trans hfile⟩
  · exact .inr ⟨c, h.step hs⟩

def plainExt : UpExt where
  splitCCBContact _ := none
  peerIPString s := s
  sinfulIsCCB _ := false
  quote := String.quote
  contactString addr id := addr ++ "#" ++ formatUint id

def insideCfg : UpConfig :=
  { publicAddress := "inside:9618", authorizer := none, reconnectStore := false, reconnectAllowAnyIP := false,
    reconnectTTL := 0, readyFile := "" }

/-- A registration up to the point where its contact is made. -/
def registered : List Label :=
  [.broker (.reg (.register ⟨"ep:1", "condor@pool", some ⟨"startd", "", ""⟩, some "cookie", 0⟩)),
    .broker (.reg (.put 0))]

theorem contacts_follow_first :
    ∃ s, run (step plainExt insideCfg) (.start .init) (.assign "outside:9618#7" :: .tick true :: registered) = some s ∧
      s.getTunnelContact = "outside:9618#7" ∧
      (step plainExt insideCfg s (.stamp 0)).map State.stamps = some [(0, "outside:9618#7#1")] := by
  refine ⟨_, rfl, ?_, ?_⟩
  · exact (contacts_follow plainExt insideCfg .init [] (.tick true :: registered) _ _ (by decide +kernel) rfl
      (by decide)
      ⟨true, by decide⟩).1
  · decide +kernel

/-- **A contact assigned after the first is not taken up**: the upstream hands out `#9` in place of `#7`, the watcher's
ticker fires, and the next registrant is stamped with `#7` all the same. -/
theorem reassigned_contact_is_stale :
    ∃ s t, run (step plainExt insideCfg) (.start .init)
        (.assign "outside:9618#7" :: .tick true :: .assign "outside:9618#9" :: .tick true :: registered) = some s ∧
      s.contact = "outside:9618#9" ∧ s.getTunnelContact = "outside:9618#7" ∧
      step plainExt insideCfg s (.stamp 0) = some t ∧ t.stamps = [(0, "outside:9618#7#1")] := by
  exact ⟨_, _, rfl, rfl, rfl, rfl, by decide +kernel⟩

end Upstream
end Ccb
