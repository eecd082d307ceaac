import Ccb.Mux
/-!
# CarrierClient — one live session at a time

`session` drops the session it had only when that is down, and `close` takes the last one down for good; both run under
`c.mu`.  So a `carrierClient` never has two sessions up, whatever its dials, its pipes and the callers of `close` do,
and every stream that is open is one of the session it has.
-/
namespace Ccb
namespace Carrier

open Machine (run)

/-! ## What a step does to the sessions -/

/-- The sessions and streams after a step, and whether the client is closed. -/
inductive Links (s t : State) : Prop
  | same : t.sessions = s.sessions → t.md = s.md → t.done = s.done → t.streams = s.streams → Links s t
  -- a stream is closed, or a session goes down with its streams
  | hangUp (n : Nat) : t = s.closeStream n → Links s t
  | down (n : Nat) : t.sessions = (s.shutdown n).sessions → t.streams = (s.shutdown n).streams →
      (t.md = s.md ∧ t.done = s.done ∨ s.md = some n ∧ t.md = none ∧ t.done = true) → Links s t
  | closed : s.md = none → t.md = none → t.done = true → t.sessions = s.sessions → t.streams = s.streams → Links s t
  -- `session` finds none that is up
  | failed : s.done = false → s.md.filter (fun n => !s.closed n) = none → t.md = none → t.done = false →
      t.sessions = s.sessions → t.streams = s.streams → Links s t
  | fresh : s.done = false → s.md.filter (fun n => !s.closed n) = none → t.md = some s.sessions.length →
      t.done = false → t.sessions = s.sessions ++ [false] → t.streams = s.streams → Links s t
  | opened (n k : Nat) : s.closed n = false → t.sessions = s.sessions → t.md = s.md → t.done = s.done →
      t.streams = s.streams ++ [⟨n, k, false⟩] → Links s t

section
variable {s t : State} {l : Label}

theorem session_links (k : Nat) (c : Call) (pipe : Bool) : Links s (s.session k c pipe) := by
  unfold State.session
  split
  · exact .same rfl rfl rfl rfl
  · rename_i hd
    split
    · exact .same rfl rfl rfl rfl
    · rename_i hmd
      have hd : s.done = false := Bool.eq_false_iff.2 hd
      split
      · exact .fresh hd hmd rfl hd rfl rfl
      · exact .failed hd hmd rfl hd rfl rfl

theorem step_links (h : step s l = some t) : Links s t := by
  cases l with
  | dial => cases h; exact .same rfl rfl rfl rfl
  | lost n => cases h; exact .down n rfl rfl (.inl ⟨rfl, rfl⟩)
  | close =>
    dsimp only [step] at h
    split at h <;> cases h
    · rename_i n hmd
      exact .down n rfl rfl (.inr ⟨hmd, rfl, rfl⟩)
    · rename_i hmd
      exact .closed hmd hmd rfl rfl rfl
  | cancel k =>
    obtain ⟨c, -, rfl⟩ := Option.map_eq_some_iff.1 h
    exact .same rfl rfl rfl rfl
  | session k pipe =>
    dsimp only [step] at h
    split at h
    · split at h <;> cases h
      exact session_links k _ pipe
    · cases h
  | opened k ok =>
    dsimp only [step] at h
    split at h
    · rename_i c hc
      split at h
      · cases ok with
        | true =>
          rw [if_pos rfl] at h
          split at h <;> cases h
          rename_i hup
          exact .opened c.sess k (Bool.eq_false_iff.2 hup) rfl rfl rfl rfl
        | false =>
          cases h
          exact .same rfl rfl rfl rfl
      · cases h
    · cases h
  | send k | receive k =>
    dsimp only [step] at h
    split at h
    · split at h <;> cases h
      exact .same rfl rfl rfl rfl
    · cases h
  | giveUp k =>
    dsimp only [step] at h
    split at h
    · split at h <;> cases h
      exact .same rfl rfl rfl rfl
    · cases h
  | hangUp k =>
    dsimp only [step] at h
    split at h
    · split at h <;> cases h
      exact .hangUp _ rfl
    · cases h

/-! ## The invariant -/

/-- **A session that is up is the client's**, a client that is closed has none, and an open stream is on one that is
up. -/
structure Single (s : State) : Prop where
  live   : ∀ n, s.closed n = false → s.md = some n
  done   : s.done = true → s.md = none
  stream : ∀ (i : Nat) (st : Stream), s.streams[i]? = some st → st.closed = false → s.closed st.sess = false

theorem closed_congr (h : t.sessions = s.sessions) (n : Nat) : t.closed n = s.closed n := by
  rw [State.closed, State.closed, h]

theorem closed_shutdown (n m : Nat) : (s.shutdown n).closed m = if n = m then true else s.closed m := by
  show ((s.sessions.set n true)[m]?).getD true = _
  split
  · rename_i hm
    subst hm
    rw [List.getElem?_set]
    simp only [if_true]
    split <;> rfl
  · rename_i hm
    rw [List.getElem?_set_ne hm]
    rfl

theorem closed_append (n : Nat) :
    (s.sessions ++ [false])[n]?.getD true = if n = s.sessions.length then false else s.closed n := by
  rw [State.closed, List.getElem?_append]
  split
  · rename_i hn
    rw [if_neg (by omega)]
  · rename_i hn
    split
    · rename_i he
      subst he
      simp
    · rw [List.getElem?_eq_none (by simp only [List.length_singleton]; omega), List.getElem?_eq_none (by omega)]

/-- `session` finds none that is up when there is none. -/
theorem Single.none_up (h : Single s) (hmd : s.md.filter (fun n => !s.closed n) = none) (n : Nat) :
    s.closed n = true := by
  cases hn : s.closed n with
  | true => rfl
  | false =>
    rw [h.live n hn, Option.filter_some, hn] at hmd
    cases hmd

theorem Single.step (h : Single s) (hs : step s l = some t) : Single t := by
  cases step_links hs with
  | same hsess hmd hd hst =>
    exact ⟨fun n hn => hmd.trans (h.live n (closed_congr hsess n ▸ hn)), fun ht => hmd.trans (h.done (hd ▸ ht)),
      fun i st hi hc => (closed_congr hsess _).trans (h.stream i st (hst ▸ hi) hc)⟩
  | hangUp n ht =>
    subst ht
    refine ⟨h.live, h.done, fun i st hi hc => ?_⟩
    rcases getElem?_modify_some hi with ⟨-, st', hst', rfl⟩ | ⟨-, hi⟩
    · cases hc
    · exact h.stream i st hi hc
  | down n hsess hst hmd =>
    have hcl : ∀ m, t.closed m = if n = m then true else s.closed m := fun m =>
      (closed_congr (s := s.shutdown n) hsess m).trans (closed_shutdown n m)
    refine ⟨fun m hm => ?_, fun ht => ?_, fun i st hi hc => ?_⟩
    · rw [hcl] at hm
      split at hm
      · cases hm
      · rename_i hne
        have hlive := h.live m hm
        rcases hmd with ⟨hmd, -⟩ | ⟨hold, -⟩
        · exact hmd.trans hlive
        · exact absurd (Option.some.inj (hold.symm.trans hlive)) hne
    · rcases hmd with ⟨hmd, hd⟩ | ⟨-, hmd, -⟩
      · exact hmd.trans (h.done (hd ▸ ht))
      · exact hmd
    · rw [hst] at hi
      obtain ⟨st', hst', rfl⟩ := Option.map_eq_some_iff.1 ((List.getElem?_map ..).symm.trans hi)
      split at hc
      · cases hc
      · rename_i hne
        rw [if_neg hne, hcl, if_neg (Ne.symm hne)]
        exact h.stream i st' hst' hc
  | closed hmd hmd' hd hsess hst =>
    refine ⟨fun n hn => ?_, fun _ => hmd', fun i st hi hc => ?_⟩
    · rw [closed_congr hsess] at hn
      cases (h.live n hn).symm.trans hmd
    · rw [closed_congr hsess]
      exact h.stream i st (hst ▸ hi) hc
  | failed hd hmd hmd' hd' hsess hst =>
    have hdown := h.none_up hmd
    refine ⟨fun n hn => ?_, fun ht => hmd', fun i st hi hc => ?_⟩
    · rw [closed_congr hsess, hdown n] at hn
      cases hn
    · have := h.stream i st (hst ▸ hi) hc
      rw [hdown] at this
      cases this
  | fresh hd hmd hmd' hd' hsess hst =>
    have hdown := h.none_up hmd
    refine ⟨fun n hn => ?_, fun ht => (by cases ht.symm.trans hd'), fun i st hi hc => ?_⟩
    · rw [State.closed, hsess, closed_append, hdown] at hn
      split at hn
      · rename_i he
        rw [hmd', he]
      · cases hn
    · have := h.stream i st (hst ▸ hi) hc
      rw [hdown] at this
      cases this
  | opened n k hup hsess hmd hd hst =>
    refine ⟨fun m hm => hmd.trans (h.live m (closed_congr hsess m ▸ hm)), fun ht => hmd.trans (h.done (hd ▸ ht)),
      fun i st hi hc => ?_⟩
    rw [closed_congr hsess]
    rw [hst] at hi
    rcases getElem?_concat_some hi with hi | ⟨-, rfl⟩
    · exact h.stream i st hi hc
    · exact hup

theorem single_run {ls : List Label} (hr : run step .start ls = some s) : Single s :=
  Machine.inv_of_step (I := Single) (fun _ _ _ h hs => h.step hs) ls .start s
    ⟨fun n hn => (by cases hn), fun hd => (by cases hd), fun i st hi => (by cases hi)⟩ hr

/-- A closed client has nothing that is up, and opens nothing. -/
theorem Single.closed_step (h : Single s) (hd : s.done = true) (hs : Carrier.step s l = some t) :
    t.done = true ∧ t.streams.length = s.streams.length := by
  cases step_links hs with
  | same _ _ hd' hst => exact ⟨hd'.trans hd, by rw [hst]⟩
  | hangUp n ht =>
    subst ht
    exact ⟨hd, List.length_modify ..⟩
  | down n _ hst hmd =>
    refine ⟨?_, by rw [hst]; exact List.length_map ..⟩
    rcases hmd with ⟨-, hd'⟩ | ⟨-, -, hd'⟩
    · exact hd'.trans hd
    · exact hd'
  | closed _ _ hd' _ hst => exact ⟨hd', by rw [hst]⟩
  | failed hd' => cases hd'.symm.trans hd
  | fresh hd' => cases hd'.symm.trans hd
  | opened n k hup => cases (h.live n hup).symm.trans (h.done hd)

theorem Single.down (h : Single s) (hd : s.done = true) :
    (∀ n, s.closed n = true) ∧ ∀ (i : Nat) (st : Stream), s.streams[i]? = some st → st.closed = true := by
  have hall : ∀ n, s.closed n = true := fun n => by
    cases hn : s.closed n with
    | true => rfl
    | false => cases (h.live n hn).symm.trans (h.done hd)
  refine ⟨hall, fun i st hi => ?_⟩
  cases hc : st.closed with
  | true => rfl
  | false => cases (h.stream i st hi hc).symm.trans (hall _)

end

/-- **A client has one session up at the most, and its open streams are on it; once it is closed, everything is down and
stays so**, whatever is dialed and whatever pipes can still be had. -/
theorem one_session (ls ms : List Label) (s t : State) (hr : run step .start ls = some s)
    (ht : run step s ms = some t) :
    (∀ m n, s.closed m = false → s.closed n = false → m = n) ∧
      (∀ (i : Nat) (st : Stream), s.streams[i]? = some st → st.closed = false →
        s.md = some st.sess ∧ s.closed st.sess = false) ∧
      (s.done = true → t.done = true ∧ t.streams.length = s.streams.length ∧ (∀ n, t.closed n = true) ∧
        ∀ (i : Nat) (st : Stream), t.streams[i]? = some st → st.closed = true) := by
  have h := single_run hr
  refine ⟨fun m n hm hn => ?_, fun i st hi hc => ?_, fun hd => ?_⟩
  · exact Option.some.inj ((h.live m hm).symm.trans (h.live n hn))
  · have hup := h.stream i st hi hc
    exact ⟨h.live _ hup, hup⟩
  · obtain ⟨hsingle, hdone, hlen⟩ := Machine.inv_of_step
      (I := fun t => Single t ∧ t.done = true ∧ t.streams.length = s.streams.length)
      (fun u l v hu hs => by
        obtain ⟨hd', hl'⟩ := hu.1.closed_step hu.2.1 hs
        exact ⟨hu.1.step hs, hd', hl'.trans hu.2.2⟩) ms s t ⟨h, hd, rfl⟩ ht
    exact ⟨hdone, hlen, hsingle.down hdone⟩

/-- A pipe is lost and the next dial brings up another one; the client is closed with a stream on its way. -/
def twoPipes : List Label :=
  [.dial, .session 0 true, .opened 0 true, .send 0, .receive 0, .lost 0, .dial, .session 1 true, .opened 1 true, .dial,
   .session 2 false, .close]

theorem one_session_twoPipes :
    ∃ s t, run step .start twoPipes = some s ∧ s.sessions = [true, true] ∧
      run step s [.send 1, .receive 1, .opened 2 false, .dial, .session 3 true] = some t ∧
      t.streams.length = s.streams.length ∧ ∀ n, t.closed n = true := by
  obtain ⟨s, hs⟩ : ∃ s, run step .start twoPipes = some s := Option.isSome_iff_exists.1 (by decide)
  have hseen : (run step .start twoPipes).map (fun s => (s.sessions, s.done,
      (run step s [.send 1, .receive 1, .opened 2 false, .dial, .session 3 true]).isSome)) =
        some ([true, true], true, true) := by decide
  simp only [hs, Option.map_some, Option.some.injEq, Prod.mk.injEq] at hseen
  obtain ⟨hsess, hdone, hlater⟩ := hseen
  obtain ⟨t, ht⟩ := Option.isSome_iff_exists.1 hlater
  obtain ⟨-, hlen, hall, -⟩ := (one_session twoPipes _ s t hs ht).2.2 hdone
  exact ⟨s, t, hs, hsess, ht, hlen, hall⟩

end Carrier
end Ccb
