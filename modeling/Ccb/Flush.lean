import Ccb.SegLog
/-!
# Flush — when a direction's bytes reach the file server

`SegDir` has the files of a direction as the writer's host has them.  `SegWriter` is the `segWriter` (seglog.go) with
what of them has been synced: on a network file system an append arms one timer, and the callback `timedFlush` syncs the
segment that is current by then; `roll` and `close` sync what they leave, `syncNow` what there is; with `Sync` set on a
local one every append syncs.

A callback whose timer has fired waits for `w.mu`, and a `Stop` comes too late for it; it then clears `flushTimer`
though that may hold a timer armed since, so several callbacks can be pending at once.  Times are nanoseconds on the
writer's clock.  Its files are those of `SegDir`: a run of the one is a run of the other (`SegWriter.run_dir`).
-/
namespace Ccb
namespace Fstun

open Machine (run Meets)

variable {crc : List UInt8 → UInt32}

/-- The size of a file. -/
def SegDir.fileLen (d : SegDir) (ino : Nat) : Nat := ((d.files[ino]?).getD []).length

/-- What is synced after a `Sync` of the open file; one that fails, or is made on a closed file, changes nothing. -/
def SegDir.syncs (d : SegDir) (synced : Nat → Nat) (ok : Bool) : Nat → Nat :=
  match d.f with
  | some ino => if ok = true ∧ d.closed = false then fun i => if i = ino then d.fileLen ino else synced i else synced
  | none     => synced

/-- A callback of `time.AfterFunc` that has not run yet: when it is due, and whether its timer has fired. -/
structure Pending where
  id    : Nat
  due   : Nat
  fired : Bool
  deriving DecidableEq, Repr

/-- The bytes an append has put into a file, as the size it left it with, and when. -/
structure SyncMark where
  ino  : Nat
  len  : Nat
  time : Nat
  deriving DecidableEq, Repr

/-- `synced` is how much of each file has been synced, `armed` how many timers have been made; `marks` is a history. -/
structure SegWriter where
  dir        : SegDir
  netFS      : Bool
  syncEnb    : Bool
  flushIv    : Nat
  now        : Nat := 0
  flushTimer : Option Nat := none
  pending    : List Pending := []
  armed      : Nat := 0
  synced     : Nat → Nat := fun _ => 0
  marks      : List SyncMark := []

/-- What the file operations of an append find, the two `Sync` calls included. -/
structure FlushIo extends SegIo where
  syncRoll : Bool := true
  syncTail : Bool := true
  deriving DecidableEq, Repr

section
variable (crc) (w : SegWriter)

/-- `w.f.Sync()`, whose error nobody looks at. -/
def SegWriter.sync (ok : Bool) : SegWriter := { w with synced := w.dir.syncs w.synced ok }

def SegWriter.armFlushLocked : SegWriter :=
  match w.flushTimer with
  | none   =>
    { w with flushTimer := some w.armed, armed := w.armed + 1,
             pending := w.pending ++ [⟨w.armed, w.now + w.flushIv, false⟩] }
  | some _ => w

/-- `w.flushTimer.Stop()`, and the timer is forgotten. -/
def SegWriter.stopFlush : SegWriter :=
  match w.flushTimer with
  | some id => { w with flushTimer := none, pending := w.pending.filter (fun p => p.id != id || p.fired) }
  | none    => w

/-- The callback `id` runs. -/
def SegWriter.timedFlush (id : Nat) (ok : Bool) : SegWriter :=
  ({ w with flushTimer := none, pending := w.pending.filter (fun p => p.id != id) } : SegWriter).sync ok

def SegWriter.roll (io : FlushIo) (dataEnd : UInt64) : SegWriter × Bool :=
  match w.dir.write ((rollFrame (w.dir.cur + 1)).encode crc) io.rollFails with
  | (d, false) => ({ w with dir := d }, false)
  | (d, true)  =>
    let w := if w.netFS || w.syncEnb then ({ w with dir := d } : SegWriter).sync io.syncRoll else { w with dir := d }
    let r := SegDir.openCur { d with f := none, reapOff := d.reapOff ++ [⟨d.cur, dataEnd⟩], cur := d.cur + 1 } io.openOk
    ({ w with dir := r.1 }, r.2)

/-- The write of the frame itself, and what follows it. -/
def SegWriter.put (io : FlushIo) (f : Frame) : SegWriter × Bool :=
  match w.dir.put crc io.toSegIo f with
  | (d, false) => ({ w with dir := d }, false)
  | (d, true)  =>
    let w := { w with dir := d, marks := w.marks ++ d.f.toList.map (fun ino => SyncMark.mk ino (d.fileLen ino) w.now) }
    (if w.netFS then w.armFlushLocked else if w.syncEnb then w.sync io.syncTail else w, true)

def SegWriter.append (io : FlushIo) (f : Frame) (dataEnd : UInt64) : SegWriter × Bool :=
  if w.dir.closed then (w, false)
  else if w.dir.rolls crc f then
    match w.roll crc io dataEnd with
    | (w, true)  => w.put crc io f
    | (w, false) => (w, false)
  else w.put crc io f

def SegWriter.syncNow (ok : Bool) : SegWriter := w.stopFlush.sync ok

def SegWriter.close (ok : Bool) : SegWriter :=
  if w.dir.closed then w
  else
    let w := w.stopFlush
    let w := if w.netFS || w.syncEnb then w.sync ok else w
    { w with dir := { w.dir with closed := true } }

/-! ## Steps -/

inductive FlushLabel where
  | append (io : FlushIo) (f : Frame) (dataEnd : UInt64)
  | reap (acked : UInt64)
  | syncNow (ok : Bool)
  | close (ok : Bool)
  /-- A timer fires: its callback is started. -/
  | fire (id : Nat)
  /-- A started callback gets `w.mu`. -/
  | flush (id : Nat) (ok : Bool)
  | tick (n : Nat)
  deriving DecidableEq, Repr

def SegWriter.step : FlushLabel → Option SegWriter
  | .append io f dataEnd => some (w.append crc io f dataEnd).1
  | .reap acked => some { w with dir := w.dir.reap acked }
  | .syncNow ok => some (w.syncNow ok)
  | .close ok => some (w.close ok)
  | .fire id =>
    if w.pending.any (fun p => p.id == id && decide (p.due ≤ w.now)) then
      some { w with pending := w.pending.map (fun p => if p.id = id then { p with fired := true } else p) }
    else none
  | .flush id ok => if w.pending.any (fun p => p.id == id && p.fired) then some (w.timedFlush id ok) else none
  | .tick n => some { w with now := w.now + n }

end

/-! ## The files are those of `SegDir` -/

section
variable {w : SegWriter}

theorem SegWriter.armFlushLocked_dir : w.armFlushLocked.dir = w.dir := by
  unfold SegWriter.armFlushLocked
  split <;> rfl

theorem SegWriter.put_dir (io : FlushIo) (f : Frame) :
    ((w.put crc io f).1.dir, (w.put crc io f).2) = w.dir.put crc io.toSegIo f := by
  unfold SegWriter.put
  split
  · rename_i d h
    rw [h]
  · rename_i d h
    rw [h]
    dsimp only
    split
    · rw [SegWriter.armFlushLocked_dir]
    · split <;> rfl

theorem SegWriter.roll_dir (io : FlushIo) (dataEnd : UInt64) :
    ((w.roll crc io dataEnd).1.dir, (w.roll crc io dataEnd).2) = w.dir.roll crc io.toSegIo dataEnd := by
  unfold SegWriter.roll SegDir.roll
  obtain ⟨d, failed⟩ := w.dir.write ((rollFrame (w.dir.cur + 1)).encode crc) io.rollFails
  cases failed <;> rfl

/-- **What an append does to the files is what it does in `SegDir`**, whenever and whatever is synced. -/
theorem SegWriter.append_dir (io : FlushIo) (f : Frame) (dataEnd : UInt64) :
    ((w.append crc io f dataEnd).1.dir, (w.append crc io f dataEnd).2) = w.dir.append crc io.toSegIo f dataEnd := by
  unfold SegWriter.append SegDir.append
  split
  · rfl
  · split
    · have hroll : (_, _) = w.dir.roll crc io.toSegIo dataEnd := SegWriter.roll_dir io dataEnd
      split
      · rename_i w' h
        rw [h] at hroll
        rw [← hroll]
        exact SegWriter.put_dir io f
      · rename_i w' h
        rw [h] at hroll
        rw [← hroll]
    · exact SegWriter.put_dir io f

theorem SegWriter.stopFlush_eq (w : SegWriter) :
    ∃ ps, w.stopFlush = { w with flushTimer := none, pending := ps } ∧ ∀ p ∈ ps, p ∈ w.pending := by
  unfold SegWriter.stopFlush
  split
  · exact ⟨_, rfl, fun p hp => (List.mem_filter.1 hp).1⟩
  · rename_i h
    exact ⟨w.pending, by rw [← h], fun p hp => hp⟩

/-- A step leaves the files alone, or is a call of the transport. -/
theorem SegWriter.step_dir {w' : SegWriter} {l : FlushLabel} (h : w.step crc l = some w') :
    w'.dir = w.dir ∨ ∃ io x, x.reads = false ∧ w.dir.perform crc io x = some w'.dir := by
  cases l with
  | append io f dataEnd =>
    cases h
    have hd : (_, _) = w.dir.append crc io.toSegIo f dataEnd := SegWriter.append_dir io f dataEnd
    refine .inr ⟨io.toSegIo, .append f dataEnd (w.append crc io f dataEnd).2, rfl, ?_⟩
    rw [SegDir.perform, ← hd]
    exact if_pos rfl
  | reap acked =>
    cases h
    exact .inr ⟨{}, .reap acked, rfl, rfl⟩
  | syncNow ok =>
    cases h
    obtain ⟨ps, hps, -⟩ := w.stopFlush_eq
    exact .inl (by rw [SegWriter.syncNow, SegWriter.sync, hps])
  | close ok =>
    cases h
    obtain ⟨ps, hps, -⟩ := w.stopFlush_eq
    unfold SegWriter.close
    rw [hps]
    split
    · exact .inl rfl
    · refine .inr ⟨{}, .closeW, rfl, ?_⟩
      dsimp only
      split <;> rfl
  | fire id =>
    obtain ⟨-, hw⟩ := Option.ite_none_right_eq_some.1 h
    cases hw
    exact .inl rfl
  | flush id ok =>
    obtain ⟨-, hw⟩ := Option.ite_none_right_eq_some.1 h
    cases hw
    exact .inl rfl
  | tick n =>
    cases h
    exact .inl rfl

/-- **Every run of the writer is a run of the transport's writing calls**: syncing changes no file. -/
theorem SegWriter.run_dir : ∀ (ls : List FlushLabel) {w w' : SegWriter}, run (SegWriter.step crc) w ls = some w' →
    ∃ xs : List (SegIo × Call), (∀ p ∈ xs, p.2.reads = false) ∧
      run (fun d p => SegDir.perform crc d p.1 p.2) w.dir xs = some w'.dir
  | [], _, _, h => by
    cases h
    exact ⟨[], by simp, rfl⟩
  | l :: ls, w, w', h => by
    obtain ⟨u, hu, hr⟩ := Machine.run_cons h
    obtain ⟨xs, hxs, hrun⟩ := SegWriter.run_dir ls hr
    rcases SegWriter.step_dir hu with hd | ⟨io, x, hx, hd⟩
    · exact ⟨xs, hxs, hd ▸ hrun⟩
    · refine ⟨(io, x) :: xs, List.forall_mem_cons.2 ⟨hx, hxs⟩, ?_⟩
      rw [run, hd]
      exact hrun

end

/-! ## Sizes -/

section
variable {d : SegDir}

theorem SegDir.fileLen_modify (d : SegDir) (ino i : Nat) (b : List UInt8) :
    d.fileLen i ≤ ({ d with files := d.files.modify ino (· ++ b) } : SegDir).fileLen i ∧
      (i ≠ ino → ({ d with files := d.files.modify ino (· ++ b) } : SegDir).fileLen i = d.fileLen i) := by
  show d.fileLen i ≤ (((d.files.modify ino (· ++ b))[i]?).getD []).length ∧
    (i ≠ ino → (((d.files.modify ino (· ++ b))[i]?).getD []).length = d.fileLen i)
  unfold SegDir.fileLen
  rw [List.getElem?_modify]
  cases d.files[i]? with
  | none => exact ⟨Nat.le_refl _, fun _ => rfl⟩
  | some l =>
    by_cases h : ino = i
    · exact ⟨by simp [h], fun hne => absurd h.symm hne⟩
    · simp [h]

/-- A write makes the open file larger, and leaves the others. -/
theorem SegDir.write_spec (d : SegDir) (b : List UInt8) (fails : Option Nat) :
    (d.write b fails).1.f = d.f ∧ (d.write b fails).1.closed = d.closed ∧
      ∀ i, d.fileLen i ≤ (d.write b fails).1.fileLen i ∧
        (d.f ≠ some i → (d.write b fails).1.fileLen i = d.fileLen i) := by
  unfold SegDir.write
  split
  · rename_i hf
    exact ⟨rfl, rfl, fun i => ⟨Nat.le_refl _, fun _ => rfl⟩⟩
  · rename_i ino hf
    split
    · refine ⟨rfl, rfl,
        fun i => ⟨(d.fileLen_modify ino i b).1, fun hne => (d.fileLen_modify ino i b).2 fun h => hne ?_⟩⟩
      rw [hf, h]
    · rename_i n
      refine ⟨rfl, rfl,
        fun i => ⟨(d.fileLen_modify ino i (b.take n)).1, fun hne => (d.fileLen_modify ino i (b.take n)).2
        fun h => hne ?_⟩⟩
      rw [hf, h]

/-- A segment that is opened has the size it had, none if it is new. -/
theorem SegDir.openCur_spec (d : SegDir) (ok : Bool) :
    (d.openCur ok).1.closed = d.closed ∧ ∀ i, (d.openCur ok).1.fileLen i = d.fileLen i := by
  unfold SegDir.openCur
  split
  · split
    · exact ⟨rfl, fun i => rfl⟩
    · refine ⟨rfl, fun i => ?_⟩
      show (((d.files ++ [[]])[i]?).getD []).length = ((d.files[i]?).getD []).length
      rw [List.getElem?_append]
      split
      · rfl
      · rename_i hi
        rw [List.getElem?_eq_none (Nat.le_of_not_lt hi)]
        cases hn : ([[]] : List (List UInt8))[i - d.files.length]? with
        | none => rfl
        | some l =>
          have hl := List.mem_of_getElem? hn
          rw [List.mem_singleton] at hl
          rw [hl]
          rfl
  · exact ⟨rfl, fun i => rfl⟩

end

/-! ## What is synced -/

/-- Every `Sync` succeeds. -/
def FlushLabel.Syncs : FlushLabel → Prop
  | .append io _ _ => io.syncRoll = true ∧ io.syncTail = true
  | .syncNow ok | .close ok | .flush _ ok => ok = true
  | .reap _ | .fire _ | .tick _ => True

instance : ∀ l : FlushLabel, Decidable l.Syncs
  | .append _ _ _ => inferInstanceAs (Decidable (_ ∧ _))
  | .syncNow _ | .close _ | .flush _ _ => inferInstanceAs (Decidable (_ = _))
  | .reap _ | .fire _ | .tick _ => .isTrue trivial

section
variable {d d' : SegDir} {synced : Nat → Nat}

theorem SegDir.syncs_self {i : Nat} (hf : d.f = some i) (hcl : d.closed = false) :
    d.syncs synced true i = d.fileLen i := by
  unfold SegDir.syncs
  rw [hf]
  simp [hcl]

theorem SegDir.syncs_of_ne {i : Nat} {ok : Bool} (h : d.f ≠ some i ∨ d.closed = true) :
    d.syncs synced ok i = synced i := by
  unfold SegDir.syncs
  cases hf : d.f with
  | none => rfl
  | some ino =>
    dsimp only
    split
    · rename_i hc
      refine if_neg fun hi => ?_
      rcases h with h | h
      · exact h (by rw [hf, hi])
      · rw [h] at hc
        cases hc.2
    · rfl

/-- The directory after a write that leaves the same file open. -/
structure SegDir.Grown (d d' : SegDir) : Prop where
  f      : d'.f = d.f
  closed : d'.closed = d.closed
  le     : ∀ i, d.fileLen i ≤ d'.fileLen i
  others : ∀ i, d.f ≠ some i → d'.fileLen i = d.fileLen i

theorem SegDir.Grown.of_write (d : SegDir) (b : List UInt8) (fails : Option Nat) : d.Grown (d.write b fails).1 := by
  obtain ⟨hf, hcl, hlen⟩ := d.write_spec b fails
  exact ⟨hf, hcl, fun i => (hlen i).1, fun i => (hlen i).2⟩

/-- The write of a frame, as it leaves the files. -/
theorem SegDir.Grown.of_put (d : SegDir) (io : SegIo) (f : Frame) : d.Grown (d.put crc io f).1 := by
  have h := SegDir.Grown.of_write d (f.encode crc) io.fails
  unfold SegDir.put
  split
  · rename_i d' hw
    rw [hw] at h
    exact ⟨h.f, h.closed, h.le, h.others⟩
  · rename_i d' hw
    rw [hw] at h
    exact h

end

/-- Every file but the open one is synced to its end, and what an append put into a file is there. -/
structure SegWriter.Stored (w : SegWriter) : Prop where
  mode   : (w.netFS || w.syncEnb) = true
  le     : ∀ i, w.synced i ≤ w.dir.fileLen i
  left   : ∀ i, w.dir.f ≠ some i ∨ w.dir.closed = true → w.synced i = w.dir.fileLen i
  marked : ∀ m ∈ w.marks, m.len ≤ w.dir.fileLen m.ino

/-- **What is synced and what is still to be**: what an append put into the open file is synced or, on a network file
system, waited for by a callback due no later than the flush interval after it. -/
structure SegWriter.Durable (w : SegWriter) : Prop extends w.Stored where
  timer  : ∀ id, w.flushTimer = some id → ∃ p ∈ w.pending, p.due ≤ w.now + w.flushIv
  cover  : ∀ m ∈ w.marks, m.len ≤ w.synced m.ino ∨ (w.netFS = true ∧ ∃ p ∈ w.pending, p.due ≤ m.time + w.flushIv)

section
variable {w w' : SegWriter} {d : SegDir}

/-- A write that leaves the same file open, and what an append notes of it. -/
theorem SegWriter.Stored.grow (h : w.Stored) (hd : w.dir.Grown d) (hcl : w.dir.closed = false) (ms : List SyncMark)
    (hms : ∀ m ∈ ms, m.len ≤ d.fileLen m.ino) : ({ w with dir := d, marks := w.marks ++ ms } : SegWriter).Stored := by
  refine ⟨h.mode, fun i => Nat.le_trans (h.le i) (hd.le i), fun i hi => ?_, fun m hm => ?_⟩
  · rcases hi with hi | hi
    · have hne : w.dir.f ≠ some i := fun he => hi (hd.f.trans he)
      show w.synced i = d.fileLen i
      rw [hd.others i hne]
      exact h.left i (Or.inl hne)
    · rw [show d.closed = w.dir.closed from hd.closed, hcl] at hi
      cases hi
  · rcases List.mem_append.1 hm with hm | hm
    · exact Nat.le_trans (h.marked m hm) (hd.le _)
    · exact hms m hm

theorem SegWriter.Durable.grow (h : w.Durable) (hd : w.dir.Grown d) (hcl : w.dir.closed = false) :
    ({ w with dir := d } : SegWriter).Durable := by
  have hst := h.toStored.grow hd hcl [] (fun m hm => by cases hm)
  rw [List.append_nil] at hst
  exact ⟨hst, h.timer, h.cover⟩

/-- After a `Sync` of the open file everything is synced. -/
theorem SegWriter.Stored.sync_all (h : w.Stored) (i : Nat) : w.dir.syncs w.synced true i = w.dir.fileLen i := by
  by_cases hi : w.dir.f ≠ some i ∨ w.dir.closed = true
  · rw [SegDir.syncs_of_ne hi]
    exact h.left i hi
  · rw [not_or, Bool.not_eq_true] at hi
    exact SegDir.syncs_self (Classical.not_not.1 hi.1) hi.2

/-- **Once everything is synced** it does not matter which file is open next, or what becomes of the callbacks. -/
theorem SegWriter.Stored.synced (h : w.Stored) (hmode : w'.netFS = w.netFS ∧ w'.syncEnb = w.syncEnb)
    (hdir : ∀ i, w'.dir.fileLen i = w.dir.fileLen i) (hsync : w'.synced = w.dir.syncs w.synced true)
    (hmarks : w'.marks = w.marks)
    (htimer : ∀ id, w'.flushTimer = some id → ∃ p ∈ w'.pending, p.due ≤ w'.now + w'.flushIv) : w'.Durable := by
  have hall : ∀ i, w'.synced i = w'.dir.fileLen i := by
    intro i
    rw [hsync, hdir, h.sync_all]
  have hmarked : ∀ m ∈ w'.marks, m.len ≤ w'.dir.fileLen m.ino := by
    intro m hm
    rw [hmarks] at hm
    rw [hdir]
    exact h.marked m hm
  refine ⟨⟨?_, fun i => Nat.le_of_eq (hall i), fun i _ => hall i, hmarked⟩, htimer, fun m hm => Or.inl ?_⟩
  · rw [hmode.1, hmode.2]
    exact h.mode
  · rw [hall]
    exact hmarked m hm

/-- Arming a timer, or finding one armed: a callback is due within the flush interval. -/
theorem SegWriter.armFlushLocked_spec (w : SegWriter)
    (h : ∀ id, w.flushTimer = some id → ∃ p ∈ w.pending, p.due ≤ w.now + w.flushIv) :
    w.armFlushLocked.synced = w.synced ∧ w.armFlushLocked.marks = w.marks ∧ w.armFlushLocked.netFS = w.netFS ∧
      w.armFlushLocked.syncEnb = w.syncEnb ∧ w.armFlushLocked.now = w.now ∧ w.armFlushLocked.flushIv = w.flushIv ∧
      (∀ p ∈ w.pending, p ∈ w.armFlushLocked.pending) ∧
      ∃ p ∈ w.armFlushLocked.pending, p.due ≤ w.now + w.flushIv := by
  unfold SegWriter.armFlushLocked
  split
  · exact ⟨rfl, rfl, rfl, rfl, rfl, rfl, fun p hp => List.mem_append_left _ hp,
      _, List.mem_append_right _ (List.mem_singleton.2 rfl), Nat.le_refl _⟩
  · rename_i id hid
    exact ⟨rfl, rfl, rfl, rfl, rfl, rfl, fun p hp => hp, h id hid⟩

theorem SegWriter.Durable.put {io : FlushIo} {f : Frame} (h : w.Durable) (hcl : w.dir.closed = false)
    (hio : io.syncTail = true) : (w.put crc io f).1.Durable := by
  have hgrown : w.dir.Grown (w.dir.put crc io.toSegIo f).1 := .of_put w.dir io.toSegIo f
  unfold SegWriter.put
  split
  · rename_i d hd
    rw [hd] at hgrown
    exact h.grow hgrown hcl
  · rename_i d hd
    rw [hd] at hgrown
    have hms : ∀ m ∈ d.f.toList.map (fun ino => SyncMark.mk ino (d.fileLen ino) w.now), m.len ≤ d.fileLen m.ino := by
      intro m hm
      obtain ⟨ino, -, rfl⟩ := List.mem_map.1 hm
      exact Nat.le_refl _
    have hst := h.toStored.grow hgrown hcl _ hms
    dsimp only
    split
    · rename_i hnet
      obtain ⟨hs, hm, hn, he, hnow, hiv, hmem, p, hp, hdue⟩ := SegWriter.armFlushLocked_spec
        { w with
          dir := d, marks := w.marks ++ d.f.toList.map (fun ino => SyncMark.mk ino (d.fileLen ino) w.now) } h.timer
      refine ⟨⟨?_, ?_, ?_, ?_⟩, ?_, ?_⟩
      · rw [hn, he]; exact hst.mode
      · rw [hs, SegWriter.armFlushLocked_dir]; exact hst.le
      · rw [hs, SegWriter.armFlushLocked_dir]; exact hst.left
      · rw [hm, SegWriter.armFlushLocked_dir]; exact hst.marked
      · rw [hnow, hiv]; exact fun _ _ => ⟨p, hp, hdue⟩
      · rw [hs, hm, hn, hiv]
        intro m hmem'
        rcases List.mem_append.1 hmem' with hold | hnew
        · rcases h.cover m hold with hc | ⟨-, q, hq, hqd⟩
          · exact Or.inl hc
          · exact Or.inr ⟨hnet, q, hmem q hq, hqd⟩
        · obtain ⟨ino, -, rfl⟩ := List.mem_map.1 hnew
          exact Or.inr ⟨hnet, p, hp, hdue⟩
    · rename_i hnet
      have henb : w.syncEnb = true := by
        have hmode := h.mode
        rw [Bool.not_eq_true] at hnet
        rw [hnet] at hmode
        exact hmode
      rw [if_pos henb, hio]
      exact hst.synced ⟨rfl, rfl⟩ (fun i => rfl) rfl rfl h.timer

theorem SegWriter.Durable.roll {io : FlushIo} {dataEnd : UInt64} (h : w.Durable) (hcl : w.dir.closed = false)
    (hio : io.syncRoll = true) :
    (w.roll crc io dataEnd).1.Durable ∧ (w.roll crc io dataEnd).1.dir.closed = false := by
  have hgrown := SegDir.Grown.of_write w.dir ((rollFrame (w.dir.cur + 1)).encode crc) io.rollFails
  unfold SegWriter.roll
  split
  · rename_i d hd
    rw [hd] at hgrown
    exact ⟨h.grow hgrown hcl, hgrown.closed.trans hcl⟩
  · rename_i d hd
    rw [hd] at hgrown
    obtain ⟨hopen, hlen⟩ :=
      SegDir.openCur_spec { d with f := none, reapOff := d.reapOff ++ [⟨d.cur, dataEnd⟩], cur := d.cur + 1 } io.openOk
    dsimp only
    rw [if_pos h.mode, hio]
    refine ⟨(h.grow hgrown hcl).toStored.synced ⟨rfl, rfl⟩ (fun i => hlen i) rfl rfl h.timer, ?_⟩
    exact hopen.trans (hgrown.closed.trans hcl)

theorem SegWriter.Durable.append {io : FlushIo} {f : Frame} {dataEnd : UInt64} (h : w.Durable)
    (hio : io.syncRoll = true ∧ io.syncTail = true) : (w.append crc io f dataEnd).1.Durable := by
  unfold SegWriter.append
  split
  · exact h
  · rename_i hcl
    rw [Bool.not_eq_true] at hcl
    split
    · have hrolled : (w.roll crc io dataEnd).1.Durable ∧ _ := h.roll hcl hio.1
      obtain ⟨hroll, hcl'⟩ := hrolled
      split
      · rename_i w' hw
        rw [hw] at hroll hcl'
        exact hroll.put hcl' hio.2
      · rename_i w' hw
        rw [hw] at hroll
        exact hroll
    · exact h.put hcl hio.2

theorem SegWriter.Durable.step {l : FlushLabel} (h : w.Durable) (hl : l.Syncs) (hs : w.step crc l = some w') :
    w'.Durable := by
  cases l with
  | append io f dataEnd =>
    cases hs
    exact h.append hl
  | reap acked =>
    cases hs
    exact ⟨⟨h.mode, h.le, h.left, h.marked⟩, h.timer, h.cover⟩
  | syncNow ok =>
    cases hs
    obtain ⟨ps, hps, -⟩ := w.stopFlush_eq
    unfold SegWriter.syncNow
    rw [hps, show ok = true from hl]
    exact h.toStored.synced ⟨rfl, rfl⟩ (fun i => rfl) rfl rfl (fun id hid => by cases hid)
  | close ok =>
    cases hs
    obtain ⟨ps, hps, -⟩ := w.stopFlush_eq
    unfold SegWriter.close
    rw [hps, show ok = true from hl]
    split
    · exact h
    · dsimp only
      rw [if_pos h.mode]
      exact h.toStored.synced ⟨rfl, rfl⟩ (fun i => rfl) rfl rfl (fun id hid => by cases hid)
  | fire id =>
    obtain ⟨-, hs⟩ := Option.ite_none_right_eq_some.1 hs
    cases hs
    -- A timer that fires keeps the time it was due.
    have hpend : ∀ {b : Nat}, (∃ p ∈ w.pending, p.due ≤ b) →
        ∃ p ∈ w.pending.map (fun p => if p.id = id then { p with fired := true } else p), p.due ≤ b := by
      intro b hb
      obtain ⟨p, hp, hdue⟩ := hb
      refine ⟨_, List.mem_map.2 ⟨p, hp, rfl⟩, ?_⟩
      split <;> exact hdue
    exact ⟨⟨h.mode, h.le, h.left, h.marked⟩, fun i hi => hpend (h.timer i hi),
      fun m hm => (h.cover m hm).imp_right (fun hc => ⟨hc.1, hpend hc.2⟩)⟩
  | flush id ok =>
    obtain ⟨-, hs⟩ := Option.ite_none_right_eq_some.1 hs
    cases hs
    unfold SegWriter.timedFlush
    rw [show ok = true from hl]
    exact h.toStored.synced ⟨rfl, rfl⟩ (fun i => rfl) rfl rfl (fun id hid => by cases hid)
  | tick n =>
    cases hs
    refine ⟨⟨h.mode, h.le, h.left, h.marked⟩, fun i hi => ?_, h.cover⟩
    obtain ⟨p, hp, hdue⟩ := h.timer i hi
    exact ⟨p, hp, Nat.le_trans hdue (Nat.add_le_add_right (Nat.le_add_right _ _) _)⟩

/-- The clock does not pass the time a callback is due by more than `delay`. -/
def Prompt (delay : Nat) (w : SegWriter) : FlushLabel → Prop
  | .tick n => ∀ p ∈ w.pending, w.now + n ≤ p.due + delay
  | _       => True

instance decidablePrompt (delay : Nat) (w : SegWriter) : ∀ l : FlushLabel, Decidable (Prompt delay w l)
  | .tick _ => inferInstanceAs (Decidable (∀ p ∈ w.pending, _))
  | .append .. | .reap _ | .syncNow _ | .close _ | .fire _ | .flush .. => .isTrue trivial

/-- The callbacks pending after a step that takes no time are those from before it, and perhaps one armed by it. -/
structure SegWriter.Waits (w w' : SegWriter) : Prop where
  now : w'.now = w.now
  iv  : w'.flushIv = w.flushIv
  due : ∀ p ∈ w'.pending, (∃ q ∈ w.pending, q.due = p.due) ∨ w.now ≤ p.due

theorem SegWriter.Waits.of_subset (hnow : w'.now = w.now) (hiv : w'.flushIv = w.flushIv)
    (h : ∀ p ∈ w'.pending, p ∈ w.pending) : w.Waits w' :=
  ⟨hnow, hiv, fun p hp => Or.inl ⟨p, h p hp, rfl⟩⟩

theorem SegWriter.waits_put (io : FlushIo) (f : Frame) : w.Waits (w.put crc io f).1 := by
  unfold SegWriter.put
  split
  · exact .of_subset rfl rfl (fun p hp => hp)
  · dsimp only
    split
    · unfold SegWriter.armFlushLocked
      split
      · refine ⟨rfl, rfl, fun p hp => ?_⟩
        rcases List.mem_append.1 hp with hp | hp
        · exact Or.inl ⟨p, hp, rfl⟩
        · rw [List.mem_singleton.1 hp]
          exact Or.inr (Nat.le_add_right _ _)
      · exact .of_subset rfl rfl (fun p hp => hp)
    · split
      · exact .of_subset rfl rfl (fun p hp => hp)
      · exact .of_subset rfl rfl (fun p hp => hp)

theorem SegWriter.roll_pending (io : FlushIo) (dataEnd : UInt64) :
    (w.roll crc io dataEnd).1.pending = w.pending ∧ (w.roll crc io dataEnd).1.now = w.now ∧
      (w.roll crc io dataEnd).1.flushIv = w.flushIv := by
  unfold SegWriter.roll
  split
  · exact ⟨rfl, rfl, rfl⟩
  · dsimp only
    split <;> exact ⟨rfl, rfl, rfl⟩

theorem SegWriter.waits_append (io : FlushIo) (f : Frame) (dataEnd : UInt64) :
    w.Waits (w.append crc io f dataEnd).1 := by
  unfold SegWriter.append
  split
  · exact .of_subset rfl rfl (fun p hp => hp)
  · split
    · have hroll : (w.roll crc io dataEnd).1.pending = _ ∧ _ := SegWriter.roll_pending io dataEnd
      obtain ⟨hp, hn, hi⟩ := hroll
      split
      · rename_i w' hw
        rw [hw] at hp hn hi
        have hput : w'.Waits (w'.put crc io f).1 := SegWriter.waits_put io f
        obtain ⟨h1, h2, h3⟩ := hput
        refine ⟨h1.trans hn, h2.trans hi, ?_⟩
        rw [← hp, ← hn]
        exact h3
      · rename_i w' hw
        rw [hw] at hp hn hi
        exact .of_subset hn hi (fun p h => hp ▸ h)
    · exact SegWriter.waits_put io f

theorem SegWriter.waits_step {l : FlushLabel} (hl : ∀ n, l ≠ .tick n) (hs : w.step crc l = some w') : w.Waits w' := by
  obtain ⟨ps, hps, hsub⟩ := w.stopFlush_eq
  cases l with
  | append io f dataEnd =>
    cases hs
    exact SegWriter.waits_append io f dataEnd
  | reap acked =>
    cases hs
    exact .of_subset rfl rfl (fun p hp => hp)
  | syncNow ok =>
    cases hs
    unfold SegWriter.syncNow
    rw [hps]
    exact .of_subset rfl rfl hsub
  | close ok =>
    cases hs
    unfold SegWriter.close
    rw [hps]
    split
    · exact .of_subset rfl rfl (fun p hp => hp)
    · dsimp only
      split <;> exact .of_subset rfl rfl hsub
  | fire id =>
    obtain ⟨-, hs⟩ := Option.ite_none_right_eq_some.1 hs
    cases hs
    refine ⟨rfl, rfl, fun p hp => Or.inl ?_⟩
    obtain ⟨q, hq, rfl⟩ := List.mem_map.1 hp
    refine ⟨q, hq, ?_⟩
    split <;> rfl
  | flush id ok =>
    obtain ⟨-, hs⟩ := Option.ite_none_right_eq_some.1 hs
    cases hs
    exact .of_subset rfl rfl (fun p hp => (List.mem_filter.1 hp).1)
  | tick n => exact absurd rfl (hl n)

/-- No callback is overdue by more than `delay`. -/
def SegWriter.OnTime (delay : Nat) (w : SegWriter) : Prop := ∀ p ∈ w.pending, w.now ≤ p.due + delay

theorem SegWriter.OnTime.step {delay : Nat} {l : FlushLabel} (h : w.OnTime delay) (hg : Prompt delay w l)
    (hs : w.step crc l = some w') : w'.OnTime delay := by
  by_cases hl : ∃ n, l = .tick n
  · obtain ⟨n, rfl⟩ := hl
    cases hs
    exact hg
  · have hw := SegWriter.waits_step (fun n hn => hl ⟨n, hn⟩) hs
    intro p hp
    rw [hw.now]
    rcases hw.due p hp with ⟨q, hq, hdue⟩ | hdue
    · rw [← hdue]
      exact h q hq
    · exact Nat.le_trans hdue (Nat.le_add_right _ _)

end

/-- Three appends; the callback of the first gets the lock only after the second, when `syncNow` has forgotten its
timer. -/
def burst : List FlushLabel :=
  [.append {} ⟨frameHeartbeat, 0, 1, 0, []⟩ 0, .tick 5, .fire 0, .syncNow true,
    .append {} ⟨frameHeartbeat, 0, 2, 0, []⟩ 0,
   .flush 0 true, .append {} ⟨frameHeartbeat, 0, 3, 0, []⟩ 0, .tick 5, .fire 1, .fire 2, .flush 2 true, .flush 1 true,
   .tick 1]

end Fstun
end Ccb
