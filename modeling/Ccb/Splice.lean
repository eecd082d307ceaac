import Mathlib.Logic.Function.Basic
import Ccb.Machine
import Ccb.Channel
/-!
# Splice — relayed connections over a chain of brokers

`spliceConns` (proxy.go) relays a connection with two goroutines, one for each direction: `io.Copy` from one end to the
other until a read or a write fails or the stream ends, then `Close` of both.  A tunnel passes a chain of such brokers,
one for each hop of its route: link `0` is the requester's connection, link `n` the target's, and station `k` splices
link `k` to link `k + 1`.

An end of a link is named by the direction it writes, so the requester's end of link `0` is `(0, down)` and a station's
ends are `(k, up)` and `(k + 1, down)`.  A goroutine's `Read` and each part its `Write` hands to the network are steps
of their own; a read or a write may fail at any time, and on an end that has been closed it does nothing else.

Of `Close` the model takes the contract of `net.Conn`: a `Read` or `Write` that waits on the end, or is made later,
returns an error; the peer reads nothing beyond what was written before, and then the end of the stream or an error; and
the second `Close` of a connection, which the other goroutine makes, changes nothing.
-/
namespace Ccb
namespace Splice

open Machine (run Meets)

/-- From the requester to the target, or back. -/
inductive Dir where
  | down
  | up
  deriving DecidableEq, Repr

def Dir.flip : Dir → Dir
  | .down => .up
  | .up   => .down

@[simp] theorem Dir.flip_flip (d : Dir) : d.flip.flip = d := by cases d <;> rfl

theorem Dir.flip_ne (d : Dir) : d.flip ≠ d := by cases d <;> exact fun h => by cases h

theorem Dir.eq_or_flip (e d : Dir) : e = d ∨ e = d.flip := by
  cases e <;> cases d <;> first | exact Or.inl rfl | exact Or.inr rfl

/-- Where a goroutine of `spliceConns` stands: in `io.Copy`, at a read or with bytes still to write, or after it. -/
inductive Pc where
  | read
  | write (buf : List UInt8)
  | closeDst
  | closeSrc
  | done
  deriving DecidableEq, Repr

def Pc.held : Pc → List UInt8
  | .write buf => buf
  | _ => []

/-- `io.Copy` has returned. -/
def Pc.past : Pc → Bool
  | .read | .write _ => false
  | .closeDst | .closeSrc | .done => true

/-- A direction of a link, and the end that writes it. -/
abbrev Key := Nat × Dir

/-- The streams of the links, the ends that have been closed, and the goroutine of each station and direction. -/
structure State where
  chan   : Key → Channel UInt8
  closed : Key → Bool
  pc     : Key → Pc

/-- Every splice begins. -/
def State.start : State := ⟨fun _ => .empty, fun _ => false, fun _ => .read⟩

section
variable (s : State)

def State.setChan (x : Key) (c : Channel UInt8) : State := { s with chan := Function.update s.chan x c }

def State.setPc (x : Key) (p : Pc) : State := { s with pc := Function.update s.pc x p }

/-- `Close` of an end: it writes no more, and the other end comes to the end of the stream. -/
def State.close (x : Key) : State :=
  { s with chan := Function.update s.chan x (s.chan x).finish, closed := Function.update s.closed x true }

end

/-- The link a station's goroutine reads. -/
def srcOf : Dir → Nat → Nat
  | .down, k => k
  | .up, k   => k + 1

/-- The link it writes. -/
def dstOf : Dir → Nat → Nat
  | .down, k => k + 1
  | .up, k   => k

/-- The link of the endpoint that writes a direction, behind `n` stations. -/
def entry (n : Nat) : Dir → Nat
  | .down => 0
  | .up   => n

@[simp] theorem srcOf_flip (d : Dir) (k : Nat) : srcOf d.flip k = dstOf d k := by cases d <;> rfl

@[simp] theorem dstOf_flip (d : Dir) (k : Nat) : dstOf d.flip k = srcOf d k := by cases d <;> rfl

/-! ## Steps -/

inductive Act where
  | read (n : Nat)
  | eof
  | readErr
  | write (n : Nat)
  | writeErr
  | close
  deriving DecidableEq, Repr

/-- A goroutine of `spliceConns`. -/
def copyStep (s : State) (k : Nat) (d : Dir) (a : Act) : Option State :=
  match s.pc (k, d), a with
  | .read, .read n =>
    if s.closed (srcOf d k, d.flip) then none
    else ((s.chan (srcOf d k, d)).pop n).map (fun r => (s.setChan (srcOf d k, d) r.2).setPc (k, d) (.write r.1))
  | .read, .eof =>
    if s.closed (srcOf d k, d.flip) then none
    else ((s.chan (srcOf d k, d)).see).map (fun c => (s.setChan (srcOf d k, d) c).setPc (k, d) .closeDst)
  | .read, .readErr => some (s.setPc (k, d) .closeDst)
  | .write buf, .write n =>
    if s.closed (dstOf d k, d) then none
    else
      ((s.chan (dstOf d k, d)).push (buf.take n)).map (fun c =>
        (s.setChan (dstOf d k, d) c).setPc (k, d) (if buf.length ≤ n then .read else .write (buf.drop n)))
  | .write _, .writeErr => some (s.setPc (k, d) .closeDst)
  | .closeDst, .close => some ((s.close (dstOf d k, d)).setPc (k, d) .closeSrc)
  | .closeSrc, .close => some ((s.close (srcOf d k, d.flip)).setPc (k, d) .done)
  | _, _ => none

/-- What an endpoint does; `shut` ends what it writes and leaves it reading. -/
inductive EndAct where
  | send (bs : List UInt8)
  | recv (n : Nat)
  | recvEOF
  | shut
  | close
  deriving DecidableEq, Repr

/-- The endpoint that writes `d`. -/
def endStep (n : Nat) (s : State) (d : Dir) (a : EndAct) : Option State :=
  match a with
  | .close => some (s.close (entry n d, d))
  | .send bs =>
    if s.closed (entry n d, d) then none
    else ((s.chan (entry n d, d)).push bs).map (s.setChan (entry n d, d))
  | .recv m =>
    if s.closed (entry n d, d) then none
    else ((s.chan (entry n d, d.flip)).pop m).map (fun r => s.setChan (entry n d, d.flip) r.2)
  | .recvEOF =>
    if s.closed (entry n d, d) then none
    else ((s.chan (entry n d, d.flip)).see).map (s.setChan (entry n d, d.flip))
  | .shut =>
    if s.closed (entry n d, d) then none
    else some (s.setChan (entry n d, d) (s.chan (entry n d, d)).finish)

inductive Label where
  | copy (k : Nat) (d : Dir) (a : Act)
  | peer (d : Dir) (a : EndAct)
  deriving DecidableEq, Repr

def step (n : Nat) (s : State) : Label → Option State
  | .copy k d a => if k < n then copyStep s k d a else none
  | .peer d a   => endStep n s d a

/-- **What a goroutine can do.** -/
inductive Copied (s : State) (k : Nat) (d : Dir) : Act → State → Prop
  | read {n : Nat} {bs : List UInt8} {c : Channel UInt8} : s.pc (k, d) = .read → s.closed (srcOf d k, d.flip) = false →
      (s.chan (srcOf d k, d)).pop n = some (bs, c) →
      Copied s k d (.read n) ((s.setChan (srcOf d k, d) c).setPc (k, d) (.write bs))
  | eof {c : Channel UInt8} : s.pc (k, d) = .read → s.closed (srcOf d k, d.flip) = false →
      (s.chan (srcOf d k, d)).see = some c →
      Copied s k d .eof ((s.setChan (srcOf d k, d) c).setPc (k, d) .closeDst)
  | readErr : s.pc (k, d) = .read → Copied s k d .readErr (s.setPc (k, d) .closeDst)
  | write {n : Nat} {buf : List UInt8} {c : Channel UInt8} : s.pc (k, d) = .write buf →
      s.closed (dstOf d k, d) = false → (s.chan (dstOf d k, d)).push (buf.take n) = some c →
      Copied s k d (.write n) ((s.setChan (dstOf d k, d) c).setPc (k, d)
        (if buf.length ≤ n then .read else .write (buf.drop n)))
  | writeErr {buf : List UInt8} : s.pc (k, d) = .write buf → Copied s k d .writeErr (s.setPc (k, d) .closeDst)
  | closeDst : s.pc (k, d) = .closeDst → Copied s k d .close ((s.close (dstOf d k, d)).setPc (k, d) .closeSrc)
  | closeSrc : s.pc (k, d) = .closeSrc → Copied s k d .close ((s.close (srcOf d k, d.flip)).setPc (k, d) .done)

theorem copyStep_some {s t : State} {k : Nat} {d : Dir} {a : Act} (h : copyStep s k d a = some t) :
    Copied s k d a t := by
  unfold copyStep at h
  split at h
  · rename_i hpc
    obtain ⟨hcl, h⟩ := Option.ite_none_left_eq_some.1 h
    obtain ⟨⟨bs, c⟩, hpop, rfl⟩ := Option.map_eq_some_iff.1 h
    exact .read hpc (Bool.not_eq_true _ ▸ hcl) hpop
  · rename_i hpc
    obtain ⟨hcl, h⟩ := Option.ite_none_left_eq_some.1 h
    obtain ⟨c, hsee, rfl⟩ := Option.map_eq_some_iff.1 h
    exact .eof hpc (Bool.not_eq_true _ ▸ hcl) hsee
  · cases h
    exact .readErr ‹_›
  · rename_i hpc
    obtain ⟨hcl, h⟩ := Option.ite_none_left_eq_some.1 h
    obtain ⟨c, hpush, rfl⟩ := Option.map_eq_some_iff.1 h
    exact .write hpc (Bool.not_eq_true _ ▸ hcl) hpush
  · cases h
    exact .writeErr ‹_›
  · cases h
    exact .closeDst ‹_›
  · cases h
    exact .closeSrc ‹_›
  · cases h

/-- **What an endpoint can do**: put bytes in, take some out, see the end, or end what it writes, closing its end or
not. -/
inductive Peered (n : Nat) (s : State) (d : Dir) : EndAct → State → Prop
  | send {bs : List UInt8} {c : Channel UInt8} : (s.chan (entry n d, d)).push bs = some c →
      Peered n s d (.send bs) (s.setChan (entry n d, d) c)
  | recv {m : Nat} {bs : List UInt8} {c : Channel UInt8} : (s.chan (entry n d, d.flip)).pop m = some (bs, c) →
      Peered n s d (.recv m) (s.setChan (entry n d, d.flip) c)
  | recvEOF {c : Channel UInt8} : (s.chan (entry n d, d.flip)).see = some c →
      Peered n s d .recvEOF (s.setChan (entry n d, d.flip) c)
  | shut : Peered n s d .shut (s.setChan (entry n d, d) (s.chan (entry n d, d)).finish)
  | close : Peered n s d .close (s.close (entry n d, d))

theorem endStep_some {n : Nat} {s t : State} {d : Dir} {a : EndAct} (h : endStep n s d a = some t) :
    Peered n s d a t := by
  unfold endStep at h
  cases a with
  | close => cases h; exact .close
  | send bs =>
    obtain ⟨c, hc, rfl⟩ := Option.map_eq_some_iff.1 (Option.ite_none_left_eq_some.1 h).2
    exact .send hc
  | recv m =>
    obtain ⟨⟨bs, c⟩, hc, rfl⟩ := Option.map_eq_some_iff.1 (Option.ite_none_left_eq_some.1 h).2
    exact .recv hc
  | recvEOF =>
    obtain ⟨c, hc, rfl⟩ := Option.map_eq_some_iff.1 (Option.ite_none_left_eq_some.1 h).2
    exact .recvEOF hc
  | shut =>
    cases (Option.ite_none_left_eq_some.1 h).2
    exact .shut

/-! ## What a step leaves alone -/

section
variable {n k : Nat} {d : Dir} {s t : State} {x y : Key} {c : Channel UInt8}

theorem srcOf_ne_dstOf (d : Dir) (k : Nat) : srcOf d k ≠ dstOf d k := by
  cases d <;> simp [srcOf, dstOf]

theorem dstOf_ne_entry (hk : k < n) : dstOf d k ≠ entry n d := by
  cases d <;> simp only [dstOf, entry] <;> omega

theorem srcOf_ne_entry (hk : k < n) : srcOf d k ≠ entry n d.flip := by
  cases d <;> simp only [srcOf, entry, Dir.flip] <;> omega

theorem srcOf_inj {j : Nat} (h : srcOf d j = srcOf d k) : j = k := by
  cases d <;> simpa [srcOf] using h

theorem dstOf_inj {j : Nat} (h : dstOf d j = dstOf d k) : j = k := by
  cases d <;> simpa [dstOf] using h

theorem chan_setChan_of_ne (h : y ≠ x) : (s.setChan x c).chan y = s.chan y := Function.update_of_ne h _ _

theorem chan_setChan_self : (s.setChan x c).chan x = c := Function.update_self _ _ _

/-- A stream that has the same bytes in it. -/
theorem put_setChan (h : c.put = (s.chan x).put) (y : Key) : ((s.setChan x c).chan y).put = (s.chan y).put := by
  by_cases hy : y = x
  · rw [hy, chan_setChan_self, h]
  · rw [chan_setChan_of_ne hy]

theorem taken_setChan (h : c.taken = (s.chan x).taken) (y : Key) :
    ((s.setChan x c).chan y).taken = (s.chan y).taken := by
  by_cases hy : y = x
  · rw [hy, chan_setChan_self, h]
  · rw [chan_setChan_of_ne hy]

theorem put_close (s : State) (x y : Key) : ((s.close x).chan y).put = (s.chan y).put :=
  put_setChan (s := s) (c := (s.chan x).finish) rfl y

theorem taken_close (s : State) (x y : Key) : ((s.close x).chan y).taken = (s.chan y).taken :=
  taken_setChan (s := s) (c := (s.chan x).finish) rfl y

/-- A goroutine puts bytes into its destination only. -/
theorem Copied.put {a : Act} (h : Copied s k d a t) (hx : x ≠ (dstOf d k, d)) : (t.chan x).put = (s.chan x).put := by
  cases h with
  | read _ _ hpop => exact put_setChan (Channel.pop_some hpop).2.2.1 x
  | eof _ _ hsee => exact put_setChan (Channel.see_some hsee).2.2.1 x
  | write _ _ hpush => exact congrArg Channel.put (chan_setChan_of_ne hx)
  | closeDst => exact put_close s _ x
  | closeSrc => exact put_close s _ x
  | readErr | writeErr => rfl

/-- It takes bytes out of its source only. -/
theorem Copied.taken {a : Act} (h : Copied s k d a t) (hx : x ≠ (srcOf d k, d)) :
    (t.chan x).taken = (s.chan x).taken := by
  cases h with
  | read _ _ hpop => exact congrArg Channel.taken (chan_setChan_of_ne hx)
  | eof _ _ hsee => exact taken_setChan (Channel.taken_see hsee) x
  | write _ _ hpush => exact taken_setChan (Channel.taken_push hpush) x
  | closeDst => exact taken_close s _ x
  | closeSrc => exact taken_close s _ x
  | readErr | writeErr => rfl

theorem Copied.pc {a : Act} (h : Copied s k d a t) (hx : x ≠ (k, d)) : t.pc x = s.pc x := by
  cases h <;> exact Function.update_of_ne hx _ _

theorem Peered.put {a : EndAct} (h : Peered n s d a t) (hx : x ≠ (entry n d, d)) : (t.chan x).put = (s.chan x).put := by
  cases h with
  | send => exact congrArg Channel.put (chan_setChan_of_ne hx)
  | recv hpop => exact put_setChan (Channel.pop_some hpop).2.2.1 x
  | recvEOF hsee => exact put_setChan (Channel.see_some hsee).2.2.1 x
  | shut => exact congrArg Channel.put (chan_setChan_of_ne hx)
  | close => exact put_close s _ x

theorem Peered.taken {a : EndAct} (h : Peered n s d a t) (hx : x ≠ (entry n d, d.flip)) :
    (t.chan x).taken = (s.chan x).taken := by
  cases h with
  | send hpush => exact taken_setChan (Channel.taken_push hpush) x
  | recv => exact congrArg Channel.taken (chan_setChan_of_ne hx)
  | recvEOF => exact congrArg Channel.taken (chan_setChan_of_ne hx)
  | shut => exact taken_setChan (s := s) (c := (s.chan _).finish) rfl x
  | close => exact taken_close s _ x

theorem Peered.pc {a : EndAct} (h : Peered n s d a t) : t.pc = s.pc := by
  cases h <;> rfl

/-! ## The bytes of a direction -/

/-- **What a station has put into one link and what it has taken from the other**: the same bytes but for those in its
hands, and for what it lost once its `io.Copy` is over. -/
def Relays (s : State) (k : Nat) (d : Dir) : Prop :=
  ∃ lost, (s.chan (dstOf d k, d)).put ++ ((s.pc (k, d)).held ++ lost) = (s.chan (srcOf d k, d)).taken ∧
    ((s.pc (k, d)).past = false → lost = [])

theorem Relays.frame (h : Relays s k d) (hput : (t.chan (dstOf d k, d)).put = (s.chan (dstOf d k, d)).put)
    (htaken : (t.chan (srcOf d k, d)).taken = (s.chan (srcOf d k, d)).taken) (hpc : t.pc (k, d) = s.pc (k, d)) :
    Relays t k d := by
  unfold Relays
  rw [hput, htaken, hpc]
  exact h

theorem dst_ne_src : (dstOf d k, d) ≠ (srcOf d k, d) := fun h => srcOf_ne_dstOf d k (congrArg Prod.fst h).symm

theorem pc_setPc (s : State) (x : Key) (p : Pc) : (s.setPc x p).pc x = p := Function.update_self _ _ _

theorem Relays.copied {a : Act} (h : Relays s k d) (hs : Copied s k d a t) : Relays t k d := by
  obtain ⟨lost, heq, hlost⟩ := h
  cases hs with
  | @read m bs c hpc _ hpop =>
    rw [hpc] at heq hlost
    obtain rfl := hlost rfl
    refine ⟨[], ?_, fun _ => rfl⟩
    show (((s.setChan _ c).chan _).put ++ ((((s.setChan _ c).setPc _ _).pc _).held ++ [])) =
      ((s.setChan _ c).chan _).taken
    rw [chan_setChan_of_ne dst_ne_src, chan_setChan_self, pc_setPc, Channel.taken_pop hpop, ← heq]
    simp [Pc.held]
  | @eof c hpc _ hsee =>
    rw [hpc] at heq hlost
    refine ⟨lost, ?_, fun hp => ?_⟩
    · show (((s.setChan _ c).chan _).put ++ ((((s.setChan _ c).setPc _ _).pc _).held ++ lost)) =
        ((s.setChan _ c).chan _).taken
      rw [chan_setChan_of_ne dst_ne_src, chan_setChan_self, pc_setPc, Channel.taken_see hsee]
      exact heq
    · exact hlost rfl
  | readErr hpc =>
    rw [hpc] at heq hlost
    refine ⟨lost, ?_, fun _ => hlost rfl⟩
    rw [pc_setPc]
    exact heq
  | @write m buf c hpc _ hpush =>
    rw [hpc] at heq hlost
    obtain rfl := hlost rfl
    refine ⟨[], ?_, fun _ => rfl⟩
    show (((s.setChan _ c).chan _).put ++ ((((s.setChan _ c).setPc _ _).pc _).held ++ [])) =
      ((s.setChan _ c).chan _).taken
    rw [chan_setChan_of_ne dst_ne_src.symm, chan_setChan_self, pc_setPc, (Channel.push_some hpush).2.1, ← heq]
    have hsplit : buf.take m ++ (if buf.length ≤ m then Pc.read else Pc.write (buf.drop m)).held = buf := by
      split
      · rename_i hle
        show buf.take m ++ [] = buf
        rw [List.append_nil, List.take_of_length_le hle]
      · exact List.take_append_drop m buf
    rw [List.append_nil, List.append_nil, List.append_assoc, hsplit]
    rfl
  | @writeErr buf hpc =>
    rw [hpc] at heq
    refine ⟨buf ++ lost, ?_, fun hp => ?_⟩
    · rw [pc_setPc]
      exact heq
    · rw [pc_setPc] at hp
      cases hp
  | closeDst hpc | closeSrc hpc =>
    rw [hpc] at heq
    refine ⟨lost, ?_, fun hp => ?_⟩
    · rw [pc_setPc]
      show ((s.close _).chan _).put ++ _ = ((s.close _).chan _).taken
      rw [put_close, taken_close]
      exact heq
    · rw [pc_setPc] at hp
      cases hp

theorem Relays.step {l : Label} (hk : k < n) (h : Relays s k d) (hs : step n s l = some t) : Relays t k d := by
  cases l with
  | copy j e a =>
    have hc := copyStep_some (Option.ite_none_right_eq_some.1 hs).2
    by_cases hx : (k, d) = (j, e)
    · cases hx
      exact h.copied hc
    · -- Another goroutine has another source and another destination.
      refine h.frame (hc.put fun he => hx ?_) (hc.taken fun he => hx ?_) (hc.pc hx)
      · obtain ⟨h1, rfl⟩ := Prod.mk.inj he
        rw [dstOf_inj h1]
      · obtain ⟨h1, rfl⟩ := Prod.mk.inj he
        rw [srcOf_inj h1]
  | peer e a =>
    have hp := endStep_some hs
    refine h.frame (hp.put fun he => ?_) (hp.taken fun he => ?_) (congrFun hp.pc _)
    · obtain ⟨h1, rfl⟩ := Prod.mk.inj he
      exact dstOf_ne_entry hk h1
    · obtain ⟨h1, rfl⟩ := Prod.mk.inj he
      have hne := srcOf_ne_entry (d := e.flip) hk
      rw [Dir.flip_flip] at hne
      exact hne h1

/-- What a station puts into one link begins what has been put into the other. -/
theorem Relays.begins (h : Relays s k d) : (s.chan (dstOf d k, d)).put <+: (s.chan (srcOf d k, d)).put := by
  obtain ⟨lost, heq, -⟩ := h
  have hput : (s.chan (dstOf d k, d)).put <+: (s.chan (srcOf d k, d)).taken := ⟨_, heq⟩
  exact hput.trans (s.chan (srcOf d k, d)).taken_begins

/-! ## The links of a direction, from the endpoint that reads it -/

/-- The `i`-th link. -/
def linkAt (n : Nat) : Dir → Nat → Nat
  | .down, i => n - i
  | .up, i   => i

/-- The station between the `i`-th link and the next. -/
def stationAt (n : Nat) : Dir → Nat → Nat
  | .down, i => n - 1 - i
  | .up, i   => i

theorem stationAt_lt {i : Nat} (h : i < n) : stationAt n d i < n := by
  cases d <;> simp only [stationAt] <;> omega

theorem dstOf_stationAt {i : Nat} (h : i < n) : dstOf d (stationAt n d i) = linkAt n d i := by
  cases d with
  | down => simp only [stationAt, linkAt, dstOf]; omega
  | up => rfl

theorem srcOf_stationAt {i : Nat} (h : i < n) : srcOf d (stationAt n d i) = linkAt n d (i + 1) := by
  cases d with
  | down => simp only [stationAt, linkAt, srcOf]; omega
  | up => rfl

theorem linkAt_zero (n : Nat) (d : Dir) : linkAt n d 0 = entry n d.flip := by cases d <;> rfl

theorem linkAt_all (n : Nat) (d : Dir) : linkAt n d n = entry n d := by
  cases d
  · exact Nat.sub_self n
  · rfl

/-- What the endpoint at the beginning of a direction has written. -/
def State.sent (n : Nat) (s : State) (d : Dir) : List UInt8 := (s.chan (entry n d, d)).put

/-- What the endpoint at its end has read. -/
def State.received (n : Nat) (s : State) (d : Dir) : List UInt8 := (s.chan (entry n d.flip, d)).taken

/-- The bytes on their way over the first `i` links: in the links, and in the hands of the stations between them. -/
def State.transit (n : Nat) (s : State) (d : Dir) : Nat → List UInt8
  | 0     => (s.chan (linkAt n d 0, d)).put.drop (s.chan (linkAt n d 0, d)).got
  | i + 1 =>
    s.transit n d i ++ ((s.pc (stationAt n d i, d)).held ++
      (s.chan (linkAt n d (i + 1), d)).put.drop (s.chan (linkAt n d (i + 1), d)).got)

theorem relays_of_run {ls : List Label} (hr : run (step n) .start ls = some s) (hk : k < n) (d : Dir) : Relays s k d :=
  Machine.inv_of_step (I := fun s => Relays s k d) (fun _ _ _ h hs => h.step hk hs) ls _ s ⟨[], rfl, fun _ => rfl⟩ hr

theorem put_begins (h : ∀ k, k < n → Relays s k d) : ∀ i, i ≤ n →
    (s.chan (linkAt n d 0, d)).put <+: (s.chan (linkAt n d i, d)).put
  | 0, _ => List.prefix_rfl
  | i + 1, hi => by
    have hstep := (h (stationAt n d i) (stationAt_lt hi)).begins
    rw [dstOf_stationAt hi, srcOf_stationAt hi] at hstep
    exact (put_begins h i (Nat.le_of_lt hi)).trans hstep

/-- While the stations copy, nothing is missing on the way. -/
theorem taken_transit (h : ∀ k, k < n → Relays s k d) (hp : ∀ k, k < n → (s.pc (k, d)).past = false) : ∀ i, i ≤ n →
    (s.chan (linkAt n d 0, d)).taken ++ s.transit n d i = (s.chan (linkAt n d i, d)).put
  | 0, _ => List.take_append_drop _ _
  | i + 1, hi => by
    obtain ⟨lost, heq, hlost⟩ := h (stationAt n d i) (stationAt_lt hi)
    rw [hlost (hp _ (stationAt_lt hi)), List.append_nil, dstOf_stationAt hi, srcOf_stationAt hi] at heq
    rw [State.transit, ← List.append_assoc, taken_transit h hp i (Nat.le_of_lt hi), ← List.append_assoc, heq]
    exact List.take_append_drop _ _

/-- **A chain of splices relays in order**: in every run, whatever fails, is closed or half closed, what an endpoint has
read begins what the other has written; and as long as no station has given up a direction, what is missing of it is on
its way. -/
theorem relayed_in_order (n : Nat) (ls : List Label) (s : State) (hr : run (step n) .start ls = some s) (d : Dir) :
    s.received n d <+: s.sent n d ∧
      ((∀ k, k < n → (s.pc (k, d)).past = false) → s.received n d ++ s.transit n d n = s.sent n d) := by
  have hrel : ∀ k, k < n → Relays s k d := fun k hk => relays_of_run hr hk d
  unfold State.received State.sent
  rw [← linkAt_zero, ← linkAt_all]
  constructor
  · exact (s.chan (linkAt n d 0, d)).taken_begins.trans (put_begins hrel n (Nat.le_refl n))
  · exact fun hp => taken_transit hrel hp n (Nat.le_refl n)

/-- Two stations; the requester's three bytes have come one byte far. -/
def relaying : List Label :=
  [.peer .down (.send [1, 2, 3]), .copy 0 .down (.read 2), .copy 0 .down (.write 2), .copy 1 .down (.read 2),
   .copy 1 .down (.write 1), .peer .up (.recv 1)]

theorem relayed_in_order_two :
    (run (step 2) .start relaying).map (fun s => (s.received 2 .down, s.transit 2 .down 2, s.sent 2 .down)) =
        some ([1], [2, 3], [1, 2, 3]) ∧
      ∀ s, run (step 2) .start relaying = some s → s.received 2 .down <+: s.sent 2 .down :=
  ⟨by decide, fun s hs => (relayed_in_order 2 relaying s hs .down).1⟩

end

end Splice
end Ccb
