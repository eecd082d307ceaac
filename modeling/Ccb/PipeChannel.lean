import Ccb.Channel
import Ccb.EndOfStream
import Ccb.Fidelity
/-!
# PipeChannel — a direction of a pipe is a channel

What can be seen of the stream from one endpoint to the other are the DATA and FIN frames the first appends and what the
Reads of the second return.  Every run of two endpoints over segment files shows, in each direction, the events of a
`Channel`, in their order (`pipe_refines_channel`): the frames, segments, acknowledgements and wake-ups below are one
way to carry it.  The relay of `Ccb.Splice` is about any links that are channels.

A `Write` that emits between the FIN and the flag `sendClosed` puts bytes into a stream that has ended; the runs in
question have none (`data_after_fin` is one that does).
-/
namespace Ccb
namespace Fstun

open Machine (run Meets trace simulates)

/-! ## What is seen -/

def Call.event : Call → Option (Channel.Event UInt8)
  | .append f _ true =>
    if f.typ = frameDATA then some (.push f.payload) else if f.typ = frameFIN then some .finish else none
  | _ => none

/-- A `Read` with an empty buffer takes nothing. -/
def ReadResult.event : ReadResult → Option (Channel.Event UInt8)
  | .data b => if b = [] then none else some (.pop b)
  | .eof    => some .see
  | .err _  => none

/-- What a step shows of the direction `r` writes: a frame that `r` appends, or what a `Read` of its peer returns. -/
def Pipe.events {T : Transport} (r : Role) (s : Pipe T) (l : Label T) : List (Channel.Event UInt8) :=
  match (s.conn l.role).step l.act with
  | some (c, call) =>
    if l.role = r then call.toList.filterMap Call.event
    else (c.reads.drop (s.conn l.role).reads.length).filterMap ReadResult.event
  | none => []

theorem Pipe.events_own {T : Transport} {s : Pipe T} {l : Label T} {c : Conn} {call : Option Call}
    (h : (s.conn l.role).step l.act = some (c, call)) : s.events l.role l = call.toList.filterMap Call.event := by
  simp only [Pipe.events, h, if_true]

theorem Pipe.events_peer {T : Transport} {s : Pipe T} {l : Label T} {c : Conn} {call : Option Call}
    (h : (s.conn l.role).step l.act = some (c, call)) :
    s.events l.role.peer l = (c.reads.drop (s.conn l.role).reads.length).filterMap ReadResult.event := by
  simp only [Pipe.events, h, if_neg (Role.peer_ne l.role).symm]

/-! ## The channel of a direction -/

/-- `c` is what the frames of the direction and the Reads of its receiver have come to. -/
structure Carries (R : Conn) (D : Fifo) (c : Channel UInt8) : Prop where
  put    : c.put = dataOf D.log
  got    : c.got = R.returned.length
  ended  : c.ended = true ↔ Finned D.log
  sawEnd : c.sawEnd = decide (.eof ∈ R.reads)

section
variable {S R S' R' : Conn} {D E D' E' : Fifo} {a : Act} {call : Option Call} {c : Channel UInt8}

theorem Finned.concat {l : List Frame} {f : Frame} : Finned (l ++ [f]) ↔ Finned l ∨ f.typ = frameFIN := by
  unfold Finned
  simp only [List.mem_append, List.mem_singleton, or_and_right, exists_or, exists_eq_left]

/-- A frame that is no DATA and no FIN changes nothing that is seen. -/
theorem Carries.control {f : Frame} (h : Carries R D c) (hd : f.typ ≠ frameDATA) (hf : f.typ ≠ frameFIN) :
    Carries R { D with log := D.log ++ [f] } c := by
  refine ⟨?_, h.got, ?_, h.sawEnd⟩
  · rw [h.put, dataOf_append, dataOf_singleton, Frame.data_of_ne hd, List.append_nil]
  · rw [h.ended, Finned.concat]
    exact ⟨Or.inl, fun hor => hor.resolve_right hf⟩

theorem Core.Step.open_of_data {k k' : Core} {f : Frame} {e : UInt64} {ok : Bool}
    (h : Core.Step k (some (.append f e ok)) k') (ht : f.typ = frameDATA) : k.sendClosed = false := by
  have hplain : ¬ (∀ x ∈ some (Call.append f e ok), x.plain = true) := fun hx => by cases hx _ rfl
  cases h with
  | phase _ _ _ _ _ hx => exact absurd hx hplain
  | syn => cases (show frameSYN = frameDATA from ht)
  | sendAck _ _ _ _ _ hcl => exact hcl
  | sendBeat _ _ _ hcl => exact hcl
  | sendFin => cases (show frameFIN = frameDATA from ht)
  | sendData _ _ _ _ _ _ hcl => exact hcl
  | closeLate _ _ _ _ _ hx => exact absurd hx hplain

/-- **The DATA of a `Write` finds the stream open.** -/
theorem EndInv.not_finned {f : Frame} {e : UInt64} {ok : Bool} (h : EndInv S R D E) (hg : S.emitsPastFin a = false)
    (hs : S.step a = some (S', some (.append f e ok))) (ht : f.typ = frameDATA) : ¬ Finned D.log := by
  intro hfin
  obtain ⟨hidle, hnot⟩ := h.ended.fin hfin
  have hset := step_data hs ht hg
  have hlate : S.clo.late = true := by
    cases hclo : S.clo with
    | idle => exact absurd hclo hidle
    | fin => exact absurd hclo hnot
    | setClosed => exact absurd hclo hset
    | _ => rfl
  have hopen : S.core.sendClosed = false := (step_core hs).open_of_data ht
  rw [show S.core.sendClosed = true from h.ended.closed hlate] at hopen
  cases hopen

/-- **A step of the writer puts in what it appends.** -/
theorem Carries.sender (h : Carries R D c) (hi : EndInv S R D E) (hg : S.emitsPastFin a = false)
    (hs : S.step a = some (S', call)) (hm : Fifo.Moved D E call D' E') :
    ∃ c', run Channel.step c (call.toList.filterMap Call.event) = some c' ∧ Carries R D' c' := by
  cases hm with
  | none => exact ⟨c, rfl, h⟩
  | plain x hx =>
    have hnone : Call.event x = none := by
      rcases hx with hx | ⟨v, rfl⟩
      · cases x <;> first | rfl | cases hx
      · rfl
    refine ⟨c, ?_, h⟩
    rw [Option.toList_some, List.filterMap_cons_none hnone]
    rfl
  | lost f e => exact ⟨c, rfl, h⟩
  | got f => exact ⟨c, rfl, h⟩
  | sent f e =>
    rw [Option.toList_some, List.filterMap_cons, Call.event]
    by_cases hd : f.typ = frameDATA
    · rw [if_pos hd]
      have hopen : c.ended = false := by
        rw [← Bool.not_eq_true, h.ended]
        exact hi.not_finned hg hs hd
      obtain ⟨c', hstep, hput, hgot, hend, hsaw⟩ := Channel.step_push hopen f.payload
      refine ⟨c', by rw [List.filterMap_nil, run, hstep]; rfl, ?_, hgot.trans h.got, ?_, hsaw.trans h.sawEnd⟩
      · rw [hput, h.put, dataOf_append, dataOf_singleton, Frame.data_of_eq hd]
      · rw [hend, Finned.concat, ← h.ended, hopen, hd]
        decide
    · rw [if_neg hd]
      by_cases hf : f.typ = frameFIN
      · rw [if_pos hf]
        refine ⟨c.finish, rfl, ?_, h.got, ?_, h.sawEnd⟩
        · rw [dataOf_append, dataOf_singleton, Frame.data_of_ne hd, List.append_nil]
          exact h.put
        · exact ⟨fun _ => Finned.concat.2 (.inr hf), fun _ => rfl⟩
      · rw [if_neg hf]
        exact ⟨c, rfl, h.control hd hf⟩

/-- What the reader gets next begins what is still in the channel. -/
theorem Carries.next (h : Carries R D c) (hi : EndInv S R D E) :
    ∃ rest, c.put.drop c.got = R.rd.held ++ rest := by
  obtain ⟨rest, hrest⟩ : R.taken <+: S.written := hi.pipe.stream.begins
  have hput : c.put = R.returned ++ (R.rd.held ++ rest) := by
    rw [h.put, show dataOf D.log = S.written from hi.pipe.stream.sent, ← hrest, Conn.taken, List.append_assoc]
  exact ⟨rest, by rw [hput, h.got, List.drop_left]⟩

/-- The reader moves and gets nothing. -/
theorem Carries.keep (h : Carries R D c) (hlog : D'.log = D.log) (hret : R'.returned = R.returned)
    (heof : .eof ∈ R'.reads ↔ .eof ∈ R.reads) : Carries R' D' c := by
  refine ⟨?_, ?_, ?_, ?_⟩
  · rw [hlog]; exact h.put
  · rw [hret]; exact h.got
  · rw [hlog]; exact h.ended
  · rw [h.sawEnd]; exact decide_eq_decide.2 heof.symm

/-- **A step of the reader gets what its `Read` returns.** -/
theorem Carries.receiver (h : Carries R D c) (hi : EndInv S R D E) (hs : R.step a = some (R', call))
    (hm : Fifo.Moved E D call E' D') :
    ∃ c', run Channel.step c ((R'.reads.drop R.reads.length).filterMap ReadResult.event) = some c' ∧
      Carries R' D' c' := by
  have hlog : D'.log = D.log := by cases hm <;> rfl
  rcases step_reads hs with hk | ⟨res, hk, hb⟩
  · refine ⟨c, ?_, h.keep hlog (by rw [Conn.returned, hk]; rfl) (by rw [hk])⟩
    rw [hk, List.drop_length]
    rfl
  · have hret : R'.returned = R.returned ++ res.bytes := by
      rw [Conn.returned, hk, List.flatMap_append, List.flatMap_singleton]
      rfl
    have hmem : .eof ∈ R'.reads ↔ .eof ∈ R.reads ∨ .eof = res := by rw [hk, List.mem_append, List.mem_singleton]
    rw [hk, List.drop_left, List.filterMap_cons, List.filterMap_nil]
    cases res with
    | data b =>
      have hsame : .eof ∈ R'.reads ↔ .eof ∈ R.reads := hmem.trans (or_iff_left (fun he => by cases he))
      rw [ReadResult.event]
      by_cases hnil : b = []
      · rw [if_pos hnil]
        exact ⟨c, rfl, h.keep hlog (by rw [hret, ReadResult.bytes, hnil, List.append_nil]) hsame⟩
      · rw [if_neg hnil]
        obtain ⟨rest, hrest⟩ := h.next hi
        rw [← hb, ReadResult.bytes] at hrest
        obtain ⟨c', hstep, hput, hgot, hend, hsaw⟩ := Channel.step_pop hrest hnil
        refine ⟨c', by rw [run, hstep]; rfl, ?_, ?_, ?_, ?_⟩
        · rw [hput, hlog]; exact h.put
        · rw [hgot, hret, List.length_append, h.got]; rfl
        · rw [hend, hlog]; exact h.ended
        · rw [hsaw, h.sawEnd]; exact decide_eq_decide.2 hsame.symm
    | eof =>
      -- The end is there and everything has been returned, by the invariant after the step.
      have heof : ReadResult.eof ∈ R'.reads := hmem.2 (.inr rfl)
      have hi' := hi.receiver hs hm
      have hat : R'.core.atEOF = true := decide_eq_true heof
      have hfin : Finned D.log := by
        rw [← hlog]
        exact (hi'.ended.eof (hi'.ended.atEOF hat).1).2.1.of_take
      have hall : R'.returned ++ R'.rd.held = S.written := hi'.ended.all (hi'.pipe.stream.congr rfl) hat rfl
      rw [hi'.held heof, List.append_nil, hret, ReadResult.bytes, List.append_nil] at hall
      have hlen : c.got = c.put.length := by
        rw [h.got, h.put, hall]
        exact congrArg List.length hi.pipe.stream.sent.symm
      obtain ⟨c', hstep, hput, hgot, hend, hsaw⟩ := Channel.step_see (h.ended.2 hfin) hlen
      refine ⟨c', by rw [ReadResult.event, run, hstep]; rfl, ?_, ?_, ?_, ?_⟩
      · rw [hput, hlog]; exact h.put
      · rw [hgot, hret, ReadResult.bytes, List.append_nil]; exact h.got
      · rw [hend, hlog]; exact ⟨fun _ => hfin, fun _ => rfl⟩
      · rw [hsaw, decide_eq_true heof]
    | err e =>
      refine ⟨c, rfl, h.keep hlog (by rw [hret, ReadResult.bytes, List.append_nil]) ?_⟩
      exact hmem.trans (or_iff_left (fun he => by cases he))

end

/-! ## Runs -/

/-- Both directions of a pipe over `Fifo`. -/
def Sound (u : Pipe fifo) : Prop := ∀ r, EndInv (u.conn r) (u.conn r.peer) (u.dir r) (u.dir r.peer)

theorem Sound.step {u v : Pipe fifo} {l : Label fifo} (h : Sound u) (hg : FinLast u l) (hs : u.step l = some v) :
    Sound v :=
  Pipe.inv_fifo (G := fun c a => c.emitsPastFin a = false) (fun h hg hs hm => h.sender hg hs hm)
    (fun h _ hs hm => h.receiver hs hm) u l v h hg hs

theorem Carries.step {u v : Pipe fifo} {l : Label fifo} {r : Role} {c : Channel UInt8}
    (h : Carries (u.conn r.peer) (u.dir r) c) (hi : Sound u) (hg : FinLast u l) (hs : u.step l = some v) :
    ∃ c', run Channel.step c (u.events r l) = some c' ∧ Carries (v.conn r.peer) (v.dir r) c' := by
  obtain ⟨k, call, hk, hconn, hmove⟩ := Pipe.step_fifo hs
  rw [hconn]
  rcases Role.eq_or_peer r l.role with rfl | rfl
  · rw [Pipe.events_own hk, upd_peer]
    exact h.sender (hi l.role) hg hk hmove
  · rw [Role.peer_peer] at h ⊢
    have hi' := hi l.role.peer
    rw [Role.peer_peer] at hi'
    rw [Pipe.events_peer hk, upd_self]
    exact h.receiver hi' hk hmove

variable {crc : List UInt8 → UInt32}

/-- A pipe over segment files and the channel of the direction `r` writes. -/
def Tracks (r : Role) (s : Pipe (segFiles crc)) (c : Channel UInt8) : Prop :=
  ∃ u, FileSim s u ∧ Sound u ∧ Carries (u.conn r.peer) (u.dir r) c

theorem Tracks.step {r : Role} (s : Pipe (segFiles crc)) (l : Label (segFiles crc)) (t : Pipe (segFiles crc))
    (c : Channel UInt8) (h : Tracks r s c) (hg : SegIo.Smooth l.io ∧ NoWrap s l ∧ FinLast s l)
    (hs : s.step l = some t) :
    ∃ c', run Channel.step c (s.events r l) = some c' ∧ Tracks r t c' := by
  obtain ⟨u, hsim, hinv, hc⟩ := h
  obtain ⟨hio, hw, hf⟩ := hg
  obtain ⟨v, hv, hsim'⟩ := hsim.step hio hw hs
  have hf' : FinLast u ⟨l.role, l.act, ()⟩ := by
    unfold FinLast
    rw [hsim.conn]
    exact hf
  obtain ⟨c', hrun, hc'⟩ := hc.step hinv hf' hv
  refine ⟨c', ?_, v, hsim', hinv.step hf' hv, hc'⟩
  unfold Pipe.events at hrun ⊢
  rw [hsim.conn] at hrun
  exact hrun

theorem Tracks.start (p : Role → Params) (idle : Role → Nat) (netFS : Role → Bool) (r : Role) :
    Tracks r (Pipe.startFiles crc p idle netFS) .empty := by
  refine ⟨_, .start p idle netFS, EndInv.start p idle, rfl, rfl, ⟨(fun h => by cases h), ?_⟩, rfl⟩
  rintro ⟨f, hf, -⟩
  cases hf

/-- **A pipe over segment files refines a channel in each direction**: the DATA and FIN frames appended on one side and
the results of the Reads on the other are, in their order, a run of a channel. -/
theorem pipe_refines_channel (crc : List UInt8 → UInt32) (p : Role → Params) (idle : Role → Nat) (netFS : Role → Bool)
    (ls : List (Label (segFiles crc))) (s : Pipe (segFiles crc)) (hio : ∀ l ∈ ls, SegIo.Smooth l.io)
    (hw : Meets Pipe.step (fun s l => NoWrap s l ∧ FinLast s l) (Pipe.startFiles crc p idle netFS) ls)
    (hr : run Pipe.step (Pipe.startFiles crc p idle netFS) ls = some s) (r : Role) :
    ∃ c, run Channel.step .empty (trace Pipe.step (Pipe.events r) (Pipe.startFiles crc p idle netFS) ls) = some c ∧
      c.put = (s.conn r).written ∧ c.taken = (s.conn r.peer).returned ∧
      (c.sawEnd = true ↔ .eof ∈ (s.conn r.peer).reads) := by
  obtain ⟨c, hrun, u, hsim, hinv, hc⟩ := simulates Tracks.step ls _ s .empty (Tracks.start p idle netFS r)
    (hw.and_labels ls _ hio) hr
  rw [hsim.conn] at hc
  have hput : c.put = (s.conn r).written := by
    rw [← hsim.conn]
    exact hc.put.trans (hinv r).pipe.stream.sent
  have hbegins : (s.conn r.peer).returned <+: (s.conn r).written := by
    rw [← hsim.conn]
    exact (List.prefix_append _ _).trans (hinv r).pipe.stream.begins
  refine ⟨c, hrun, hput, ?_, ?_⟩
  · rw [Channel.taken, hput, hc.got]
    exact (List.prefix_iff_eq_take.1 hbegins).symm
  · rw [hc.sawEnd, decide_eq_true_iff]

/-- The bytes, the end of the stream and what the acceptor reads, in the order in which they are seen. -/
theorem pipe_refines_channel_goodbye :
    trace Pipe.step (Pipe.events .initiator) (tinyStart true) (greeting ++ delivery ++ goodbye) =
        [.push [7], .pop [7], .finish, .see] ∧
      ∃ s, run Pipe.step (tinyStart true) (greeting ++ delivery ++ goodbye) = some s ∧
        ∃ c, run Channel.step .empty (trace Pipe.step (Pipe.events .initiator) (tinyStart true)
            (greeting ++ delivery ++ goodbye)) = some c ∧
          c.put = (s.conn .initiator).written ∧ c.taken = (s.conn .acceptor).returned ∧
          (c.sawEnd = true ↔ .eof ∈ (s.conn .acceptor).reads) := by
  refine ⟨by decide +kernel, ?_⟩
  obtain ⟨s, hs⟩ : ∃ s, run Pipe.step (tinyStart true) (greeting ++ delivery ++ goodbye) = some s :=
    Option.isSome_iff_exists.1 (by decide +kernel)
  exact ⟨s, hs, pipe_refines_channel (fun _ => 0) (fun _ => tiny) (fun _ => 0) (fun _ => true) _ s (by decide +kernel)
    (by decide +kernel) hs .initiator⟩

end Fstun
end Ccb
