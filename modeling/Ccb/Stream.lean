import Ccb.Pipe
/-!
# Stream — the bytes of a direction

Over `Fifo`, the DATA bytes of a direction's log are those its Writes have sent, and those of the frames returned so far
are what its Reads have taken, what is buffered and what is in hand, in this order (`Stream`).  `Ended` is about the
FIN: a direction whose `Close` no `Write` overlapped has no DATA after it.
-/
namespace Ccb
namespace Fstun

def Frame.data (f : Frame) : List UInt8 := if f.typ = frameDATA then f.payload else []

/-- The DATA bytes of a list of frames. -/
def dataOf (l : List Frame) : List UInt8 := l.flatMap Frame.data

@[simp] theorem dataOf_append (l l' : List Frame) : dataOf (l ++ l') = dataOf l ++ dataOf l' := List.flatMap_append

@[simp] theorem dataOf_singleton (f : Frame) : dataOf [f] = f.data := List.flatMap_singleton ..

theorem Frame.data_of_ne {f : Frame} (h : f.typ ≠ frameDATA) : f.data = [] := if_neg h

theorem Frame.data_of_eq {f : Frame} (h : f.typ = frameDATA) : f.data = f.payload := if_pos h

theorem dataOf_take_succ {l : List Frame} {n : Nat} {f : Frame} (h : l[n]? = some f) :
    dataOf (l.take (n + 1)) = dataOf (l.take n) ++ f.data := by
  rw [List.take_add_one, h, Option.toList_some, dataOf_append, dataOf_singleton]

/-- What the receive side has been handed and has not put into its buffer. -/
def Core.handData (k : Core) : List UInt8 := dataOf k.hand.toList

structure Stream (S R : Core) (D : Fifo) : Prop where
  pos_le : D.pos ≤ D.log.length
  sent   : dataOf D.log = S.written
  got    : R.phase.failing = false → dataOf (D.log.take D.pos) = R.taken ++ (R.recvBuf ++ R.handData)
  before : R.phase ≠ .up → R.taken = [] ∧ R.recvBuf = [] ∧ R.hand = none

variable {S R S' R' : Core} {D E D' E' : Fifo} {call : Option Call}

theorem Stream.congr (h : Stream S R D) (hw : S'.written = S.written) : Stream S' R D :=
  ⟨h.pos_le, h.sent.trans hw.symm, h.got, h.before⟩

/-- One more frame in the log. -/
theorem Stream.log (h : Stream S R D) (f : Frame) (hw : S'.written = S.written ++ f.data) :
    Stream S' R { D with log := D.log ++ [f] } := by
  refine ⟨?_, ?_, ?_, h.before⟩
  · have := h.pos_le
    simp; omega
  · rw [dataOf_append, dataOf_singleton, h.sent, hw]
  · intro hf
    rw [List.take_append_of_le_length h.pos_le]
    exact h.got hf

theorem Stream.sender (h : Stream S R D) (hs : Core.Step S call S') (hm : Fifo.Moved D E call D' E') :
    Stream S' R D' := by
  -- A frame of another type carries no bytes.
  have hctl : ∀ {S' : Core} {f : Frame} {e : UInt64} {ok : Bool}, f.typ ≠ frameDATA → S'.written = S.written →
      Fifo.Moved D E (some (.append f e ok)) D' E' → Stream S' R D' := by
    intro S' f e ok hf hw hm
    obtain ⟨rfl, -⟩ := hm.append
    cases ok with
    | false => exact h.congr hw
    | true => exact h.log f (by rw [hw, Frame.data_of_ne hf, List.append_nil])
  cases hs with
  | syn ok hp => exact hctl (by show frameSYN ≠ _; decide) rfl hm
  | sendAck v ok l => exact hctl (by show frameACK ≠ _; decide) rfl hm
  | sendBeat v ok => exact hctl (by show frameHeartbeat ≠ _; decide) rfl hm
  | sendFin ok => exact hctl (by show frameFIN ≠ _; decide) rfl hm
  | sendData sent rest room ok wr =>
    obtain ⟨rfl, -⟩ := hm.append
    cases ok with
    | false => exact h.congr rfl
    | true => exact h.log _ rfl
  | hello f | refuse f | frame f =>
    obtain ⟨rfl, -⟩ := hm.frame
    exact h.congr rfl
  | phase _ _ _ _ _ hpl | closeLate _ _ _ _ _ hpl =>
    obtain ⟨rfl, -⟩ := hm.still (fun x hx => Or.inl (hpl x hx))
    exact h.congr rfl
  | next t _ hpl =>
    obtain ⟨rfl, -⟩ := hm.still (fun x hx => by cases hx; exact Or.inl hpl)
    exact h.congr rfl
  | reap v =>
    obtain ⟨rfl, -⟩ := hm.still (fun x hx => by cases hx; exact Or.inr ⟨v, rfl⟩)
    exact h.congr rfl
  | quiet | take | eof | acks | write | writeCall | measure | pass | close | closeSet | data | ack | fin | other =>
    obtain ⟨rfl, -⟩ := hm.still (fun x hx => by cases hx)
    exact h.congr rfl

/-- The receiver's side of a direction, when neither the bytes it has nor the position change. -/
theorem Stream.keep (h : Stream S R D) (hp : R'.phase = R.phase) (ht : R'.taken = R.taken) (hb : R'.recvBuf = R.recvBuf)
    (hh : R'.handData = R.handData) (hn : R.hand = none → R'.hand = none) : Stream S R' D := by
  refine ⟨h.pos_le, h.sent, ?_, ?_⟩
  · rw [hp, ht, hb, hh]; exact h.got
  · rw [hp, ht, hb]
    intro hup
    obtain ⟨h1, h2, h3⟩ := h.before hup
    exact ⟨h1, h2, hn h3⟩

/-- Dropping a frame in hand that carries no bytes. -/
theorem Stream.drop (h : Stream S R D) {f : Frame} (hf : R.hand = some f) (hd : f.typ ≠ frameDATA)
    (hp : R'.phase = R.phase) (ht : R'.taken = R.taken) (hb : R'.recvBuf = R.recvBuf) (hh : R'.hand = none) :
    Stream S R' D := by
  refine h.keep hp ht hb ?_ (fun _ => hh)
  rw [Core.handData, Core.handData, hh, hf]
  show [] = dataOf [f]
  rw [dataOf_singleton, Frame.data_of_ne hd]

theorem Stream.receiver (h : Stream S R D) (hs : Core.Step R call R') (hm : Fifo.Moved E D call E' D') :
    Stream S R' D' := by
  cases hs with
  | phase ph _ hup hph hfail hpl =>
    obtain ⟨-, rfl⟩ := hm.still (fun x hx => Or.inl (hpl x hx))
    obtain ⟨h1, h2, h3⟩ := h.before hup
    refine ⟨h.pos_le, h.sent, fun hf => ?_, fun _ => ⟨h1, h2, h3⟩⟩
    refine h.got ?_
    cases hR : R.phase.failing with
    | false => rfl
    | true => exact absurd (hfail hR) (by rw [hf]; exact fun h => by cases h)
  | syn ok hp =>
    obtain ⟨-, rfl⟩ := hm.append
    obtain ⟨h1, h2, h3⟩ := h.before (by rw [hp]; exact fun h => by cases h)
    exact ⟨h.pos_le, h.sent, fun _ => h.got (by rw [hp]; rfl), fun _ => ⟨h1, h2, h3⟩⟩
  | hello f hp hf =>
    obtain ⟨-, hat, rfl⟩ := hm.frame
    refine ⟨?_, h.sent, fun _ => ?_, fun hup => absurd rfl hup⟩
    · have := (List.getElem?_eq_some_iff.1 hat).1
      exact this
    · rw [dataOf_take_succ hat, Frame.data_of_ne (by rw [hf]; decide), List.append_nil]
      exact h.got (by rw [hp]; rfl)
  | refuse f hp =>
    obtain ⟨-, hat, rfl⟩ := hm.frame
    refine ⟨(List.getElem?_eq_some_iff.1 hat).1, h.sent, (fun hf => by cases hf), fun _ => ?_⟩
    exact h.before (by rw [hp]; exact fun h => by cases h)
  | take n hup hb =>
    obtain ⟨-, rfl⟩ := hm.still (fun x hx => by cases hx)
    refine ⟨h.pos_le, h.sent, fun hf => ?_, fun hne => absurd hup hne⟩
    show _ = (R.taken ++ R.recvBuf.take n) ++ (R.recvBuf.drop n ++ R.handData)
    rw [h.got hf, List.append_assoc, ← List.append_assoc (R.recvBuf.take n), List.take_append_drop]
  | frame f hup hn =>
    obtain ⟨-, hat, rfl⟩ := hm.frame
    refine ⟨(List.getElem?_eq_some_iff.1 hat).1, h.sent, fun hf => ?_, fun hne => absurd hup hne⟩
    have hR : R.handData = [] := by rw [Core.handData, hn]; rfl
    show _ = R.taken ++ (R.recvBuf ++ dataOf [f])
    rw [dataOf_take_succ hat, h.got hf, hR, List.append_nil, dataOf_singleton, List.append_assoc]
  | data f hup hn hf =>
    obtain ⟨-, rfl⟩ := hm.still (fun x hx => by cases hx)
    refine ⟨h.pos_le, h.sent, fun hfail => ?_, fun hne => absurd hup hne⟩
    have hR : R.handData = f.payload := by
      rw [Core.handData, hn]
      show dataOf [f] = _
      rw [dataOf_singleton, Frame.data_of_eq hf]
    show _ = R.taken ++ ((R.recvBuf ++ f.payload) ++ [])
    rw [h.got hfail, hR, List.append_nil]
  | ack f v hup hn hf =>
    obtain ⟨-, rfl⟩ := hm.still (fun x hx => by cases hx)
    exact h.drop hn (by rw [hf]; decide) rfl rfl rfl rfl
  | fin f hup hn hf =>
    obtain ⟨-, rfl⟩ := hm.still (fun x hx => by cases hx)
    exact h.drop hn (by rw [hf]; decide) rfl rfl rfl rfl
  | other f hup hn hf =>
    obtain ⟨-, rfl⟩ := hm.still (fun x hx => by cases hx)
    exact h.drop hn hf rfl rfl rfl rfl
  | sendAck | sendBeat | sendFin | sendData =>
    obtain ⟨-, rfl⟩ := hm.append
    exact h.keep rfl rfl rfl rfl id
  | closeLate _ _ _ _ _ hpl =>
    obtain ⟨-, rfl⟩ := hm.still (fun x hx => Or.inl (hpl x hx))
    exact h.keep rfl rfl rfl rfl id
  | next t _ hpl =>
    obtain ⟨-, rfl⟩ := hm.still (fun x hx => by cases hx; exact Or.inl hpl)
    exact h
  | reap v =>
    obtain ⟨-, rfl⟩ := hm.still (fun x hx => by cases hx; exact Or.inr ⟨v, rfl⟩)
    exact h.keep rfl rfl rfl rfl id
  | quiet | eof | acks | write | writeCall | measure | pass | close | closeSet =>
    obtain ⟨-, rfl⟩ := hm.still (fun x hx => by cases hx)
    exact h.keep rfl rfl rfl rfl id

/-- **What Reads have taken begins what Writes have sent.** -/
theorem Stream.begins (h : Stream S R D) : R.taken <+: S.written := by
  cases hf : R.phase.failing with
  | false =>
    refine ⟨R.recvBuf ++ R.handData ++ dataOf (D.log.drop D.pos), ?_⟩
    rw [← List.append_assoc, ← h.got hf, ← dataOf_append, List.take_append_drop, h.sent]
  | true =>
    rw [(h.before (by intro hup; rw [hup] at hf; cases hf)).1]
    exact List.nil_prefix

/-! ## The end of a direction -/

/-- A FIN is among these frames. -/
def Finned (l : List Frame) : Prop := ∃ f ∈ l, f.typ = frameFIN

theorem Finned.of_take {l : List Frame} {n : Nat} (h : Finned (l.take n)) : Finned l := by
  obtain ⟨f, hf, ht⟩ := h
  exact ⟨f, List.mem_of_mem_take hf, ht⟩

structure Ended (S R : Core) (D : Fifo) : Prop where
  fin    : Finned D.log → S.clo ≠ .idle ∧ S.clo ≠ .fin
  closed : S.clo.late = true → S.sendClosed = true
  lone   : S.raced = false → S.clo = .fin ∨ S.clo = .setClosed → S.wr = .idle
  after  : S.raced = false → ∀ n, Finned (D.log.take n) → dataOf (D.log.drop n) = []
  hand   : ∀ f ∈ R.hand, f ∈ D.log.take D.pos
  eof    : R.recvEOF = true → R.phase = .up ∧ Finned (D.log.take D.pos) ∧ (S.raced = false → R.handData = [])
  atEOF  : R.atEOF = true → R.recvEOF = true ∧ (S.raced = false → R.recvBuf = [] ∧ R.held = [])

/-- One more frame in the log, that carries no bytes if a FIN is there and no `Write` overlapped the `Close`. -/
theorem Ended.log (h : Ended S R D) (hpos : D.pos ≤ D.log.length) (f : Frame) (ok : Bool)
    (hfin : f.typ = frameFIN → S'.clo ≠ .idle ∧ S'.clo ≠ .fin)
    (hdata : S'.raced = false → Finned D.log → f.data = [])
    (hclo : S.clo ≠ .idle ∧ S.clo ≠ .fin → S'.clo ≠ .idle ∧ S'.clo ≠ .fin)
    (hcl : S'.clo.late = true → S'.sendClosed = true)
    (hlone : S'.raced = false → S'.clo = .fin ∨ S'.clo = .setClosed → S'.wr = .idle)
    (hr : S'.raced = S.raced) : Ended S' R (if ok then { D with log := D.log ++ [f] } else D) := by
  cases ok with
  | false =>
    exact ⟨fun hf => hclo (h.fin hf), hcl, hlone, fun hr' => h.after (by rw [← hr]; exact hr'), h.hand,
      fun he => by rw [hr]; exact h.eof he, fun he => by rw [hr]; exact h.atEOF he⟩
  | true =>
    refine ⟨fun hf => ?_, hcl, hlone, fun hr' n hn => ?_, ?_, fun he => ?_, fun he => by rw [hr]; exact h.atEOF he⟩
    · obtain ⟨g, hg, ht⟩ := hf
      rcases List.mem_append.1 hg with hg | hg
      · exact hclo (h.fin ⟨g, hg, ht⟩)
      · rw [List.mem_singleton.1 hg] at ht
        exact hfin ht
    · by_cases hle : n ≤ D.log.length
      · have hn' : Finned (D.log.take n) := by
          have htake : (D.log ++ [f]).take n = D.log.take n := List.take_append_of_le_length hle
          rw [← htake]; exact hn
        show dataOf ((D.log ++ [f]).drop n) = []
        rw [List.drop_append_of_le_length hle, dataOf_append, dataOf_singleton,
          h.after (by rw [← hr]; exact hr') n hn', hdata hr' hn'.of_take]
        rfl
      · show dataOf ((D.log ++ [f]).drop n) = []
        rw [List.drop_eq_nil_of_le (by simp; omega)]
        rfl
    · show ∀ g ∈ R.hand, g ∈ (D.log ++ [f]).take D.pos
      rw [List.take_append_of_le_length hpos]
      exact h.hand
    · rw [hr]
      show _ ∧ Finned ((D.log ++ [f]).take D.pos) ∧ _
      rw [List.take_append_of_le_length hpos]
      exact h.eof he

/-- The sender moves without a frame. -/
theorem Ended.keep (h : Ended S R D) (hclo : S.clo ≠ .idle ∧ S.clo ≠ .fin → S'.clo ≠ .idle ∧ S'.clo ≠ .fin)
    (hcl : S'.clo.late = true → S'.sendClosed = true)
    (hlone : S'.raced = false → S'.clo = .fin ∨ S'.clo = .setClosed → S'.wr = .idle)
    (hr : S'.raced = false → S.raced = false) : Ended S' R D :=
  ⟨fun hf => hclo (h.fin hf), hcl, hlone, fun hr' => h.after (hr hr'), h.hand,
    fun he => ⟨(h.eof he).1, (h.eof he).2.1, fun hr' => (h.eof he).2.2 (hr hr')⟩,
    fun he => ⟨(h.atEOF he).1, fun hr' => (h.atEOF he).2 (hr hr')⟩⟩

/-- **What a step of the sender is to the end of its direction.** -/
inductive Closing (S : Core) (D : Fifo) : Option Call → Core → Fifo → Prop
  -- a frame that is neither bytes nor the end
  | control {S' : Core} (f : Frame) (e : UInt64) (ok : Bool) : f.typ ≠ frameDATA → f.typ ≠ frameFIN → S'.clo = S.clo →
      S'.sendClosed = S.sendClosed → S'.wr = S.wr → S'.raced = S.raced →
      Closing S D (some (.append f e ok)) S' (if ok then { D with log := D.log ++ [f] } else D)
  | fin {S' : Core} (f : Frame) (e : UInt64) (ok : Bool) : f.typ = frameFIN → S.clo = .fin → S'.clo = .setClosed →
      S'.wr = S.wr → S'.raced = S.raced →
      Closing S D (some (.append f e ok)) S' (if ok then { D with log := D.log ++ [f] } else D)
  | data {S' : Core} (f : Frame) (e : UInt64) (ok : Bool) : f.typ = frameDATA → S.sendClosed = false → S.wr ≠ .idle →
      S'.clo = S.clo → S'.sendClosed = S.sendClosed → S'.raced = S.raced →
      Closing S D (some (.append f e ok)) S' (if ok then { D with log := D.log ++ [f] } else D)
  -- no frame
  | keep {S' : Core} {call : Option Call} : S'.clo = S.clo → S'.sendClosed = S.sendClosed →
      (S'.raced = false → S.raced = false) →
      (S'.raced = false → S.clo = .fin ∨ S.clo = .setClosed → S.wr = .idle → S'.wr = .idle) → Closing S D call S' D
  | close {S' : Core} {call : Option Call} : S.clo = .idle → S'.clo = .fin → S'.wr = S.wr →
      S'.raced = (S.raced || decide (S.wr ≠ .idle)) → Closing S D call S' D
  | late {S' : Core} {call : Option Call} : S'.clo.late = true →
      ((S.clo.late = true → S.sendClosed = true) → S'.sendClosed = true) → S'.raced = S.raced → Closing S D call S' D

theorem Core.Step.closing (hs : Core.Step S call S') (hm : Fifo.Moved D E call D' E') :
    Closing S D call S' D' := by
  cases hs with
  | syn =>
    obtain ⟨rfl, -⟩ := hm.append
    exact .control _ _ _ (by show frameSYN ≠ _; decide) (by show frameSYN ≠ _; decide) rfl rfl rfl rfl
  | sendAck =>
    obtain ⟨rfl, -⟩ := hm.append
    exact .control _ _ _ (by show frameACK ≠ _; decide) (by show frameACK ≠ _; decide) rfl rfl rfl rfl
  | sendBeat =>
    obtain ⟨rfl, -⟩ := hm.append
    exact .control _ _ _ (by show frameHeartbeat ≠ _; decide) (by show frameHeartbeat ≠ _; decide) rfl rfl rfl rfl
  | sendFin ok hup hclo =>
    obtain ⟨rfl, -⟩ := hm.append
    exact .fin _ _ _ rfl hclo rfl rfl rfl
  | sendData sent rest room ok wr hup hcl hwr =>
    obtain ⟨rfl, -⟩ := hm.append
    exact .data _ _ _ rfl hcl (fun h => by cases hwr.symm.trans h) rfl rfl rfl
  | hello | refuse | frame =>
    obtain ⟨rfl, -⟩ := hm.frame
    exact .keep rfl rfl id (fun _ _ h => h)
  | phase _ _ _ _ _ hpl =>
    obtain ⟨rfl, -⟩ := hm.still (fun x hx => Or.inl (hpl x hx))
    exact .keep rfl rfl id (fun _ _ h => h)
  | closeLate clo _ _ hl hl' hpl =>
    obtain ⟨rfl, -⟩ := hm.still (fun x hx => Or.inl (hpl x hx))
    exact .late hl' (fun hcl => hcl hl) rfl
  | next t _ hpl =>
    obtain ⟨rfl, -⟩ := hm.still (fun x hx => by cases hx; exact Or.inl hpl)
    exact .keep rfl rfl id (fun _ _ h => h)
  | reap v =>
    obtain ⟨rfl, -⟩ := hm.still (fun x hx => by cases hx; exact Or.inr ⟨v, rfl⟩)
    exact .keep rfl rfl id (fun _ _ h => h)
  | write wr hup hbusy =>
    obtain ⟨rfl, -⟩ := hm.still (fun x hx => by cases hx)
    exact .keep rfl rfl id (fun _ _ h => absurd h hbusy)
  | writeCall =>
    obtain ⟨rfl, -⟩ := hm.still (fun x hx => by cases hx)
    refine .keep rfl rfl (fun hr => (Bool.or_eq_false_iff.1 hr).1) (fun hr hc _ => ?_)
    -- The call overlaps the Close.
    have ha := (Bool.or_eq_false_iff.1 hr).2
    rcases hc with hc | hc <;> (rw [hc] at ha; cases ha)
  | measure _ _ _ hwr | pass _ _ _ _ hwr =>
    obtain ⟨rfl, -⟩ := hm.still (fun x hx => by cases hx)
    exact .keep rfl rfl id (fun _ _ h => by cases hwr.symm.trans h)
  | close hup hclo =>
    obtain ⟨rfl, -⟩ := hm.still (fun x hx => by cases hx)
    exact .close hclo rfl rfl rfl
  | closeSet =>
    obtain ⟨rfl, -⟩ := hm.still (fun x hx => by cases hx)
    exact .late rfl (fun _ => rfl) rfl
  | quiet | take | eof | acks | data | ack | fin | other =>
    obtain ⟨rfl, -⟩ := hm.still (fun x hx => by cases hx)
    exact .keep rfl rfl id (fun _ _ h => h)

theorem ClosePc.of_late {p : ClosePc} (h : p.late = true) : (p ≠ .idle ∧ p ≠ .fin) ∧ p ≠ .setClosed := by
  refine ⟨⟨?_, ?_⟩, ?_⟩ <;> (rintro rfl; cases h)

theorem Ended.sender (h : Ended S R D) (hpos : D.pos ≤ D.log.length) (hs : Core.Step S call S')
    (hm : Fifo.Moved D E call D' E') : Ended S' R D' := by
  cases hs.closing hm with
  | control f e ok hd hf h1 h2 h3 h4 =>
    refine h.log hpos f ok (fun ht => absurd ht hf) (fun _ _ => Frame.data_of_ne hd) ?_ ?_ ?_ h4
    · rw [h1]; exact id
    · rw [h1, h2]; exact h.closed
    · rw [h1, h3, h4]; exact h.lone
  | fin f e ok hf hclo h1 h3 h4 =>
    have hset : S'.clo ≠ .idle ∧ S'.clo ≠ .fin := by
      rw [h1]
      exact ⟨(fun h => by cases h), (fun h => by cases h)⟩
    refine h.log hpos f ok (fun _ => hset) (fun _ _ => Frame.data_of_ne (by rw [hf]; decide)) (fun _ => hset) ?_ ?_ h4
    · rw [h1]; exact fun h => by cases h
    · rw [h3, h4]; exact fun hr _ => h.lone hr (Or.inl hclo)
  | data f e ok hf hcl hwr h1 h2 h4 =>
    -- A Write past its checks while the Close is between its FIN and its flag overlaps it.
    have hover : S.raced = false → S.clo = .fin ∨ S.clo = .setClosed → False := fun hr hc => hwr (h.lone hr hc)
    refine h.log hpos f ok (fun ht => by cases hf.symm.trans ht) (fun hr hfin => ?_) ?_ ?_ ?_ h4
    · obtain ⟨hidle, -⟩ := h.fin hfin
      refine (hover (h4 ▸ hr) ?_).elim
      cases hclo : S.clo with
      | idle => exact absurd hclo hidle
      | fin => exact Or.inl rfl
      | setClosed => exact Or.inr rfl
      | _ =>
        rw [h.closed (by rw [hclo]; rfl)] at hcl
        cases hcl
    · rw [h1]; exact id
    · rw [h1, h2]; exact h.closed
    · rw [h1, h4]; exact fun hr hc => (hover hr hc).elim
  | keep h1 h2 hr hwr =>
    refine h.keep ?_ ?_ (fun hr' hc => ?_) hr
    · rw [h1]; exact id
    · rw [h1, h2]; exact h.closed
    · rw [h1] at hc
      exact hwr hr' hc (h.lone (hr hr') hc)
  | close hclo h1 h3 h4 =>
    refine h.keep (fun hc => absurd hclo hc.1) ?_ (fun hr _ => ?_) (fun hr => ?_)
    · rw [h1]; exact fun hl => by cases hl
    · rw [h4, Bool.or_eq_false_iff, decide_eq_false_iff_not, not_not] at hr
      exact h3.trans hr.2
    · rw [h4, Bool.or_eq_false_iff] at hr
      exact hr.1
  | late hl hcl h4 =>
    obtain ⟨hpast, hset⟩ := ClosePc.of_late hl
    exact h.keep (fun _ => hpast) (fun _ => hcl h.closed) (fun _ hc => hc.elim (absurd · hpast.2) (absurd · hset))
      (fun hr => h4 ▸ hr)

/-- The receiver moves and leaves what the end of the direction depends on. -/
theorem Ended.rest (h : Ended S R D) (hp : R'.phase = R.phase ∨ R'.phase = .up) (hh : R'.hand = R.hand ∨ R'.hand = none)
    (he : R'.recvEOF = R.recvEOF) (ha : R'.atEOF = R.atEOF)
    (hb : S.raced = false → R.recvEOF = true → R.recvBuf = [] → R'.recvBuf = [] ∧ (R'.held = R.held ∨ R'.held = [])) :
    Ended S R' D := by
  refine ⟨h.fin, h.closed, h.lone, h.after, ?_, ?_, ?_⟩
  · rcases hh with hh | hh
    · rw [hh]; exact h.hand
    · rw [hh]; exact fun f hf => by cases hf
  · intro heof
    rw [he] at heof
    obtain ⟨h1, h2, h3⟩ := h.eof heof
    refine ⟨?_, h2, fun hr => ?_⟩
    · rcases hp with hp | hp
      · rw [hp]; exact h1
      · exact hp
    · rcases hh with hh | hh
      · rw [Core.handData, hh]; exact h3 hr
      · rw [Core.handData, hh]; rfl
  · intro hat
    rw [ha] at hat
    obtain ⟨h1, h2⟩ := h.atEOF hat
    rw [he]
    refine ⟨h1, fun hr => ?_⟩
    obtain ⟨h3, h4⟩ := h2 hr
    obtain ⟨h5, h6⟩ := hb hr h1 h3
    exact ⟨h5, h6.elim (fun h => h.trans h4) id⟩

/-- The receiver before it is up has met no end. -/
theorem Ended.early (h : Ended S R D) (hp : R.phase ≠ .up) : R.recvEOF = false ∧ R.atEOF = false := by
  have he : R.recvEOF = false := by
    cases hv : R.recvEOF with
    | false => rfl
    | true => exact absurd (h.eof hv).1 hp
  refine ⟨he, ?_⟩
  cases hv : R.atEOF with
  | false => rfl
  | true => rw [(h.atEOF hv).1] at he; cases he

theorem Ended.receiver (h : Ended S R D) (hst : Stream S R D) (hs : Core.Step R call R')
    (hm : Fifo.Moved E D call E' D') : Ended S R' D' := by
  -- Before the endpoint is up there is no FIN to speak of.
  have hearly : ∀ {R' : Core} {D' : Fifo}, R.phase ≠ .up → D'.log = D.log → R'.hand = R.hand → R'.recvEOF = R.recvEOF →
      R'.atEOF = R.atEOF → Ended S R' D' := by
    intro R' D' hp hl hh he ha
    obtain ⟨h1, h2⟩ := h.early hp
    refine ⟨by rw [hl]; exact h.fin, h.closed, h.lone, by rw [hl]; exact h.after, ?_, ?_, ?_⟩
    · rw [hh, (hst.before hp).2.2]; exact fun f hf => by cases hf
    · rw [he, h1]; exact fun hv => by cases hv
    · rw [ha, h2]; exact fun hv => by cases hv
  cases hs with
  | phase ph _ hup _ _ hpl =>
    obtain ⟨-, rfl⟩ := hm.still (fun x hx => Or.inl (hpl x hx))
    exact hearly hup rfl rfl rfl rfl
  | syn ok hp =>
    obtain ⟨-, rfl⟩ := hm.append
    exact hearly (by rw [hp]; exact fun h => by cases h) rfl rfl rfl rfl
  | hello f hp | refuse f hp =>
    obtain ⟨-, hat, rfl⟩ := hm.frame
    exact hearly (by rw [hp]; exact fun h => by cases h) rfl rfl rfl rfl
  | take n _ hb =>
    obtain ⟨-, rfl⟩ := hm.still (fun x hx => by cases hx)
    exact h.rest (Or.inl rfl) (Or.inl rfl) rfl rfl (fun _ _ hnil => absurd hnil hb)
  | eof hup hb he hheld =>
    obtain ⟨-, rfl⟩ := hm.still (fun x hx => by cases hx)
    exact ⟨h.fin, h.closed, h.lone, h.after, h.hand, h.eof, fun _ => ⟨he, fun _ => ⟨hb, hheld⟩⟩⟩
  | frame f hup hn =>
    obtain ⟨-, hat, rfl⟩ := hm.frame
    have hmem : f ∈ D.log.take (D.pos + 1) := by
      rw [List.take_add_one, hat]
      exact List.mem_append_right _ (List.mem_singleton.2 rfl)
    have hgrow : ∀ g ∈ D.log.take D.pos, g ∈ D.log.take (D.pos + 1) := fun g hg => by
      rw [List.take_add_one]
      exact List.mem_append_left _ hg
    refine ⟨h.fin, h.closed, h.lone, h.after, ?_, fun he => ?_, h.atEOF⟩
    · intro g hg
      cases hg
      exact hmem
    · obtain ⟨h1, ⟨g, hg, ht⟩, h3⟩ := h.eof he
      refine ⟨h1, ⟨g, hgrow g hg, ht⟩, fun hr => ?_⟩
      have hnil := h.after hr D.pos ⟨g, hg, ht⟩
      rw [List.drop_eq_getElem_cons (List.getElem?_eq_some_iff.1 hat).1, (List.getElem?_eq_some_iff.1 hat).2] at hnil
      show dataOf [f] = []
      rw [dataOf_singleton]
      exact (List.append_eq_nil_iff.1 hnil).1
  | data f hup hn hf =>
    obtain ⟨-, rfl⟩ := hm.still (fun x hx => by cases hx)
    refine h.rest (Or.inl rfl) (Or.inr rfl) rfl rfl (fun hr he hb => ?_)
    have hd := (h.eof he).2.2 hr
    rw [Core.handData, hn] at hd
    change dataOf [f] = [] at hd
    rw [dataOf_singleton, Frame.data_of_eq hf] at hd
    refine ⟨?_, Or.inl rfl⟩
    show R.recvBuf ++ f.payload = []
    rw [hb, hd]; rfl
  | fin f hup hn hf =>
    obtain ⟨-, rfl⟩ := hm.still (fun x hx => by cases hx)
    refine ⟨h.fin, h.closed, h.lone, h.after, (fun g hg => by cases hg), fun _ => ?_, fun ha => ⟨rfl, (h.atEOF ha).2⟩⟩
    exact ⟨hup, ⟨f, h.hand f hn, hf⟩, fun _ => rfl⟩
  | ack | other =>
    obtain ⟨-, rfl⟩ := hm.still (fun x hx => by cases hx)
    exact h.rest (Or.inl rfl) (Or.inr rfl) rfl rfl (fun _ _ hb => ⟨hb, Or.inl rfl⟩)
  | sendAck _ _ _ _ _ _ _ _ hheld =>
    obtain ⟨-, rfl⟩ := hm.append
    exact h.rest (Or.inl rfl) (Or.inl rfl) rfl rfl (fun _ _ hb => ⟨hb, hheld⟩)
  | acks _ _ _ _ hheld =>
    obtain ⟨-, rfl⟩ := hm.still (fun x hx => by cases hx)
    exact h.rest (Or.inl rfl) (Or.inl rfl) rfl rfl (fun _ _ hb => ⟨hb, hheld⟩)
  | sendBeat | sendFin | sendData =>
    obtain ⟨-, rfl⟩ := hm.append
    exact h.rest (Or.inl rfl) (Or.inl rfl) rfl rfl (fun _ _ hb => ⟨hb, Or.inl rfl⟩)
  | closeLate _ _ _ _ _ hpl =>
    obtain ⟨-, rfl⟩ := hm.still (fun x hx => Or.inl (hpl x hx))
    exact h.rest (Or.inl rfl) (Or.inl rfl) rfl rfl (fun _ _ hb => ⟨hb, Or.inl rfl⟩)
  | next t _ hpl =>
    obtain ⟨-, rfl⟩ := hm.still (fun x hx => by cases hx; exact Or.inl hpl)
    exact h
  | reap v =>
    obtain ⟨-, rfl⟩ := hm.still (fun x hx => by cases hx; exact Or.inr ⟨v, rfl⟩)
    exact h.rest (Or.inl rfl) (Or.inl rfl) rfl rfl (fun _ _ hb => ⟨hb, Or.inl rfl⟩)
  | quiet | write | writeCall | measure | pass | close | closeSet =>
    obtain ⟨-, rfl⟩ := hm.still (fun x hx => by cases hx)
    exact h.rest (Or.inl rfl) (Or.inl rfl) rfl rfl (fun _ _ hb => ⟨hb, Or.inl rfl⟩)

/-- **After an end of stream no `Write` overlapped, everything sent has been taken.** -/
theorem Ended.all (h : Ended S R D) (hst : Stream S R D) (hat : R.atEOF = true) (hr : S.raced = false) :
    R.taken = S.written := by
  obtain ⟨heof, hbuf⟩ := h.atEOF hat
  obtain ⟨hup, hfin, hhand⟩ := h.eof heof
  have hgot := hst.got (by rw [hup]; rfl)
  rw [(hbuf hr).1, hhand hr, List.append_nil, List.append_nil] at hgot
  rw [← hgot, ← hst.sent]
  calc dataOf (D.log.take D.pos) = dataOf (D.log.take D.pos) ++ dataOf (D.log.drop D.pos) := by
        rw [h.after hr D.pos hfin, List.append_nil]
    _ = dataOf D.log := by rw [← dataOf_append, List.take_append_drop]

end Fstun
end Ccb
