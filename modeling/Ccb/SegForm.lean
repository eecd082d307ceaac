import Ccb.Backlog
import Ccb.SegNext
/-!
# SegForm — the form of a segment log

What the reader and the reaper take for granted of a direction's files: closed segments of whole frames, each ended by
the ROLL to the next index, frames numbered from the SYN on with the DATA offsets they stand at, and records that are
not before the end of their segments.  `log_well_formed` is that every run over segment files keeps to it whose file
operations succeed and that never rolls past index `2 ^ 32 - 1`; `wrapped_log_malformed` is the file such a roll goes on
with.  Over such files no segment begins with a ROLL, and a call of `next` returns at once (`next_returns`).
-/
namespace Ccb
namespace Fstun

open Machine (run Meets)

variable {crc : List UInt8 → UInt32} {d d' : SegDir} {pre : List (List Frame)} {last : List Frame} {cap : Nat}
    {io : SegIo}

/-! ## Numbers -/

/-- **Frames are numbered from 0**, and carry the count of the DATA bytes before them. -/
def Numbered (log : List Frame) : Prop :=
  ∀ (j : Nat) (f : Frame), log[j]? = some f → f.seq = .ofNat j ∧ f.dataOff = .ofNat (dataOf (log.take j)).length

theorem Numbered.nil : Numbered [] := fun j f h => by cases h

theorem Numbered.concat {log : List Frame} {f : Frame} (h : Numbered log) (hseq : f.seq = .ofNat log.length)
    (hoff : f.dataOff = .ofNat (dataOf log).length) : Numbered (log ++ [f]) := by
  intro j g hg
  rcases getElem?_concat_some hg with hg | ⟨rfl, rfl⟩
  · obtain ⟨hlt, -⟩ := List.getElem?_eq_some_iff.1 hg
    rw [List.take_append_of_le_length (Nat.le_of_lt hlt)]
    exact h j g hg
  · rw [List.take_left]
    exact ⟨hseq, hoff⟩

/-- A segment with a frame in it, within the limit or of that frame alone. -/
def Sized (crc : List UInt8 → UInt32) (cap : Nat) (seg : List Frame) : Prop :=
  ∃ f rest, seg = f :: rest ∧ (encodes crc seg).length ≤ max cap (f.encode crc).length

theorem Sized.single (f : Frame) : Sized crc cap [f] :=
  ⟨f, [], rfl, by rw [encodes_singleton]; exact Nat.le_max_right _ _⟩

theorem Sized.concat {seg : List Frame} {f : Frame} (h : Sized crc cap seg)
    (hle : (encodes crc seg).length + (f.encode crc).length ≤ cap) : Sized crc cap (seg ++ [f]) := by
  obtain ⟨g, rest, rfl, -⟩ := h
  refine ⟨g, rest ++ [f], rfl, ?_⟩
  rw [encodes_append, encodes_singleton, List.length_append]
  exact le_trans hle (Nat.le_max_left _ _)

/-! ## Steps of an endpoint -/

section
variable {k k' : Core} {call : Option Call} {c c' : Conn} {a : Act}

/-- The counter starts at 1: the SYN is frame 0. -/
theorem Core.Step.sendSeq_early (h : Core.Step k call k') (he : k.phase ≠ .up → k.sendSeq = 1) :
    k'.phase ≠ .up → k'.sendSeq = 1 := by
  cases h with
  | phase _ _ hp => exact fun _ => he hp
  | syn _ hp => exact fun _ => he (by rw [hp]; exact fun h => by cases h)
  | hello => exact fun h => absurd rfl h
  | refuse _ hp => exact fun _ => he (by rw [hp]; exact fun h => by cases h)
  | sendAck _ _ _ _ hp => exact fun h => absurd hp h
  | sendBeat _ _ hp => exact fun h => absurd hp h
  | sendFin _ hp => exact fun h => absurd hp h
  | sendData _ _ _ _ _ hp => exact fun h => absurd hp h
  | _ => exact he

/-- **A frame is the SYN or takes the next number.** -/
theorem Core.Step.stamps {f : Frame} {e : UInt64} {ok : Bool} (h : Core.Step k (some (.append f e ok)) k') :
    (k.phase = .opened ∧ f = k.params.syn ∧ k'.sendSeq = k.sendSeq) ∨
      (k.phase = .up ∧ f.seq = k.sendSeq ∧ f.dataOff = k.sentData ∧ k'.sendSeq = k.sendSeq + 1) := by
  cases h with
  | phase _ _ _ _ _ hpl => cases hpl _ rfl
  | closeLate _ _ _ _ _ hpl => cases hpl _ rfl
  | syn _ hp => exact Or.inl ⟨hp, rfl, rfl⟩
  | sendAck _ _ _ _ hp => exact Or.inr ⟨hp, rfl, rfl, rfl⟩
  | sendBeat _ _ hp => exact Or.inr ⟨hp, rfl, rfl, rfl⟩
  | sendFin _ hp => exact Or.inr ⟨hp, rfl, rfl, rfl⟩
  | sendData _ _ _ _ _ hp => exact Or.inr ⟨hp, rfl, rfl, rfl⟩

/-- A step that appends nothing counts nothing. -/
theorem Core.Step.counts (h : Core.Step k call k') (hno : ∀ f e ok, call ≠ some (.append f e ok)) :
    k'.sendSeq = k.sendSeq ∧ k'.sentTotal = k.sentTotal := by
  cases h with
  | sendAck => exact absurd rfl (hno _ _ _)
  | sendBeat => exact absurd rfl (hno _ _ _)
  | sendFin => exact absurd rfl (hno _ _ _)
  | sendData => exact absurd rfl (hno _ _ _)
  | _ => exact ⟨rfl, rfl⟩

/-- **The handshake's first two steps**: the writer is opened, and the SYN appended. -/
theorem step_first (h : c.step a = some (c', call)) :
    (c.phase = .down → ∃ ok, call = some (.openW ok) ∧ c'.phase = if ok then .opened else .failed) ∧
      (c.phase = .opened → ∃ ok, call = some (.append c.params.syn 0 ok)) ∧ (c'.phase = .opened → c.phase = .down) := by
  by_cases hup : c.phase = .up
  · have hup' := (step_of_up hup h).1
    refine ⟨fun hp => ?_, fun hp => ?_, fun hp => ?_⟩
    · cases hp.symm.trans hup
    · cases hp.symm.trans hup
    · cases hp.symm.trans hup'
  · obtain ⟨b, hs⟩ := Conn.step_not_up h hup
    cases hs with
    | openW ok hp => exact ⟨fun _ => ⟨ok, rfl, rfl⟩, (fun h => by cases hp.symm.trans h), fun _ => hp⟩
    | syn ok hp =>
      refine ⟨(fun h => by cases hp.symm.trans h), fun _ => ⟨ok, rfl⟩, fun h => ?_⟩
      cases ok <;> cases h
    | turn t now hp =>
      refine ⟨(fun h => by cases hp.symm.trans h), (fun h => by cases hp.symm.trans h), fun h => ?_⟩
      unfold Conn.waitSYN at h
      (repeat' split at h) <;> first | cases h | cases hp.symm.trans h
    | giveUp hp | closeW hp | closeR hp =>
      exact ⟨(fun h => by cases hp.symm.trans h), (fun h => by cases hp.symm.trans h), fun h => by cases h⟩

end

/-! ## The segments -/

/-- **The segments of a direction**: none is empty but the current one, and none is past its limit but for its first
frame. -/
structure Shaped (crc : List UInt8 → UInt32) (cap : Nat) (d : SegDir) (pre : List (List Frame)) (last : List Frame) :
    Prop where
  layout : Layout crc d pre last
  limit  : d.maxSeg = cap
  closed : ∀ seg ∈ pre, Sized crc cap seg
  tip    : last ≠ [] → Sized crc cap last
  size   : (encodes crc last).length = d.size

theorem encodes_pos {seg : List Frame} (h : seg ≠ []) : 0 < (encodes crc seg).length := by
  obtain ⟨f, rest, rfl⟩ := List.exists_cons_of_ne_nil h
  have hcons : encodes crc (f :: rest) = f.encode crc ++ encodes crc rest := rfl
  rw [hcons, List.length_append]
  exact Nat.add_pos_left (encode_pos f) _

theorem Shaped.first (h : Fresh d) (hmax : d.maxSeg = cap) : Shaped crc cap (d.openCur true).1 [] [] := by
  refine ⟨h.layout, ?_, (fun seg hseg => by cases hseg), fun hne => absurd rfl hne, ?_⟩
  · unfold SegDir.openCur
    rw [if_pos ⟨rfl, h.here⟩, h.names]
    exact hmax
  · unfold SegDir.openCur
    rw [if_pos ⟨rfl, h.here⟩, h.names]
    rfl

/-- The frame fits, or it is the first of its segment. -/
theorem Shaped.put {f : Frame} (h : Shaped crc cap d pre last) (hio : io.fails = none)
    (hf : f.typ ≠ frameROLL ∧ f.payload.length ≤ maxPayload) (hr : d.rolls crc f = false) :
    ∃ d', d.put crc io f = (d', true) ∧ d'.closed = d.closed ∧ Shaped crc cap d' pre (last ++ [f]) := by
  obtain ⟨hput, hl⟩ := h.layout.put hio hf
  refine ⟨_, hput, rfl, hl, h.limit, h.closed, fun _ => ?_, ?_⟩
  · by_cases hne : last = []
    · rw [hne]
      exact .single f
    · have hsize := h.size
      have hpos : 0 < (encodes crc last).length := encodes_pos hne
      have hno : ¬(0 < d.size ∧ d.maxSeg < d.size + (f.encode crc).length) := of_decide_eq_false hr
      have hlim := h.limit
      exact (h.tip hne).concat (by omega)
  · show _ = d.size + (f.encode crc).length
    rw [encodes_append, encodes_singleton, List.length_append, h.size]

/-- Only a segment with a frame in it is closed. -/
theorem Shaped.roll (h : Shaped crc cap d pre last) (hio : io.Smooth) (e : UInt64) (hpos : 0 < d.size)
    (hw : d.cur.toNat + 1 < UInt32.size) :
    ∃ d', d.roll crc io e = (d', true) ∧ d'.closed = d.closed ∧ d'.size = 0 ∧ Shaped crc cap d' (pre ++ [last]) [] := by
  obtain ⟨d', hroll, hl, -, -, -, -, hcl, -, hmax⟩ := h.layout.roll e hio.rollFails hio.openOk hw
  have hsize : d'.size = 0 := by
    have hz : (d.roll crc io e).1.size = 0 := roll_size (by rw [hroll])
    rwa [hroll] at hz
  refine ⟨d', hroll, hcl, hsize, hl, hmax.trans h.limit, fun seg hseg => ?_, fun hne => absurd rfl hne, by
    rw [hsize]; rfl⟩
  rcases List.mem_append.1 hseg with hseg | hseg
  · exact h.closed seg hseg
  · rw [List.mem_singleton.1 hseg]
    refine h.tip fun hnil => ?_
    have hzero := h.size
    rw [hnil] at hzero
    exact Nat.ne_of_lt hpos hzero

theorem Shaped.append {f : Frame} (h : Shaped crc cap d pre last) (hio : io.Smooth) (e : UInt64)
    (hf : f.typ ≠ frameROLL ∧ f.payload.length ≤ maxPayload) (hcl : d.closed = false)
    (hfit : d.rolls crc f = true → d.cur ≠ 4294967295) :
    ∃ d' pre' last', d.append crc io f e = (d', true) ∧ d'.closed = false ∧ Shaped crc cap d' pre' last' ∧
      pre'.flatten ++ last' = pre.flatten ++ last ++ [f] := by
  unfold SegDir.append
  rw [if_neg (by rw [hcl]; exact Bool.false_ne_true)]
  cases hr : d.rolls crc f with
  | false =>
    rw [if_neg Bool.false_ne_true]
    obtain ⟨d', hput, hcl', h'⟩ := h.put hio.fails hf hr
    exact ⟨d', pre, last ++ [f], hput, hcl'.trans hcl, h', (List.append_assoc ..).symm⟩
  | true =>
    obtain ⟨d₁, hroll, hcl₁, hsize, h₁⟩ := h.roll hio e (of_decide_eq_true hr).1 (toNat_succ_lt (hfit hr))
    obtain ⟨d', hput, hcl', h'⟩ := h₁.put hio.fails hf (by simp [SegDir.rolls, hsize])
    rw [if_pos rfl, hroll]
    exact ⟨d', pre ++ [last], [f], hput, hcl'.trans (hcl₁.trans hcl), h', by simp⟩

/-! ## An endpoint and the segments it writes -/

/-- **An endpoint past its first step and its direction.**  While the writer is open, the counters are those of the
frames in the files. -/
structure Formed (crc : List UInt8 → UInt32) (cap : Nat) (c : Conn) (d : SegDir) (pre : List (List Frame))
    (last : List Frame) : Prop where
  shape    : Shaped crc cap d pre last
  numbered : Numbered (pre.flatten ++ last)
  started  : c.phase ≠ .down
  opened   : c.phase = .opened → pre.flatten ++ last = [] ∧ d.closed = false
  spoken   : c.phase ≠ .opened → pre.flatten ++ last ≠ []
  count    : d.closed = false → c.sendSeq = .ofNat (max 1 (pre.flatten ++ last).length) ∧
    c.sentTotal = (dataOf (pre.flatten ++ last)).length

section
variable {c c' : Conn} {a : Act} {call : Option Call}

/-- A step that appends nothing. -/
theorem Formed.quiet (h : Formed crc cap c d pre last) (hs : c.step a = some (c', call))
    (hno : ∀ f e ok, call ≠ some (.append f e ok)) (hsh : Shaped crc cap d' pre last)
    (hcl : d'.closed = false → d.closed = false) : Formed crc cap c' d' pre last := by
  obtain ⟨-, hsyn, hopen⟩ := step_first hs
  obtain ⟨hseq, htotal⟩ := (step_core hs).counts hno
  refine ⟨hsh, h.numbered, (step_down hs).1, fun hp => absurd (hopen hp) h.started, fun _ => ?_, fun hc => ?_⟩
  · refine h.spoken fun hp => ?_
    obtain ⟨ok, hcall⟩ := hsyn hp
    exact hno _ _ _ hcall
  · obtain ⟨h1, h2⟩ := h.count (hcl hc)
    exact ⟨hseq.trans h1, htotal.trans h2⟩

/-- The number and the offset of the frame an open writer is given. -/
theorem Formed.stamps {f : Frame} {e : UInt64} {ok : Bool} (h : Formed crc cap c d pre last)
    (hs : c.step a = some (c', some (.append f e ok))) (hsent : c.sentData = .ofNat c.sentTotal)
    (hcl : d.closed = false) :
    f.seq = .ofNat (pre.flatten ++ last).length ∧ f.dataOff = .ofNat (dataOf (pre.flatten ++ last)).length ∧
      c'.sendSeq = .ofNat (max 1 ((pre.flatten ++ last).length + 1)) := by
  obtain ⟨hseq, htotal⟩ := h.count hcl
  rcases (step_core hs).stamps with ⟨hp, rfl, hnext⟩ | ⟨hp, hf, hoff, hnext⟩
  · rw [(h.opened hp).1] at hseq ⊢
    exact ⟨rfl, rfl, hnext.trans hseq⟩
  · have hne : pre.flatten ++ last ≠ [] := h.spoken fun ho => by cases ho.symm.trans hp
    have hmax : max 1 (pre.flatten ++ last).length = (pre.flatten ++ last).length :=
      Nat.max_eq_right (List.length_pos_iff.2 hne)
    rw [hmax] at hseq
    refine ⟨hf.trans hseq, hoff.trans (htotal ▸ hsent), hnext.trans ?_⟩
    show c.sendSeq + 1 = _
    rw [hseq, Nat.max_eq_right (Nat.le_add_left _ _), UInt64.ofNat_add]
    rfl

/-- **An append**: the frame takes its number and offset, and is last in the files. -/
theorem Formed.append {f : Frame} {e : UInt64} {ok : Bool} (h : Formed crc cap c d pre last)
    (hs : c.step a = some (c', some (.append f e ok))) (hearly : c.phase ≠ .up → c.sentTotal = 0)
    (hsent : c.sentData = .ofNat c.sentTotal) (hio : io.Smooth) (hfit : d.Fits crc (.append f e ok))
    (hp : d.perform crc io (.append f e ok) = some d') : ∃ pre' last', Formed crc cap c' d' pre' last' := by
  obtain ⟨-, -, hopen⟩ := step_first hs
  have hstarted := (step_down hs).1
  have hnot : c'.phase ≠ .opened := fun hp => absurd (hopen hp) h.started
  cases SegDir.perform_some hp
  cases hcl : d.closed with
  | true =>
    rw [SegDir.append_idle f e (Or.inl hcl)]
    refine ⟨pre, last, h.shape, h.numbered, hstarted, fun hp => absurd hp hnot, fun _ => ?_, fun hc => ?_⟩
    · refine h.spoken fun hp => ?_
      cases hcl.symm.trans (h.opened hp).2
    · cases hcl.symm.trans hc
  | false =>
    obtain ⟨d₁, pre', last', happ, hcl', hsh, hlog⟩ := h.shape.append hio e (step_core hs).sends hcl (hfit hcl)
    obtain ⟨hseq, hoff, hnext⟩ := h.stamps hs hsent hcl
    rw [happ]
    refine ⟨pre', last', hsh, hlog ▸ h.numbered.concat hseq hoff, hstarted, fun hp => absurd hp hnot, fun _ => ?_,
      fun _ => ⟨?_, ?_⟩⟩
    · rw [hlog]
      exact List.concat_ne_nil _ _
    · rw [hlog, List.length_append]
      exact hnext
    · have htotal : c.sentTotal + f.data.length = c'.sentTotal := ((step_core hs).dataEnd hearly hsent).2
      rw [hlog, dataOf_append, dataOf_singleton, List.length_append, ← (h.count hcl).2]
      exact htotal.symm

/-- An endpoint before its first step, with no directory yet. -/
structure Untouched (cap : Nat) (c : Conn) (d : SegDir) : Prop where
  down   : c.phase = .down
  files  : d.files = []
  opened : d.closed = false
  limit  : d.maxSeg = cap

/-- The first step opens an empty segment. -/
theorem Untouched.opens {ok : Bool} (h : Untouched cap c d) (hfr : Fresh d) (hseq : c.sendSeq = 1)
    (htotal : c.sentTotal = 0)
    (hs : c.step a = some (c', some (.openW ok))) (hio : io.Smooth) (hp : d.perform crc io (.openW ok) = some d') :
    Formed crc cap c' d' [] [] := by
  have hsh : Shaped crc cap (d.openCur true).1 [] [] := .first hfr h.limit
  obtain ⟨hopen, -⟩ := step_first hs
  obtain ⟨ok', hcall, hphase⟩ := hopen h.down
  obtain ⟨hseq', htotal'⟩ := (step_core hs).counts (fun f e ok h => by cases h)
  cases hcall
  cases SegDir.perform_some hp
  rw [hio.openOk] at hphase ⊢
  have hdone : (d.openCur true).2 = true ∧ (d.openCur true).1.closed = d.closed := by
    unfold SegDir.openCur
    rw [if_pos ⟨rfl, hfr.here⟩, hfr.names]
    exact ⟨rfl, rfl⟩
  rw [hdone.1, if_pos rfl] at hphase
  refine ⟨hsh, .nil, (step_down hs).1, fun _ => ⟨rfl, hdone.2.trans h.opened⟩, fun hne => absurd hphase hne,
    fun _ => ?_⟩
  exact ⟨hseq'.trans hseq, htotal'.trans htotal⟩

/-- A call of the reader leaves the segments as they are. -/
theorem Shaped.reads {x : Call} (h : Shaped crc cap d pre last) (hx : x.reads = true)
    (hp : d.perform crc io x = some d') :
    Shaped crc cap d' pre last ∧ d'.closed = d.closed := by
  obtain ⟨sh, r, rfl⟩ := perform_reads hx hp
  have hl := h.layout
  exact ⟨⟨⟨hl.cur, hl.files, hl.f, hl.here, hl.names, hl.live, hl.reap, hl.frames⟩, h.limit, h.closed, h.tip, h.size⟩,
    rfl⟩

/-- **One call of the writer.** -/
theorem Formed.writes {x : Call} (h : Formed crc cap c d pre last) (hs : c.step a = some (c', some x))
    (hx : x.reads = false) (hearly : c.phase ≠ .up → c.sentTotal = 0) (hsent : c.sentData = .ofNat c.sentTotal)
    (hio : io.Smooth) (hfit : d.Fits crc x) (hp : d.perform crc io x = some d') :
    ∃ pre' last', Formed crc cap c' d' pre' last' := by
  cases x with
  | openW ok => exact absurd ((step_down hs).2 ok rfl) h.started
  | append f e ok => exact h.append hs hearly hsent hio hfit hp
  | reap v =>
    cases hp
    have hsh := h.shape
    exact ⟨pre, last, h.quiet hs (fun f e ok h => by cases h)
      ⟨hsh.layout.reaps v, hsh.limit, hsh.closed, hsh.tip, hsh.size⟩ id⟩
  | closeW =>
    cases hp
    have hsh := h.shape
    exact ⟨pre, last, h.quiet hs (fun f e ok h => by cases h)
      ⟨hsh.layout.closeW, hsh.limit, hsh.closed, hsh.tip, hsh.size⟩ (fun hc => by cases hc)⟩
  | next t => cases hx
  | closeR => cases hx

end

/-! ## Runs -/

/-- **What holds of every run over segment files.** -/
structure FormInv (p : Role → Params) (s : Pipe (segFiles crc)) : Prop where
  inv   : ∃ u, ReapInv s u
  early : ∀ r, (s.conn r).phase ≠ .up → (s.conn r).sendSeq = 1
  form  : ∀ r, Untouched (p r).segmentSize.toNat (s.conn r) (s.dir r) ∨
    ∃ pre last, Formed crc (p r).segmentSize.toNat (s.conn r) (s.dir r) pre last

theorem FormInv.start (p : Role → Params) (idle : Role → Nat) (netFS : Role → Bool) :
    FormInv p (Pipe.startFiles crc p idle netFS) :=
  ⟨⟨_, .start p idle netFS⟩, fun _ _ => rfl, fun _ => Or.inl ⟨rfl, rfl, rfl, rfl⟩⟩

section
variable {p : Role → Params} {s t : Pipe (segFiles crc)} {u : Pipe fifo} {l : Label (segFiles crc)} {call : Option Call}

/-- A step of the endpoint that writes the direction. -/
theorem FormInv.own (h : FormInv p s) (hu : ReapInv s u) (hio : SegIo.Smooth l.io) (hw : NoWrap s l)
    (hc : (s.conn l.role).step l.act = some (t.conn l.role, call))
    (hdir : (∀ x, call = some x → x.reads = true) ∧ t.dir l.role = s.dir l.role ∨
      ∃ x, call = some x ∧ x.reads = false ∧ SegDir.perform crc (s.dir l.role) l.io x = some (t.dir l.role)) :
    ∃ pre last, Formed crc (p l.role).segmentSize.toNat (t.conn l.role) (t.dir l.role) pre last := by
  rcases h.form l.role with hun | ⟨pre, last, hf⟩
  · have hne : (s.conn l.role).phase ≠ .up := by
      rw [hun.down]
      exact fun h => by cases h
    obtain ⟨ok, rfl, -⟩ := (step_first hc).1 hun.down
    rcases hdir with ⟨hrd, -⟩ | ⟨x, hx, -, hp⟩
    · cases hrd _ rfl
    · cases hx
      rcases hu.sim.dirs l.role with ⟨hfr, -⟩ | ⟨pre, last, hl, -⟩
      · exact ⟨[], [], hun.opens hfr (h.early _ hne) (hu.early _ hne) hc hio hp⟩
      · exact (hl.not_fresh hun.files).elim
  · rcases hdir with ⟨hrd, hdir⟩ | ⟨x, rfl, hx, hp⟩
    · refine ⟨pre, last, hf.quiet hc (fun f e ok hcall => ?_) (hdir ▸ hf.shape) (fun hcl => hdir ▸ hcl)⟩
      cases hrd _ hcall
    · have hdo : x.dirOf l.role = l.role := if_neg (by rw [hx]; exact Bool.false_ne_true)
      have hsent : (u.conn l.role).core.sentData = .ofNat (u.conn l.role).core.sentTotal :=
        (hu.inv l.role).flow.sentData
      rw [hu.sim.conn] at hsent
      refine hf.writes hc hx (hu.early _) hsent hio ?_ hp
      unfold NoWrap at hw
      rw [hc] at hw
      exact hdo ▸ hw

/-- A step of its peer, which may read it. -/
theorem FormInv.other {r : Role} (h : FormInv p s) (hconn : t.conn r = s.conn r)
    (hdir : t.dir r = s.dir r ∨ ∃ x, x.reads = true ∧ SegDir.perform crc (s.dir r) l.io x = some (t.dir r)) :
    Untouched (p r).segmentSize.toNat (t.conn r) (t.dir r) ∨
      ∃ pre last, Formed crc (p r).segmentSize.toNat (t.conn r) (t.dir r) pre last := by
  rw [hconn]
  rcases hdir with hdir | ⟨x, hx, hp⟩
  · rw [hdir]
    exact h.form r
  · rcases h.form r with hun | ⟨pre, last, hf⟩
    · obtain ⟨sh, rd, hd⟩ := perform_reads hx hp
      rw [hd]
      exact Or.inl ⟨hun.down, hun.files, hun.opened, hun.limit⟩
    · obtain ⟨hsh, hcl⟩ := hf.shape.reads hx hp
      refine Or.inr ⟨pre, last, hsh, hf.numbered, hf.started, ?_, hf.spoken, ?_⟩
      · rw [hcl]
        exact hf.opened
      · rw [hcl]
        exact hf.count

theorem FormInv.step (h : FormInv p s) (hio : SegIo.Smooth l.io) (hw : NoWrap s l) (hs : s.step l = some t) :
    FormInv p t := by
  obtain ⟨u, hu⟩ := h.inv
  obtain ⟨u', -, hu'⟩ := hu.step hio hw hs
  refine ⟨⟨u', hu'⟩, fun r => ?_, fun r => ?_⟩
  · rcases Pipe.step_at hs r with ⟨rfl, call, hc, -⟩ | ⟨-, hconn, -⟩
    · exact (step_core hc).sendSeq_early (h.early _)
    · rw [hconn]
      exact h.early r
  · rcases Pipe.step_at hs r with ⟨rfl, call, hc, hdir⟩ | ⟨-, hconn, hdir⟩
    · exact Or.inr (h.own hu hio hw hc hdir)
    · exact h.other hconn hdir

theorem formInv_of_run {idle : Role → Nat} {netFS : Role → Bool} {ls : List (Label (segFiles crc))}
    (hio : ∀ l ∈ ls, SegIo.Smooth l.io) (hw : Meets Pipe.step NoWrap (Pipe.startFiles crc p idle netFS) ls)
    (hr : run Pipe.step (Pipe.startFiles crc p idle netFS) ls = some s) : FormInv p s :=
  Machine.inv_of_meets (fun _ _ _ h hg hs => h.step hg.1 hg.2 hs) ls _ _ (.start p idle netFS)
    (hw.and_labels ls _ hio) hr

end

/-! ## Well-formedness -/

/-- **A well-formed segment log** of closed segments `pre` and the current one `last`, with `cap` the segment size and
`total` the DATA bytes sent.  File `k` is the one segment `k` names. -/
structure WellFormed (crc : List UInt8 → UInt32) (cap total : Nat) (d : SegDir) (pre : List (List Frame))
    (last : List Frame) : Prop where
  cur      : d.cur.toNat = pre.length ∧ d.names d.cur = some pre.length
  names    : ∀ i ino, d.names i = some ino → ino = i.toNat ∧ i.toNat ≤ pre.length
  closed   : ∀ (k : Nat) (seg : List Frame), pre[k]? = some seg →
    seg ≠ [] ∧ d.files[k]? = some (encodes crc (seg ++ [rollFrame (.ofNat (k + 1))]))
  current  : d.files[pre.length]? = some (encodes crc last)
  plain    : ∀ seg ∈ pre ++ [last], ∀ f ∈ seg, f.typ ≠ frameROLL
  numbered : Numbered (pre ++ [last]).flatten
  size     : ∀ (k : Nat) (f : Frame) (rest : List Frame), pre[k]? = some (f :: rest) →
    ∃ b, d.files[k]? = some b ∧ b.length ≤ max cap (f.encode crc).length + 30
  recorded : ∀ x ∈ d.reapOff, x.idx.toNat < pre.length ∧
    (total < UInt64.size → dataTo pre last x.idx.toNat ≤ x.dataEnd.toNat)

theorem Recorded.le {x : SegEnd} {total : Nat} (h : Recorded pre last total x) (ht : total < UInt64.size) :
    dataTo pre last x.idx.toNat ≤ x.dataEnd.toNat := by
  obtain ⟨n, g, rest, hend, hn, -, hle⟩ := h
  rw [hend, UInt64.toNat_ofNat_of_lt' (by omega)]
  omega

theorem Formed.wellFormed {c : Conn} {total : Nat} (h : Formed crc cap c d pre last)
    (hrec : ∀ x ∈ d.reapOff, Recorded pre last total x) : WellFormed crc cap total d pre last := by
  have hl := h.shape.layout
  refine ⟨⟨hl.cur, hl.live⟩, hl.names, fun k seg hseg => ⟨?_, hl.file_closed hseg⟩, hl.file_last,
    fun seg hseg f hf => (hl.frames seg hseg f hf).1, ?_, fun k f rest hseg => ⟨_, hl.file_closed hseg, ?_⟩,
    fun x hx => ⟨hl.reap x hx, (hrec x hx).le⟩⟩
  · obtain ⟨f, rest, rfl, -⟩ := h.shape.closed seg (List.mem_of_getElem? hseg)
    exact List.cons_ne_nil f rest
  · have hflat : (pre ++ [last]).flatten = pre.flatten ++ last := by simp
    exact hflat ▸ h.numbered
  · obtain ⟨g, rest', heq, hle⟩ := h.shape.closed _ (List.mem_of_getElem? hseg)
    cases heq
    rw [encodes_append, encodes_singleton, List.length_append, length_rollFrame]
    exact Nat.add_le_add_right hle 30

/-- **Before its first step a direction has no file; from then on its segment log is well formed.** -/
theorem log_well_formed (crc : List UInt8 → UInt32) (p : Role → Params) (idle : Role → Nat) (netFS : Role → Bool)
    (ls : List (Label (segFiles crc))) (s : Pipe (segFiles crc)) (r : Role) (hio : ∀ l ∈ ls, SegIo.Smooth l.io)
    (hw : Meets Pipe.step NoWrap (Pipe.startFiles crc p idle netFS) ls)
    (hr : run Pipe.step (Pipe.startFiles crc p idle netFS) ls = some s) :
    ((s.conn r).phase = .down ∧ SegDir.files (s.dir r) = []) ∨
      ∃ pre last, WellFormed crc (p r).segmentSize.toNat (s.conn r).sentTotal (s.dir r) pre last := by
  have hinv := formInv_of_run hio hw hr
  obtain ⟨u, hu⟩ := hinv.inv
  rcases hinv.form r with hun | ⟨pre, last, hf⟩
  · exact Or.inl ⟨hun.down, hun.files⟩
  · exact Or.inr ⟨pre, last, hf.wellFormed ((hu.ends r).recorded pre last hf.shape.layout)⟩

theorem log_well_formed_delivery : ∃ s, run Pipe.step (tinyStart true) (greeting ++ delivery) = some s ∧
    SegDir.cur (s.dir .initiator) = 1 ∧ SegDir.reapOff (s.dir .initiator) = [⟨0, 1⟩] ∧
      ∃ pre last, WellFormed (fun _ => 0) 1 1 (s.dir .initiator) pre last := by
  have hrun : (run Pipe.step (tinyStart true) (greeting ++ delivery)).map (fun s =>
      ((s.conn .initiator).phase, (s.conn .initiator).sentTotal, SegDir.cur (s.dir .initiator),
        SegDir.reapOff (s.dir .initiator))) = some (.up, 1, 1, [⟨0, 1⟩]) := by decide +kernel
  obtain ⟨s, hs, hstate⟩ := Option.map_eq_some_iff.1 hrun
  simp only [Prod.mk.injEq] at hstate
  obtain ⟨hphase, htotal, hcur, hreap⟩ := hstate
  refine ⟨s, hs, hcur, hreap, ?_⟩
  rcases log_well_formed (fun _ => 0) (fun _ => tiny) (fun _ => 0) (fun _ => true) (greeting ++ delivery) s .initiator
    (by decide +kernel) (by decide +kernel) hs with ⟨hdown, -⟩ | ⟨pre, last, hwf⟩
  · cases hphase.symm.trans hdown
  · rw [htotal] at hwf
    exact ⟨pre, last, hwf⟩

/-! ## Reading such a log

No segment of it starts with a ROLL, so a call of `next` passes at most one. -/

theorem Shaped.hop_none (h : Shaped crc cap d pre last) (i : UInt32) : hop crc d.view i = none := by
  unfold hop
  split
  · rfl
  · rename_i ino hlook
    obtain ⟨hname, -⟩ := Option.filter_eq_some_iff.1 hlook
    obtain ⟨rfl, hle⟩ := h.layout.names i ino hname
    -- What is shown of a file is a prefix of its frames, and the first of these is no ROLL.
    obtain ⟨fs, hfs, hplain⟩ : ∃ fs, (fileFrames pre last)[i.toNat]? = some fs ∧
        ∀ f rest, fs = f :: rest → f.typ ≠ frameROLL := by
      rcases Nat.lt_or_eq_of_le hle with hlt | heq
      · have hseg := List.getElem?_eq_getElem hlt
        have hmem := List.mem_of_getElem? hseg
        obtain ⟨g, rest, hg, -⟩ := h.closed _ hmem
        refine ⟨_, fileFrames_closed last hseg, fun f rest' hf => ?_⟩
        rw [hg] at hf
        cases hf
        exact (h.layout.frames _ (List.mem_append_left _ hmem) g (hg ▸ List.mem_cons_self)).1
      · refine ⟨last, heq ▸ fileFrames_last pre last, fun f rest hf => ?_⟩
        exact (h.layout.frames last (List.mem_append_right _ (List.mem_singleton.2 rfl)) f (hf ▸ List.mem_cons_self)).1
    have hpre : d.view.bytes i.toNat <+: encodes crc fs := h.layout.bytes hfs ▸ List.take_prefix _ _
    split
    · rename_i fr n hdec
      have hwhole := decodeFrame_of_isPrefix hpre (by rw [hdec]; exact fun h => by cases h)
      cases fs with
      | nil => cases hwhole.trans hdec
      | cons f rest =>
        have hself := @decodeFrame_encode crc f (encodes crc rest) (h.layout.payload_le hfs f List.mem_cons_self)
        cases hself.symm.trans (hwhole.trans hdec)
        exact if_neg (hplain _ rest rfl)
    · rfl

/-- **Over the files of an endpoint a call of `next` returns after four rounds at most**, wherever its reader stands. -/
theorem next_returns (crc : List UInt8 → UInt32) (p : Role → Params) (idle : Role → Nat) (netFS : Role → Bool)
    (ls : List (Label (segFiles crc))) (s : Pipe (segFiles crc)) (r : Role) (hio : ∀ l ∈ ls, SegIo.Smooth l.io)
    (hw : Meets Pipe.step NoWrap (Pipe.startFiles crc p idle netFS) ls)
    (hr : run Pipe.step (Pipe.startFiles crc p idle netFS) ls = some s) (mount : Bool) (rd : SegReader) :
    Returns crc mount (SegDir.view (s.dir r)) 4 rd := by
  have hinv := formInv_of_run hio hw hr
  obtain ⟨u, hu⟩ := hinv.inv
  have hhop : ∀ i, hop crc (SegDir.view (s.dir r)) i = none := by
    intro i
    rcases hinv.form r with hun | ⟨pre, last, hf⟩
    · rcases hu.sim.dirs r with ⟨hfr, -⟩ | ⟨pre, last, hl, -⟩
      · have hnone : (SegDir.view (s.dir r)).lookup i = none := by
          show (SegDir.names (s.dir r) i).filter _ = none
          rw [hfr.names]
          rfl
        unfold hop
        rw [hnone]
      · exact (hl.not_fresh hun.files).elim
    · exact hf.shape.hop_none i
  refine returns_of_starts (fun rd hs => returns_of_walk 1 rd hs ?_) rd
  rw [Chain.walk, hhop]
  rfl

/-! ## The roll from the last index -/

/-- **The segment a direction goes on with after `2 ^ 32` rolls has a ROLL in it.** -/
theorem wrapped_log_malformed : ∃ (ls : List Step) (s : Pipe (segFiles (fun _ => 0))) (g : Frame),
    (∀ l ∈ ls, SegIo.Smooth l.io) ∧ run Pipe.step (tinyStart false) ls = some s ∧
      SegDir.cur (s.dir .initiator) = 0 ∧ SegDir.f (s.dir .initiator) = some 0 ∧
      SegDir.names (s.dir .initiator) 0 = some 0 ∧
      (SegDir.files (s.dir .initiator))[0]? = some (encodes (fun _ => 0) [tiny.syn, rollFrame 1, g]) := by
  obtain ⟨s, hs, hlap⟩ := pulse_lap
  obtain ⟨t, ht, hlap⟩ := hlap.laps 4294967293 (by decide)
  obtain ⟨pre, last, hlen, hl⟩ := hlap.lap
  obtain ⟨d₁, happ, hw⟩ := hl.wrapped hlen (heartbeat (.ofNat (4294967295 + 1))) 1
  have hbeat := beat (beater_idles _) hlap.initiator happ
  obtain ⟨ls, hls, hrun⟩ := (hs.trans ht).trans hbeat
  have hdir : upd t.dir .initiator d₁ .initiator = d₁ := upd_self ..
  refine ⟨ls, _, heartbeat (.ofNat (4294967295 + 1)), hls, hrun, ?_⟩
  dsimp only
  rw [hdir]
  exact ⟨hw.cur, hw.f, hw.names ▸ hl.names0, hw.zero.trans (by simp [encodes, file0])⟩

end Fstun
end Ccb
