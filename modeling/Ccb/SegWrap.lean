import Ccb.Fidelity
/-!
# SegWrap — a roll from the last segment index

Segment indices are `uint32`.  With a segment size that rolls at every frame, heartbeats alone take a direction to index
`2 ^ 32 - 1`; the next roll names index 0, whose file is still there, so the writer goes on with it and the reader, sent
to index 0, reads the direction again from its start.  `Lap` is the direction after `n` rolls.
-/
namespace Ccb
namespace Fstun

variable {crc : List UInt8 → UInt32} {d : SegDir}

/-! ## Rounds of a reader that sees everything -/

section
variable {k m : Nat} {b rest : List UInt8} {io : SegIo}

theorem next_eq {r : SegReader} {t : Turn} (hio : io.fault = none)
    (h : turn crc (d.reveal io.reveal).netFS io.reopen (d.reveal io.reveal).view (d.reveal io.reveal).r = (r, t)) :
    d.next crc io = ({ d.reveal io.reveal with r := r }, t) := by
  unfold SegDir.next round
  rw [hio]
  dsimp only [Option.bind_none]
  rw [h]

theorem bytes_of_shown (hfile : d.files[k]? = some b) (hs : d.shown k = some m) (hm : b.length ≤ m) :
    d.view.bytes k = b := by
  show ((d.files[k]?).getD []).take ((d.shown k).getD 0) = b
  rw [hfile, hs]
  exact List.take_of_length_le hm

/-- The bytes of the open file that are new. -/
theorem turn_fill (hn : d.netFS = false) (hf : d.r.f = some k) (hb : d.r.buf = []) (hfile : d.files[k]? = some b)
    (hs : d.shown k = some m) (hm : b.length ≤ m) (hoff : d.r.off < b.length) (reopen : Bool) :
    turn crc d.netFS reopen d.view d.r = ({ d.r with f := some k, off := b.length, buf := b.drop d.r.off },
      .again) := by
  have hbytes := bytes_of_shown hfile hs hm
  have hlt : ¬ b.length ≤ d.r.off := by omega
  unfold turn
  simp only [hf]
  unfold turnOpen
  rw [hb, hn]
  simp only [show decodeFrame crc [] = .error .incomplete from rfl, fill, refresh, hbytes, hlt, if_false,
    Bool.false_eq_true, hb, List.nil_append]

theorem turn_open (hn : d.netFS = false) (hf : d.r.f = none) (hb : d.r.buf = []) (hname : d.names d.r.cur = some k)
    (hfile : d.files[k]? = some b) (hs : d.shown k = some m) (hm : b.length ≤ m) (hpos : 0 < b.length) (reopen : Bool) :
    turn crc d.netFS reopen d.view d.r = ({ d.r with f := some k, off := b.length, buf := b }, .again) := by
  have hbytes := bytes_of_shown hfile hs hm
  have hlook : d.view.lookup d.r.cur = some k := Option.filter_eq_some_iff.2 ⟨hname, by rw [hs]; rfl⟩
  have hlt : ¬ b.length ≤ 0 := by omega
  unfold turn
  simp only [hf, hlook]
  unfold turnOpen
  rw [hb, hn]
  simp only [show decodeFrame crc [] = .error .incomplete from rfl, fill, refresh, hbytes, hlt, if_false,
    Bool.false_eq_true, List.drop_zero, List.nil_append]

theorem turn_roll (hf : d.r.f = some k) {i : UInt32} (hb : d.r.buf = (rollFrame i).encode crc ++ rest) (reopen : Bool) :
    turn crc d.netFS reopen d.view d.r = ({ d.r with cur := i, f := none, buf := [] }, .again) := by
  have hdec : decodeFrame crc ((rollFrame i).encode crc ++ rest) = .ok
    (rollFrame i, ((rollFrame i).encode crc).length) :=
    decodeFrame_encode (rollFrame i) rest (rollFrame_payload_le i)
  have hpay : decodeUint32 (rollFrame i).payload = some i := decodeUint32_encode i
  unfold turn
  simp only [hf]
  unfold turnOpen
  rw [hb, hdec]
  dsimp only
  rw [if_pos (show (rollFrame i).typ = frameROLL from rfl), hpay]

theorem turn_frame (hf : d.r.f = some k) {g : Frame} (hb : d.r.buf = g.encode crc ++ rest) (hg : g.typ ≠ frameROLL)
    (hp : g.payload.length ≤ maxPayload) (reopen : Bool) :
    turn crc d.netFS reopen d.view d.r = ({ d.r with f := some k, buf := rest }, .frame g) := by
  unfold turn
  simp only [hf]
  unfold turnOpen
  rw [hb, decodeFrame_encode g rest hp]
  dsimp only
  rw [if_neg hg, List.drop_left, hf]

end

/-- A frame that `recvLoop` does nothing with. -/
def Frame.Ignored (f : Frame) : Prop := f.typ = frameSYN ∨ f.typ = frameHeartbeat

theorem Frame.Ignored.not_roll {f : Frame} (h : f.Ignored) : f.typ ≠ frameROLL := by
  rcases h with h | h <;> rw [h] <;> decide

/-- The reader passes rounds that return nothing, or a frame that is ignored. -/
inductive Skims (crc : List UInt8 → UInt32) : SegDir → SegDir → Prop
  | refl (d : SegDir) : Skims crc d d
  | again {d d₁ d' : SegDir} {io : SegIo} (hio : io.Smooth) (h : d.next crc io = (d₁, .again)) (hs : Skims crc d₁ d') :
    Skims crc d d'
  | frame {d d₁ d' : SegDir} {io : SegIo} {f : Frame} (hio : io.Smooth) (h : d.next crc io = (d₁, .frame f))
    (hf : f.Ignored) (hs : Skims crc d₁ d') : Skims crc d d'

/-! ## The files -/

theorem Layout.file_closed {pre : List (List Frame)} {last fs : List Frame} {k : Nat} (h : Layout crc d pre last)
    (hk : pre[k]? = some fs) : d.files[k]? = some (encodes crc (fs ++ [rollFrame (.ofNat (k + 1))])) := by
  rw [h.files, List.getElem?_map, fileFrames_closed last hk]
  rfl

theorem Layout.file_last {pre : List (List Frame)} {last : List Frame} (h : Layout crc d pre last) :
    d.files[pre.length]? = some (encodes crc last) := by
  rw [h.files, List.getElem?_map, fileFrames_last]
  rfl

/-- **A direction that has rolled at every frame**: `zero` and `one` are its first two files, nothing has been reaped,
and the reader has read everything. -/
structure Lap (crc : List UInt8 → UInt32) (zero one : List UInt8) (d : SegDir) (pre : List (List Frame))
    (last : List Frame) : Prop where
  layout : Layout crc d pre last
  two    : 2 ≤ pre.length
  maxSeg : d.maxSeg = 1
  netFS  : d.netFS = false
  opened : d.closed = false
  size   : 0 < d.size
  names0 : d.names 0 = some 0
  names1 : d.names 1 = some 1
  zero   : d.files[0]? = some zero
  one    : d.files[1]? = some one
  shown  : ∀ k ≤ pre.length, ∃ m, d.shown k = some m ∧ 1000 ≤ m
  small  : (encodes crc last).length ≤ 100
  rcur   : d.r.cur = d.cur
  rf     : d.r.f = some pre.length
  roff   : d.r.off = (encodes crc last).length
  rbuf   : d.r.buf = []

section
variable {zero one : List UInt8} {pre : List (List Frame)} {last : List Frame} {g : Frame}

/-- The third segment is the first the laps start from. -/
theorem Layout.lap {two : List UInt8} (h : Layout crc d pre last) (hcur : d.cur = 2)
    (hpar : d.maxSeg = 1 ∧ d.netFS = false ∧ d.closed = false) (hsize : 0 < d.size)
    (hnames : d.names 0 = some 0 ∧ d.names 1 = some 1) (hfiles : d.files = [zero, one, two]) (hsmall : two.length ≤ 100)
    (hshown : d.shown 0 = some 1000 ∧ d.shown 1 = some 1000 ∧ d.shown 2 = some 1000)
    (hr : d.r = ⟨2, some 2, two.length, []⟩) : pre.length = 2 ∧ Lap crc zero one d pre last := by
  have hlen : pre.length = 2 := by
    rw [← h.cur, hcur]; rfl
  have hlast : two = encodes crc last := by
    have := h.file_last
    rw [hlen, hfiles] at this
    exact Option.some.inj this
  subst hlast
  refine ⟨hlen, h, by omega, hpar.1, hpar.2.1, hpar.2.2, hsize, hnames.1, hnames.2, by rw [hfiles]; rfl,
    by rw [hfiles]; rfl, fun k hk => ?_, hsmall, by rw [hr, hcur], by rw [hr, hlen], by rw [hr], by rw [hr]⟩
  rw [hlen] at hk
  match k, hk with
  | 0, _ => exact ⟨_, hshown.1, Nat.le_refl _⟩
  | 1, _ => exact ⟨_, hshown.2.1, Nat.le_refl _⟩
  | 2, _ => exact ⟨_, hshown.2.2, Nat.le_refl _⟩

/-- Every frame is longer than the segment size. -/
theorem Lap.rolls (h : Lap crc zero one d pre last) (g : Frame) : d.rolls crc g = true := by
  have hsize := h.size
  have hlen : (g.encode crc).length = headerLen + g.payload.length + crcLen := Frame.length_encode g
  unfold SegDir.rolls
  rw [h.maxSeg, hlen]
  refine decide_eq_true ⟨hsize, ?_⟩
  show 1 < d.size + (22 + g.payload.length + 4)
  omega

theorem smooth_reveal (l : List (Nat × Nat)) : ({ reveal := l } : SegIo).Smooth := ⟨rfl, rfl, rfl, rfl⟩

/-- A reader at the end of its file, when a ROLL has been written there. -/
theorem Skims.roll {k m : Nat} {b : List UInt8} {i : UInt32} {d' : SegDir} (hn : d.netFS = false) (hf : d.r.f = some k)
    (hb : d.r.buf = []) (hfile : d.files[k]? = some (b ++ (rollFrame i).encode crc)) (hoff : d.r.off = b.length)
    (hs : d.shown k = some m) (hm : (b ++ (rollFrame i).encode crc).length ≤ m)
    (h : Skims crc { d with r := ⟨i, none, (b ++ (rollFrame i).encode crc).length, []⟩ } d') : Skims crc d d' := by
  have hlen : ((rollFrame i).encode crc).length = 30 := Frame.length_encode (rollFrame i)
  have hlt : d.r.off < (b ++ (rollFrame i).encode crc).length := by
    rw [hoff, List.length_append, hlen]
    omega
  have hbuf : (b ++ (rollFrame i).encode crc).drop d.r.off = (rollFrame i).encode crc ++ [] := by
    rw [hoff, List.drop_left, List.append_nil]
  refine .again (smooth_reveal []) (next_eq rfl (turn_fill hn hf hb hfile hs hm hlt true)) ?_
  exact .again (smooth_reveal []) (next_eq rfl (turn_roll rfl hbuf true)) h

/-- A reader at a segment it has not opened, whose file it is shown from now on. -/
theorem Skims.open {k m : Nat} {b : List UInt8} {d' : SegDir} (l : List (Nat × Nat)) (hn : d.netFS = false)
    (hf : d.r.f = none) (hb : d.r.buf = []) (hname : d.names d.r.cur = some k) (hfile : d.files[k]? = some b)
    (hs : (d.reveal l).shown k = some m) (hm : b.length ≤ m) (hpos : 0 < b.length)
    (h : Skims crc { d.reveal l with r := ⟨d.r.cur, some k, b.length, b⟩ } d') : Skims crc d d' :=
  .again (smooth_reveal l) (next_eq rfl (turn_open (d := d.reveal l) hn hf hb hname hfile hs hm hpos true)) h

/-- A reader whose buffer starts with a frame that is ignored. -/
theorem Skims.pass {k : Nat} {rest : List UInt8} {g : Frame} {d' : SegDir} (hf : d.r.f = some k)
    (hb : d.r.buf = g.encode crc ++ rest) (hg : g.Ignored) (hp : g.payload.length ≤ maxPayload)
    (h : Skims crc { d with r := ⟨d.r.cur, some k, d.r.off, rest⟩ } d') : Skims crc d d' :=
  .frame (smooth_reveal []) (next_eq rfl (turn_frame (d := d) hf hb hg.not_roll hp true)) hg h

theorem encode_pos (f : Frame) : 0 < (f.encode crc).length := by
  rw [Frame.length_encode]
  exact Nat.succ_pos _

/-- `d₁` is `d` with one frame more, in a segment of its own. -/
structure Ahead (crc : List UInt8 → UInt32) (d d₁ : SegDir) (pre : List (List Frame)) (last : List Frame) (g : Frame) :
    Prop where
  layout : Layout crc d₁ (pre ++ [last]) [g]
  r      : d₁.r = d.r
  shown  : d₁.shown = d.shown
  names  : ∀ i : UInt32, i.toNat ≤ pre.length → d₁.names i = d.names i
  maxSeg : d₁.maxSeg = d.maxSeg
  netFS  : d₁.netFS = d.netFS
  closed : d₁.closed = d.closed
  size   : 0 < d₁.size

/-- The writer's part of a round. -/
theorem Lap.ahead (h : Lap crc zero one d pre last) (hn : pre.length + 1 < UInt32.size) (hg : g.typ ≠ frameROLL)
    (hp : g.payload.length ≤ maxPayload) (dataEnd : UInt64) :
    ∃ d₁, d.append crc {} g dataEnd = (d₁, true) ∧ Ahead crc d d₁ pre last g := by
  obtain ⟨d₀, hroll, hl₀, hr, hsh, hnames, -, hcl, hnet, hmax⟩ := h.layout.roll dataEnd
    (show ({} : SegIo).rollFails = none from rfl) rfl (by rw [h.layout.cur]; exact hn)
  obtain ⟨hput, hl₁⟩ := hl₀.put (show ({} : SegIo).fails = none from rfl) ⟨hg, hp⟩
  refine ⟨_, ?_, hl₁, hr, hsh, hnames, hmax, hnet, hcl, ?_⟩
  · unfold SegDir.append
    rw [if_neg (by rw [h.opened]; exact fun h => by cases h), if_pos (h.rolls g), hroll]
    exact hput
  · exact Nat.lt_of_lt_of_le (encode_pos g) (Nat.le_add_left _ _)

section
variable {d₁ : SegDir}

/-- The file the reader has open ends with the ROLL. -/
theorem Ahead.file_closed (h : Ahead crc d d₁ pre last g) :
    d₁.files[pre.length]? = some (encodes crc last ++ (rollFrame (.ofNat (pre.length + 1))).encode crc) := by
  have := h.layout.file_closed List.getElem?_concat_length
  rwa [encodes_append, encodes_singleton] at this

theorem Ahead.file_last (h : Ahead crc d d₁ pre last g) : d₁.files[pre.length + 1]? = some (g.encode crc) := by
  have := h.layout.file_last
  rwa [List.length_append, encodes_singleton] at this

theorem Ahead.file_same (h : Ahead crc d d₁ pre last g) (hl : Layout crc d pre last) {k : Nat} (hk : k < pre.length) :
    d₁.files[k]? = d.files[k]? := by
  have hold := List.getElem?_eq_getElem hk
  rw [hl.file_closed hold]
  exact h.layout.file_closed ((List.getElem?_append_left hk).trans hold)

theorem Ahead.cur (h : Ahead crc d d₁ pre last g) : d₁.cur = .ofNat (pre.length + 1) := by
  have := h.layout.cur
  rw [List.length_append] at this
  rw [← UInt32.ofNat_toNat (x := d₁.cur), this]
  rfl

theorem Ahead.live (h : Ahead crc d d₁ pre last g) : d₁.names (.ofNat (pre.length + 1)) = some (pre.length + 1) := by
  rw [← h.cur, h.layout.live, List.length_append]
  rfl

/-- The reader's part: it passes the ROLL and the frame. -/
theorem Ahead.skims (h : Ahead crc d d₁ pre last g) (hd : Lap crc zero one d pre last) (hg : g.Ignored)
    (hp : g.payload.length ≤ maxPayload) (hlen : (g.encode crc).length ≤ 100) :
    Skims crc d₁ { d₁.reveal [(pre.length + 1, 1000)] with
      r := ⟨.ofNat (pre.length + 1), some (pre.length + 1), (g.encode crc).length, []⟩ } := by
  have hroll : ((rollFrame (.ofNat (pre.length + 1))).encode crc).length = 30 := Frame.length_encode _
  have hnet : d₁.netFS = false := h.netFS.trans hd.netFS
  have hsmall := hd.small
  obtain ⟨m, hm, hle⟩ := hd.shown pre.length (Nat.le_refl _)
  refine .roll hnet (h.r ▸ hd.rf) (h.r ▸ hd.rbuf) h.file_closed (h.r ▸ hd.roff) (h.shown ▸ hm) ?_ ?_
  · rw [List.length_append, hroll]
    omega
  · refine .open [(pre.length + 1, 1000)] hnet rfl rfl h.live h.file_last (if_pos rfl) ?_ (encode_pos g) ?_
    · exact le_trans hlen (le_trans (show 100 ≤ 1000 by decide) (Nat.le_max_right _ _))
    · exact .pass rfl (List.append_nil _).symm hg hp (.refl _)

/-- Then it has read everything again. -/
theorem Ahead.lap (h : Ahead crc d d₁ pre last g) (hd : Lap crc zero one d pre last)
    (hlen : (g.encode crc).length ≤ 100) :
    Lap crc zero one { d₁.reveal [(pre.length + 1, 1000)] with
      r := ⟨.ofNat (pre.length + 1), some (pre.length + 1), (g.encode crc).length, []⟩ } (pre ++ [last]) [g] := by
  have hl := h.layout
  have hpre : (pre ++ [last]).length = pre.length + 1 := by rw [List.length_append]; rfl
  have htwo := hd.two
  refine ⟨⟨hl.cur, hl.files, hl.f, hl.here, hl.names, hl.live, hl.reap, hl.frames⟩, by omega, h.maxSeg.trans hd.maxSeg,
    h.netFS.trans hd.netFS, h.closed.trans hd.opened, h.size, (h.names 0 (Nat.zero_le _)).trans hd.names0,
    (h.names 1 (by show 1 ≤ _; omega)).trans hd.names1, (h.file_same hd.layout (by omega)).trans hd.zero,
    (h.file_same hd.layout (by omega)).trans hd.one, fun k hk => ?_, by rw [encodes_singleton]; exact hlen, h.cur.symm,
    ?_, by rw [encodes_singleton], rfl⟩
  · rw [hpre] at hk
    by_cases heq : k = pre.length + 1
    · exact ⟨_, if_pos heq, Nat.le_max_right _ _⟩
    · obtain ⟨m, hm, hle⟩ := hd.shown k (by omega)
      exact ⟨m, (if_neg heq).trans ((congrFun h.shown k).trans hm), hle⟩
  · show some (pre.length + 1) = _
    rw [hpre]

end

/-- **A frame's round**: the writer rolls to the next index and writes it there, the reader follows. -/
theorem Lap.append (h : Lap crc zero one d pre last) (hn : pre.length + 1 < UInt32.size) (hg : g.Ignored)
    (hp : g.payload.length ≤ maxPayload) (hlen : (g.encode crc).length ≤ 100) (dataEnd : UInt64) :
    ∃ d₁ d₂, d.append crc {} g dataEnd = (d₁, true) ∧ Skims crc d₁ d₂ ∧ Lap crc zero one d₂ (pre ++ [last]) [g] ∧
      ∀ i : UInt32, i.toNat ≤ pre.length → d₂.names i = d.names i := by
  obtain ⟨d₁, happ, hah⟩ := h.ahead hn hg.not_roll hp dataEnd
  exact ⟨d₁, _, happ, hah.skims h hg hp hlen, hah.lap h hlen, hah.names⟩

/-- `d₁` is `d` with one frame more, after the roll from the last index: it went to the file the direction started
with. -/
structure Wrapped (crc : List UInt8 → UInt32) (zero one : List UInt8) (d d₁ : SegDir) (last : List Frame) (g : Frame) :
    Prop where
  cur    : d₁.cur = 0
  f      : d₁.f = some 0
  r      : d₁.r = d.r
  shown  : d₁.shown = d.shown
  names  : d₁.names = d.names
  netFS  : d₁.netFS = d.netFS
  zero   : d₁.files[0]? = some (zero ++ g.encode crc)
  one    : d₁.files[1]? = some one
  closed : d₁.files[4294967295]? = some (encodes crc last ++ (rollFrame 0).encode crc)

/-- The writer's part of the round at the last index: the ROLL names index 0, and the writer goes on with that file. -/
theorem Lap.wrapped (h : Lap crc zero one d pre last) (hn : pre.length = 4294967295) (g : Frame) (dataEnd : UInt64) :
    ∃ d₁, d.append crc {} g dataEnd = (d₁, true) ∧ Wrapped crc zero one d d₁ last g := by
  have hcur : d.cur + 1 = 0 := by
    have : d.cur = 4294967295 := UInt32.toNat_inj.1 (h.layout.cur.trans hn)
    rw [this]; rfl
  have hclosed : d.files[4294967295]? = some (encodes crc last) := hn ▸ h.layout.file_last
  refine ⟨{ d with
    cur := 0, f := some 0, gone := false, size := 0 + (g.encode crc).length, reapOff := d.reapOff ++ [⟨d.cur, dataEnd⟩],
    files := (d.files.modify pre.length (· ++ (rollFrame 0).encode crc)).modify 0 (· ++ g.encode crc) },
    ?_, rfl, rfl, rfl, rfl, rfl, rfl, ?_, ?_, ?_⟩
  · unfold SegDir.append
    rw [if_neg (by rw [h.opened]; exact fun h => by cases h), if_pos (h.rolls g)]
    unfold SegDir.roll SegDir.write
    rw [h.layout.f]
    simp only [hcur, SegDir.openCur, h.layout.here, h.names0, and_self, if_true]
    rfl
  · rw [List.getElem?_modify, List.getElem?_modify, h.zero]
    simp [hn]
  · rw [List.getElem?_modify, List.getElem?_modify, h.one]
    simp [hn]
  · rw [List.getElem?_modify, List.getElem?_modify, hclosed]
    simp [hn]

/-- **The round at the last index**: the reader follows to index 0, and comes to the frame the second file starts with
once more. -/
theorem Lap.wrap {syn data : Frame} {more : List UInt8}
    (h : Lap crc (syn.encode crc ++ (rollFrame 1).encode crc) (data.encode crc ++ more) d pre last)
    (hn : pre.length = 4294967295) (hlen : (g.encode crc).length ≤ 100) (hsyn : syn.Ignored)
    (hsl : syn.payload.length ≤ 100) (hdata : data.typ ≠ frameROLL) (hdl : data.payload.length ≤ maxPayload)
    (hone : (data.encode crc ++ more).length ≤ 1000) (dataEnd : UInt64) :
    ∃ d₁ d₂ d₃, d.append crc {} g dataEnd = (d₁, true) ∧ Skims crc d₁ d₂ ∧ d₂.next crc {} = (d₃, .frame data) := by
  obtain ⟨d₁, happ, hw⟩ := h.wrapped hn g dataEnd
  have hnet : d₁.netFS = false := hw.netFS.trans h.netFS
  have htwo := h.two
  obtain ⟨m, hm, hle⟩ := h.shown pre.length (Nat.le_refl _)
  obtain ⟨m₀, hm₀, hle₀⟩ := h.shown 0 (Nat.zero_le _)
  obtain ⟨m₁, hm₁, hle₁⟩ := h.shown 1 (by omega)
  have hroll : ∀ i, ((rollFrame i).encode crc).length = 30 := fun i => Frame.length_encode (rollFrame i)
  have hsmall := h.small
  have hzl : (syn.encode crc ++ (rollFrame 1).encode crc ++ g.encode crc).length ≤ m₀ := by
    rw [List.length_append, List.length_append, hroll, Frame.length_encode]
    show 22 + syn.payload.length + 4 + 30 + _ ≤ _
    omega
  let d₂ : SegDir := { d₁ with r := ⟨1, some 1, (data.encode crc ++ more).length, data.encode crc ++ more⟩ }
  refine ⟨d₁, d₂, _, happ, ?_, next_eq rfl (turn_frame (d := d₂) rfl rfl hdata hdl true)⟩
  refine .roll hnet (hw.r ▸ h.rf) (hw.r ▸ h.rbuf) (hn ▸ hw.closed) (hw.r ▸ h.roff) (hw.shown ▸ hm)
    (by rw [List.length_append, hroll]; omega) ?_
  refine .open [] hnet rfl rfl (hw.names ▸ h.names0) hw.zero (hw.shown ▸ hm₀) hzl ?_ ?_
  · rw [List.append_assoc, List.length_append]
    exact Nat.add_pos_left (encode_pos syn) _
  refine .pass rfl (List.append_assoc ..) hsyn (le_trans hsl (by decide)) ?_
  refine .again (smooth_reveal []) (next_eq rfl (turn_roll rfl rfl true)) ?_
  show Skims crc { d₁ with r := ⟨1, none, (syn.encode crc ++ (rollFrame 1).encode crc ++ g.encode crc).length, []⟩ } d₂
  refine .open [] hnet rfl rfl (hw.names ▸ h.names1) hw.one (hw.shown ▸ hm₁) (le_trans hone hle₁) ?_ (.refl _)
  rw [List.length_append]
  exact Nat.add_pos_left (encode_pos data) _

end

/-! ## The endpoints -/

/-- The acceptor after the delivery: a byte read, and `recvLoop` at the next frame. -/
def listener : Conn :=
  { params := tiny, idleTimeout := 0, phase := .up, recvData := 1, dataSig := true, rcv := .next, reads := [.data [7]] }

/-- The initiator after it, when frame `n` is the next one. -/
def beater (n : UInt64) : Conn :=
  { params := tiny, idleTimeout := 0, phase := .up, sendSeq := n, sentData := 1, sentTotal := 1,
    writes := [⟨[7], none⟩] }

/-- The heartbeat it sends at the beginning of time. -/
def heartbeat (n : UInt64) : Frame := ⟨frameHeartbeat, 0, n, 1, encodeUint64 (.ofNat 0)⟩

section
variable {s : Pipe (segFiles crc)} {c : Conn}

abbrev SmoothLabel (l : Label (segFiles crc)) : Prop := SegIo.Smooth l.io

/-- `recvLoop` is about to read the next frame. -/
structure Conn.Listens (c : Conn) : Prop where
  up       : c.phase = .up
  rcv      : c.rcv = .next
  opened   : c.closed = false
  lastRecv : c.lastRecv = 0

/-- `maintLoop` waits for its tick, and has nothing to acknowledge. -/
structure Conn.Idles (c : Conn) : Prop where
  up     : c.phase = .up
  mnt    : c.mnt = .wait
  acked  : c.recvData = c.lastAckSent
  opened : c.sendClosed = false

theorem step_recv (hup : c.phase = .up) (a : RecvAct) : c.step (.recv a) = c.recvStep a := by
  unfold Conn.step
  rw [hup]

theorem step_maint (hup : c.phase = .up) (a : MaintAct) : c.step (.maint a) = c.maintStep a := by
  unfold Conn.step
  rw [hup]

/-- A round of the acceptor's `next`. -/
theorem listen {io : SegIo} {t : Turn} {d₁ : SegDir} (hl : c.Listens) (hc : s.conn .acceptor = c)
    (hn : (s.dir .initiator).next crc io = (d₁, t)) :
    s.step ⟨.acceptor, .recv (.turn t 0), io⟩ =
      some ⟨upd s.conn .acceptor (c.received t 0), upd s.dir .initiator d₁⟩ := by
  refine Pipe.step_call (x := .next t) ?_ ?_
  · rw [hc, step_recv hl.up]
    unfold Conn.recvStep
    rw [hl.rcv]
  · show (SegDir.perform crc (s.dir .initiator) io (.next t)) = some d₁
    unfold SegDir.perform
    simp only [hn, if_true]

theorem Frame.Ignored.dispatch {f : Frame} (h : f.Ignored) (c : Conn) : c.dispatch f = { c with rcv := .top } := by
  unfold Conn.dispatch
  rcases h with h | h <;> rw [h] <;> rfl

/-- The acceptor is back at the next frame after one that is ignored. -/
theorem listen_ignored {io : SegIo} {f : Frame} {d₁ : SegDir} (hl : c.Listens) (hc : s.conn .acceptor = c)
    (hio : io.Smooth) (hn : (s.dir .initiator).next crc io = (d₁, .frame f)) (hf : f.Ignored) :
    Machine.Reaches Pipe.step SmoothLabel s { s with dir := upd s.dir .initiator d₁ } := by
  have hdispatch : (c.received (.frame f) 0).step (.recv .go) = some
    (Conn.dispatch (c.received (.frame f) 0) f, none) := (step_recv (c := c.received (.frame f) 0) hl.up .go).trans rfl
  have htop : ({ c.received (.frame f) 0 with rcv := .top } : Conn).step (.recv .go) = some (c, none) := by
    have hself : ({ c with lastRecv := 0, rcv := .next } : Conn) = c := by rw [← hl.lastRecv, ← hl.rcv]
    refine (step_recv (c := { c.received (.frame f) 0 with rcv := .top }) hl.up .go).trans ?_
    show some (if c.closed = true then _ else _, none) = _
    rw [if_neg (by rw [hl.opened]; exact Bool.false_ne_true)]
    exact congrArg (fun c => some (c, none)) hself
  have hback : (c.received (.frame f) 0).runLocal [.recv .go, .recv .go] = some c := by
    unfold Conn.runLocal
    rw [hdispatch, hf.dispatch]
    dsimp only
    unfold Conn.runLocal
    rw [htop]
    rfl
  have h := (Machine.Reaches.step (.refl Pipe.step SmoothLabel s) hio (listen hl hc hn)).trans
    (Pipe.reaches_local (fun _ => hio) (upd_self ..) hback)
  rw [upd_upd, upd_eq_self hc] at h
  exact h

/-- What the reader skims leaves the acceptor as it was. -/
theorem Skims.reaches {conn : Role → Conn} {dir : Role → SegDir} {d d' : SegDir} (h : Skims crc d d')
    (hd : dir .initiator = d) (hl : (conn .acceptor).Listens) :
    Machine.Reaches Pipe.step SmoothLabel (⟨conn, dir⟩ : Pipe (segFiles crc)) ⟨conn, upd dir .initiator d'⟩ := by
  induction h generalizing dir with
  | refl d =>
    rw [upd_eq_self hd]
    exact .refl _ _ _
  | again hio h hs ih =>
    subst hd
    have h1 :=
      Machine.Reaches.step (.refl Pipe.step SmoothLabel (⟨conn, dir⟩ : Pipe (segFiles crc))) hio (listen hl rfl h)
    rw [upd_eq_self (show conn .acceptor = (conn .acceptor).received .again 0 from rfl)] at h1
    have h2 := ih (upd_self dir .initiator _)
    rw [upd_upd] at h2
    exact h1.trans h2
  | frame hio h hf hs ih =>
    subst hd
    have h1 := listen_ignored (s := ⟨conn, dir⟩) hl rfl hio h hf
    have h2 := ih (upd_self dir .initiator _)
    rw [upd_upd] at h2
    exact h1.trans h2

/-- The heartbeat an endpoint sends at the beginning of time. -/
def Conn.pulse (c : Conn) : Frame := c.core.frame frameHeartbeat (encodeUint64 (.ofNat 0))

theorem Conn.pulse_ignored (c : Conn) : c.pulse.Ignored := Or.inr rfl

/-- A tick of the initiator's `maintLoop`, up to its heartbeat. -/
theorem beat {d₁ : SegDir} (hi : c.Idles) (hc : s.conn .initiator = c)
    (ha : (s.dir .initiator).append crc {} c.pulse c.sentData = (d₁, true)) :
    Machine.Reaches Pipe.step SmoothLabel s
      ⟨upd s.conn .initiator { c with sendSeq := c.sendSeq + 1 }, upd s.dir .initiator d₁⟩ := by
  have hsm := smooth_reveal []
  have htick : c.step (.maint (.tick 0)) = some ({ c with mnt := .ack .load }, none) := by
    rw [step_maint hi.up]
    unfold Conn.maintStep
    rw [hi.mnt]
    simp
  have hload : ({ c with mnt := .ack .load } : Conn).step (.maint (.go true 0)) =
      some ({ c with mnt := .ack (.due c.recvData) }, none) :=
        (step_maint (c := { c with mnt := .ack .load }) hi.up _).trans rfl
  have hdue : ({ c with mnt := .ack (.due c.recvData) } : Conn).step (.maint (.go true 0)) =
      some ({ c with mnt := .beat }, none) := by
    rw [step_maint (c := { c with mnt := .ack (.due c.recvData) }) hi.up]
    simp [Conn.maintStep, Conn.ackStep, hi.acked]
  have hbeat : ({ c with mnt := .beat } : Conn).step (.maint (.go true 0)) =
      some ({ c with sendSeq := c.sendSeq + 1 }, some (.append c.pulse c.sentData true)) := by
    have hself : ({ c with sendSeq := c.sendSeq + 1, mnt := .wait } : Conn) = { c with sendSeq := c.sendSeq + 1 } := by
      rw [← hi.mnt]
    have hemit : ({ c with mnt := .beat } : Conn).emit frameHeartbeat (encodeUint64 (.ofNat 0)) true =
        ({ c with sendSeq := c.sendSeq + 1, mnt := .beat }, some (.append c.pulse c.sentData true), true) :=
      if_neg fun h => Bool.false_ne_true (hi.opened.symm.trans h.1)
    rw [step_maint (c := { c with mnt := .beat }) hi.up, ← hself]
    unfold Conn.maintStep
    dsimp only
    rw [hemit]
  have hlocal : c.runLocal [.maint (.tick 0), .maint (.go true 0), .maint (.go true 0)] = some
      { c with mnt := .beat } := by
    simp only [Conn.runLocal, htick, hload, hdue]
  have hp : (s.dir .initiator).perform crc {} (.append c.pulse c.sentData true) = some d₁ := by
    unfold SegDir.perform
    simp only [ha, if_true]
  have h := Pipe.reaches_local (P := SmoothLabel) (fun _ => hsm) hc hlocal
  exact h.step (a := ⟨.initiator, .maint (.go true 0), ({} : SegIo)⟩) hsm (Pipe.step_upd_call hbeat hp)

theorem Conn.length_pulse (c : Conn) : (c.pulse.encode crc).length = 34 := Frame.length_encode c.pulse

/-- **A heartbeat's round**: the initiator rolls to a new segment, and the acceptor follows; nothing is unlinked. -/
theorem Lap.round {zero one : List UInt8} {pre : List (List Frame)} {last : List Frame} (hi : (s.conn .initiator).Idles)
    (hl : (s.conn .acceptor).Listens) (h : Lap crc zero one (s.dir .initiator) pre last)
    (hn : pre.length + 1 < UInt32.size) :
    ∃ t, Machine.Reaches Pipe.step SmoothLabel s t ∧
      t.conn .initiator = { s.conn .initiator with sendSeq := (s.conn .initiator).sendSeq + 1 } ∧
      t.conn .acceptor = s.conn .acceptor ∧ t.dir .acceptor = s.dir .acceptor ∧
      Lap crc zero one (t.dir .initiator) (pre ++ [last]) [(s.conn .initiator).pulse] ∧
      ∀ i : UInt32, i.toNat ≤ pre.length → SegDir.names (t.dir .initiator) i = SegDir.names (s.dir .initiator) i := by
  obtain ⟨d₁, d₂, happ, hsk, hlap, hnames⟩ := h.append hn (s.conn .initiator).pulse_ignored
    (show 8 ≤ 1048576 by decide) (by rw [Conn.length_pulse]; decide) (s.conn .initiator).sentData
  have h1 := beat hi rfl happ
  have hacc := upd_peer s.conn .initiator { s.conn .initiator with sendSeq := (s.conn .initiator).sendSeq + 1 }
  have h2 := hsk.reaches (upd_self s.dir .initiator d₁) (hacc.symm ▸ hl)
  rw [upd_upd] at h2
  have hdir : upd s.dir .initiator d₂ .initiator = d₂ := upd_self ..
  exact ⟨_, h1.trans h2, upd_self s.conn .initiator _, hacc, upd_peer s.dir .initiator d₂, hdir.symm ▸ hlap,
    fun i hi => (congrArg (fun d : SegDir => d.names i) hdir).trans (hnames i hi)⟩

theorem length_heartbeat (n : UInt64) : ((heartbeat n).encode crc).length = 34 := Frame.length_encode (heartbeat n)

/-- **The pipe after `n` rolls of the initiator's direction.** -/
structure AtLap (crc : List UInt8 → UInt32) (zero one : List UInt8) (s : Pipe (segFiles crc)) (n : Nat) : Prop where
  initiator : s.conn .initiator = beater (.ofNat (n + 1))
  acceptor  : s.conn .acceptor = listener
  lap       : ∃ pre last, pre.length = n ∧ Lap crc zero one (s.dir .initiator) pre last

variable {zero one : List UInt8}

theorem beater_idles (n : UInt64) : (beater n).Idles := ⟨rfl, rfl, rfl, rfl⟩

theorem listener_listens : listener.Listens := ⟨rfl, rfl, rfl, rfl⟩

/-- One more heartbeat. -/
theorem AtLap.next {n : Nat} (h : AtLap crc zero one s n) (hn : n + 1 < UInt32.size) :
    ∃ t, Machine.Reaches Pipe.step SmoothLabel s t ∧ AtLap crc zero one t (n + 1) := by
  obtain ⟨pre, last, rfl, hlap⟩ := h.lap
  obtain ⟨t, ht, hinit, hacc, -, hlap', -⟩ :=
    Lap.round (h.initiator ▸ beater_idles _) (h.acceptor ▸ listener_listens) hlap hn
  refine ⟨t, ht, ?_, hacc.trans h.acceptor, pre ++ [last], _, List.length_append, hlap'⟩
  rw [hinit, h.initiator, UInt64.ofNat_add (pre.length + 1) 1]
  rfl

/-- **Heartbeats take the direction to any index.** -/
theorem AtLap.laps {n : Nat} (h : AtLap crc zero one s n) :
    ∀ k, n + k < UInt32.size → ∃ t, Machine.Reaches Pipe.step SmoothLabel s t ∧ AtLap crc zero one t (n + k)
  | 0, _ => ⟨s, .refl _ _ _, h⟩
  | k + 1, hk => by
    obtain ⟨t, ht, hlap⟩ := h.laps k (by omega)
    obtain ⟨u, hu, hlap'⟩ := hlap.next hk
    exact ⟨u, ht.trans hu, hlap'⟩

end

/-! ## The run -/

/-- A heartbeat of the initiator, to segment 2. -/
def pulse : List Step :=
  [.initiator (.maint (.tick 0)) [], .initiator (.maint (.go true 0)) [], .initiator (.maint (.go true 0)) [],
   .initiator (.maint (.go true 0)) [], .acceptor (.recv (.turn .again 0)) [], .acceptor (.recv (.turn .again 0)) [],
   .acceptor (.recv (.turn .again 0)) [(2, 1000)], .acceptor (.recv (.turn (.frame (heartbeat 2)) 0)) [],
   .acceptor (.recv .go) [], .acceptor (.recv .go) []]

/-- The byte that is delivered. -/
def seven : Frame := ⟨frameDATA, 0, 1, 0, [7]⟩

/-- The first two files after it. -/
def file0 : List UInt8 := tiny.syn.encode (fun _ => 0) ++ (rollFrame 1).encode (fun _ => 0)
def file1 : List UInt8 := seven.encode (fun _ => 0) ++ (rollFrame 2).encode (fun _ => 0)

theorem pulse_conns : (Machine.run Pipe.step (tinyStart false) (greeting ++ delivery ++ pulse)).map
    (fun s => (s.conn .initiator, s.conn .acceptor)) = some (beater 3, listener) := by decide +kernel

theorem pulse_writer : (Machine.run Pipe.step (tinyStart false) (greeting ++ delivery ++ pulse)).map (fun s =>
    let d : SegDir := s.dir .initiator
    ((d.maxSeg, d.netFS, d.closed), d.size, d.cur, d.names 0, d.names 1)) =
      some ((1, false, false), 34, 2, some 0, some 1) := by
  decide +kernel

theorem pulse_reader : (Machine.run Pipe.step (tinyStart false) (greeting ++ delivery ++ pulse)).map (fun s =>
    let d : SegDir := s.dir .initiator
    (d.files, d.shown 0, d.shown 1, d.shown 2, d.r)) =
      some ([file0, file1, (heartbeat 2).encode (fun _ => 0)], some 1000, some 1000, some 1000,
        ⟨2, some 2, 34, []⟩) := by
  decide +kernel

theorem pulse_lap : ∃ s, Machine.Reaches Pipe.step SmoothLabel (tinyStart false) s ∧
    AtLap (fun _ => 0) file0 file1 s 2 := by
  have hsm : ∀ l ∈ greeting ++ delivery ++ pulse, SegIo.Smooth l.io := by decide +kernel
  obtain ⟨s, hs⟩ : ∃ s, Machine.run Pipe.step (tinyStart false) (greeting ++ delivery ++ pulse) = some s :=
    Option.isSome_iff_exists.1 (by decide +kernel)
  have hconns := pulse_conns
  have hwriter := pulse_writer
  have hreader := pulse_reader
  rw [hs] at hconns hwriter hreader
  simp only [Option.map_some, Option.some.injEq, Prod.mk.injEq] at hconns hwriter hreader
  obtain ⟨⟨hmax, hnet, hcl⟩, hsize, hcur, hn0, hn1⟩ := hwriter
  obtain ⟨hfiles, hs0, hs1, hs2, hr⟩ := hreader
  obtain ⟨u, hsim, -⟩ := fileSim_of_run hsm (by decide +kernel) hs
  refine ⟨s, ⟨_, hsm, hs⟩, hconns.1, hconns.2, ?_⟩
  rcases hsim.dirs .initiator with ⟨hfresh, -⟩ | ⟨pre, last, hl, -⟩
  · rw [hfresh.files] at hfiles
    cases hfiles
  · obtain ⟨hlen, hlap⟩ := hl.lap hcur ⟨hmax, hnet, hcl⟩ (by omega) ⟨hn0, hn1⟩ hfiles
      (by rw [length_heartbeat]; decide) ⟨hs0, hs1, hs2⟩ (by rw [hr, length_heartbeat])
    exact ⟨pre, last, hlen, hlap⟩

/-- **After a roll from the last index the acceptor reads the byte a second time.** -/
theorem AtLap.replay {s : Pipe (segFiles (fun _ => 0))} (h : AtLap (fun _ => 0) file0 file1 s 4294967295) :
    ∃ t, Machine.Reaches Pipe.step SmoothLabel s t ∧ (t.conn .acceptor).returned = [7, 7] ∧
      (t.conn .initiator).written = [7] := by
  obtain ⟨pre, last, hlen, hlap⟩ := h.lap
  obtain ⟨d₁, d₂, d₃, happ, hsk, hnext⟩ := hlap.wrap hlen (g := heartbeat (.ofNat (4294967295 + 1)))
    (by rw [length_heartbeat]; decide) (Or.inl rfl) (by decide) (by decide) (by decide) (by decide +kernel) 1
  have hacc : upd s.conn .initiator (beater (.ofNat (4294967295 + 1) + 1)) .acceptor = listener :=
    (upd_peer s.conn .initiator _).trans h.acceptor
  have h1 := beat (beater_idles _) h.initiator happ
  have h2 := hsk.reaches (upd_self s.dir .initiator d₁) (hacc.symm ▸ listener_listens)
  rw [upd_upd] at h2
  obtain ⟨t, ht, hI, hA, hd⟩ : ∃ t, Machine.Reaches Pipe.step SmoothLabel s t ∧
      t.conn .initiator = beater (.ofNat (4294967295 + 1) + 1) ∧ t.conn .acceptor = listener ∧ t.dir .initiator = d₂ :=
    ⟨_, h1.trans h2, upd_self s.conn .initiator _, hacc, upd_self s.dir .initiator d₂⟩
  rw [← hd] at hnext
  have h3 := ht.step (smooth_reveal []) (listen listener_listens hA hnext)
  have hread : (listener.received (.frame seven) 0).runLocal
    [.recv .go, .read (.call 1), .read (.go true), .read (.go true),
      .read (.go true)] = some { listener with recvData := 2, rcv := .sigData, reads := [.data [7], .data [7]] } := rfl
  have h4 := h3.trans (Pipe.reaches_local (fun _ => smooth_reveal []) (upd_self ..) hread)
  rw [upd_upd] at h4
  refine ⟨_, h4, ?_, ?_⟩
  · show (upd t.conn .acceptor _ .acceptor).returned = _
    rw [upd_self]
    rfl
  · show (t.conn .initiator).written = _
    rw [hI]
    rfl

/-- **A direction that has rolled `2 ^ 32` times delivers its first bytes again.** -/
theorem wrap_replays : ∃ (ls : List Step) (s : Pipe (segFiles (fun _ => 0))), (∀ l ∈ ls, SegIo.Smooth l.io) ∧
    Machine.run Pipe.step (tinyStart false) ls = some s ∧
      ¬ (s.conn .acceptor).returned <+: (s.conn .initiator).written := by
  obtain ⟨s, hs, hlap⟩ := pulse_lap
  obtain ⟨t, ht, hlap⟩ := hlap.laps 4294967293 (by decide)
  obtain ⟨u, hu, hret, hwr⟩ := hlap.replay
  obtain ⟨ls, hls, hrun⟩ := (hs.trans ht).trans hu
  refine ⟨ls, u, hls, hrun, ?_⟩
  rw [hret, hwr]
  decide

end Fstun
end Ccb
