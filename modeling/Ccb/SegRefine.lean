import Ccb.SegRead
import Ccb.Flow
/-!
# SegRefine — the segment files carry the frames in order

As long as file operations succeed and no segment index wraps, a direction's files hold exactly the frames appended:
each closed segment its frames and a ROLL to the next index, the current one its frames (`Layout`).  The reader stands
at a frame of one of them (`Reading`), so what it returns next is the next frame appended, and `SegDir` does to every
call what `Fifo` does (`DirSim`).  A segment unlinked under the reader leaves it waiting for good, never past a frame.
-/
namespace Ccb
namespace Fstun

variable {crc : List UInt8 → UInt32}

/-- The frames of each file: the closed segments `pre`, each with its ROLL, and the current segment. -/
def fileFrames (pre : List (List Frame)) (last : List Frame) : List (List Frame) :=
  pre.mapIdx (fun k fs => fs ++ [rollFrame (.ofNat (k + 1))]) ++ [last]

@[simp] theorem length_fileFrames (pre : List (List Frame)) (last : List Frame) :
    (fileFrames pre last).length = pre.length + 1 := by
  simp [fileFrames]

theorem fileFrames_closed {pre : List (List Frame)} (last : List Frame) {k : Nat} {fs : List Frame}
    (h : pre[k]? = some fs) : (fileFrames pre last)[k]? = some (fs ++ [rollFrame (.ofNat (k + 1))]) := by
  have hk := (List.getElem?_eq_some_iff.1 h).1
  rw [fileFrames, List.getElem?_append_left (by simpa using hk), List.getElem?_mapIdx, h]
  rfl

theorem fileFrames_last (pre : List (List Frame)) (last : List Frame) :
    (fileFrames pre last)[pre.length]? = some last := by
  rw [fileFrames, List.getElem?_append_right (by simp)]
  simp

theorem fileFrames_concat (pre : List (List Frame)) (last cur : List Frame) :
    fileFrames (pre ++ [last]) cur =
      pre.mapIdx (fun k fs => fs ++ [rollFrame (.ofNat (k + 1))]) ++
        [last ++ [rollFrame (.ofNat (pre.length + 1))]] ++ [cur] := by
  rw [fileFrames, List.mapIdx_concat]

structure Layout (crc : List UInt8 → UInt32) (d : SegDir) (pre : List (List Frame)) (last : List Frame) : Prop where
  cur    : d.cur.toNat = pre.length
  files  : d.files = (fileFrames pre last).map (encodes crc)
  f      : d.f = some pre.length
  here   : d.gone = false
  names  : ∀ i ino, d.names i = some ino → ino = i.toNat ∧ i.toNat ≤ pre.length
  live   : d.names d.cur = some pre.length
  reap   : ∀ e ∈ d.reapOff, e.idx.toNat < pre.length
  frames : ∀ seg ∈ pre ++ [last], ∀ f ∈ seg, f.typ ≠ frameROLL ∧ f.payload.length ≤ maxPayload

/-- The reader stands at frame `j` of segment `k`: before its first read of it, inside it, or waiting for good for a
segment that has been unlinked. -/
structure Reading (crc : List UInt8 → UInt32) (d : SegDir) (pre : List (List Frame)) (last : List Frame)
    (k j pos : Nat) :
    Prop where
  seg   : d.r.cur.toNat = k
  le    : ∃ fs, (pre ++ [last])[k]? = some fs ∧ j ≤ fs.length
  pos   : pos = (pre.take k).flatten.length + j
  state : (d.r.f = none ∧ d.r.buf = [] ∧ j = 0) ∨
    (∃ fs, (fileFrames pre last)[k]? = some fs ∧ At crc fs d.r k j ∧ (d.shown k).isSome = true) ∨
    (d.r.f = none ∧ d.names d.r.cur = none)

/-- Nothing has been opened. -/
structure Fresh (d : SegDir) : Prop where
  cur     : d.cur = 0
  f       : d.f = none
  size    : d.size = 0
  here    : d.gone = false
  files   : d.files = []
  names   : ∀ i, d.names i = none
  reapOff : d.reapOff = []
  r       : d.r = newSegReader

/-- **A direction and the log it stands for.**  `shut` is whether its reader has been closed. -/
def DirSim (crc : List UInt8 → UInt32) (shut : Bool) (d : SegDir) (e : Fifo) : Prop :=
  (Fresh d ∧ e.log = [] ∧ e.pos = 0) ∨
    ∃ pre last, Layout crc d pre last ∧ e.log = pre.flatten ++ last ∧
      (shut = true ∨ ∃ k j, Reading crc d pre last k j e.pos)

theorem modify_concat {α : Type} (l : List α) (a : α) (g : α → α) : (l ++ [a]).modify l.length g = l ++ [g a] := by
  induction l with
  | nil => rfl
  | cons x l ih =>
    show x :: (l ++ [a]).modify l.length g = _
    rw [ih]; rfl

/-! ## The writer -/

variable {d d' : SegDir} {pre : List (List Frame)} {last : List Frame} {e : Fifo} {shut : Bool} {io : SegIo}

/-- Bytes appended to the current segment. -/
theorem Layout.write (h : Layout crc d pre last) (f : Frame) :
    d.write (f.encode crc) none = ({ d with files := (fileFrames pre (last ++ [f])).map (encodes crc) }, true) := by
  unfold SegDir.write
  rw [h.f]
  have hlen : ((pre.mapIdx (fun k fs => fs ++ [rollFrame (.ofNat (k + 1))])).map (encodes crc)).length =
      pre.length := by
    simp
  have hfiles : d.files.modify pre.length (· ++ f.encode crc) = (fileFrames pre (last ++ [f])).map (encodes crc) := by
    rw [h.files, fileFrames, List.map_append, List.map_cons, List.map_nil, ← hlen, modify_concat, fileFrames,
      List.map_append, List.map_cons, List.map_nil, encodes_append, encodes_singleton]
  simp only [hfiles]

theorem Layout.put (h : Layout crc d pre last) {f : Frame} (hio : io.fails = none)
    (hf : f.typ ≠ frameROLL ∧ f.payload.length ≤ maxPayload) :
    d.put crc io f = ({ d with files := (fileFrames pre (last ++ [f])).map (encodes crc),
                               size := d.size + (f.encode crc).length }, true) ∧
      Layout crc { d with files := (fileFrames pre (last ++ [f])).map (encodes crc),
                          size := d.size + (f.encode crc).length } pre (last ++ [f]) := by
  refine ⟨?_, ⟨h.cur, rfl, h.f, h.here, h.names, h.live, h.reap, ?_⟩⟩
  · unfold SegDir.put
    rw [hio, h.write f]
  · intro seg hseg g hg
    rcases List.mem_append.1 hseg with hseg | hseg
    · exact h.frames seg (List.mem_append_left _ hseg) g hg
    · rw [List.mem_singleton.1 hseg] at hg
      rcases List.mem_append.1 hg with hg | hg
      · exact h.frames last (List.mem_append_right _ (List.mem_singleton.2 rfl)) g hg
      · rw [List.mem_singleton.1 hg]
        exact hf

/-- **A roll closes the current segment and opens the next index**, which no file has yet. -/
theorem Layout.roll (h : Layout crc d pre last) (dataEnd : UInt64) (h1 : io.rollFails = none) (h2 : io.openOk = true)
    (hw : d.cur.toNat + 1 < UInt32.size) :
    ∃ d', d.roll crc io dataEnd = (d', true) ∧ Layout crc d' (pre ++ [last]) [] ∧ d'.r = d.r ∧ d'.shown = d.shown ∧
      (∀ i : UInt32, i.toNat ≤ pre.length → d'.names i = d.names i) ∧
      d'.reapOff = d.reapOff ++ [⟨d.cur, dataEnd⟩] ∧ d'.closed = d.closed ∧ d'.netFS = d.netFS ∧
        d'.maxSeg = d.maxSeg := by
  have hnext : (d.cur + 1).toNat = pre.length + 1 := by
    rw [UInt32.toNat_add, Nat.mod_eq_of_lt, h.cur]
    · rfl
    · exact hw
  have hroll : rollFrame (d.cur + 1) = rollFrame (.ofNat (pre.length + 1)) := by rw [← hnext, UInt32.ofNat_toNat]
  have hnone : d.names (d.cur + 1) = none := by
    cases hn : d.names (d.cur + 1) with
    | none => rfl
    | some ino =>
      have := (h.names _ _ hn).2
      omega
  have hlen : ((fileFrames pre (last ++ [rollFrame (.ofNat (pre.length + 1))])).map (encodes crc)).length =
      pre.length + 1 := by simp
  refine ⟨{ d with f := some (pre.length + 1), size := 0, reapOff := d.reapOff ++ [⟨d.cur, dataEnd⟩], cur := d.cur + 1,
                   files := (fileFrames pre (last ++ [rollFrame (.ofNat (pre.length + 1))])).map (encodes crc) ++ [[]],
                   names := fun i => if i = d.cur + 1 then some (pre.length + 1) else d.names i },
    ?_, ⟨?_, ?_, ?_, h.here, ?_, ?_, ?_, ?_⟩, rfl, rfl, ?_, rfl, rfl, rfl, rfl⟩
  · unfold SegDir.roll
    rw [h1, hroll, h.write]
    dsimp only
    unfold SegDir.openCur
    rw [if_pos ⟨h2, h.here⟩]
    dsimp only
    rw [hnone]
    dsimp only
    rw [hlen]
  · simpa using hnext
  · show _ ++ [[]] = _
    rw [fileFrames_concat, fileFrames, List.map_append, List.map_append, List.map_append]
    rfl
  · simp
  · intro i ino hi
    dsimp only at hi
    rw [List.length_append, List.length_singleton]
    split at hi
    · rename_i heq
      cases hi
      rw [heq, hnext]
      exact ⟨rfl, Nat.le_refl _⟩
    · obtain ⟨h1, h2⟩ := h.names i ino hi
      exact ⟨h1, by omega⟩
  · simp
  · intro s hs
    rw [List.length_append, List.length_singleton]
    rcases List.mem_append.1 hs with hs | hs
    · have := h.reap s hs
      omega
    · rw [List.mem_singleton.1 hs]
      show d.cur.toNat < _
      rw [h.cur]; omega
  · intro seg hseg f hf
    rcases List.mem_append.1 hseg with hseg | hseg
    · exact h.frames seg hseg f hf
    · rw [List.mem_singleton.1 hseg] at hf
      cases hf
  · intro i hi
    refine if_neg fun heq => ?_
    rw [heq, hnext] at hi
    omega

/-- The segments of one layout, gone on with in another. -/
structure Extends (pre : List (List Frame)) (last : List Frame) (pre' : List (List Frame)) (last' : List Frame) :
    Prop where
  files : ∀ (k : Nat) (fs : List Frame), (fileFrames pre last)[k]? = some fs →
    ∃ ext, (fileFrames pre' last')[k]? = some (fs ++ ext)
  segs  : ∀ (k : Nat) (fs : List Frame), (pre ++ [last])[k]? = some fs → ∃ ext, (pre' ++ [last'])[k]? = some (fs ++ ext)
  take  : ∀ k ≤ pre.length, pre'.take k = pre.take k

theorem Extends.put (pre : List (List Frame)) (last : List Frame) (f : Frame) : Extends pre last pre (last ++ [f]) := by
  refine ⟨fun k fs h => ?_, fun k fs h => ?_, fun k _ => rfl⟩
  · unfold fileFrames at h
    rcases getElem?_concat_some h with h | ⟨rfl, rfl⟩
    · refine ⟨[], ?_⟩
      rw [List.append_nil, fileFrames, List.getElem?_append_left (List.getElem?_eq_some_iff.1 h).1]
      exact h
    · refine ⟨[f], ?_⟩
      rw [fileFrames, List.getElem?_concat_length]
  · rcases getElem?_concat_some h with h | ⟨rfl, rfl⟩
    · refine ⟨[], ?_⟩
      rw [List.append_nil, List.getElem?_append_left (List.getElem?_eq_some_iff.1 h).1]
      exact h
    · exact ⟨[f], List.getElem?_concat_length ..⟩

theorem Extends.roll (pre : List (List Frame)) (last : List Frame) : Extends pre last (pre ++ [last]) [] := by
  refine ⟨fun k fs h => ?_, fun k fs h => ?_, fun k hk => List.take_append_of_le_length hk⟩
  · unfold fileFrames at h
    rw [fileFrames_concat]
    rcases getElem?_concat_some h with h | ⟨rfl, rfl⟩
    · refine ⟨[], ?_⟩
      rw [List.append_nil, List.append_assoc, List.getElem?_append_left (List.getElem?_eq_some_iff.1 h).1]
      exact h
    · refine ⟨[rollFrame (.ofNat (pre.length + 1))], ?_⟩
      rw [List.getElem?_append_left (by simp), List.getElem?_concat_length]
  · refine ⟨[], ?_⟩
    rw [List.append_nil, List.getElem?_append_left (List.getElem?_eq_some_iff.1 h).1]
    exact h

theorem Extends.trans {pre' pre'' : List (List Frame)} {last' last'' : List Frame} (hx : Extends pre last pre' last')
    (hy : Extends pre' last' pre'' last'') : Extends pre last pre'' last'' := by
  refine ⟨fun k fs hfs => ?_, fun k fs hfs => ?_, fun k hk => ?_⟩
  · obtain ⟨ext, hext⟩ := hx.files k fs hfs
    obtain ⟨ext', hext'⟩ := hy.files k _ hext
    exact ⟨ext ++ ext', by rw [← List.append_assoc]; exact hext'⟩
  · obtain ⟨ext, hext⟩ := hx.segs k fs hfs
    obtain ⟨ext', hext'⟩ := hy.segs k _ hext
    exact ⟨ext ++ ext', by rw [← List.append_assoc]; exact hext'⟩
  · have hlen := congrArg List.length (hx.take k hk)
    rw [List.length_take, List.length_take] at hlen
    rw [hy.take k (by omega), hx.take k hk]

/-- **A reader stays where it is while the writer goes on.** -/
theorem Reading.extend {k j pos : Nat} {pre' : List (List Frame)} {last' : List Frame}
    (h : Reading crc d pre last k j pos) (hx : Extends pre last pre' last') (hr : d'.r = d.r) (hs : d'.shown = d.shown)
    (hn : d.names d.r.cur = none → d'.names d.r.cur = none) : Reading crc d' pre' last' k j pos := by
  obtain ⟨fs, hfs, hj⟩ := h.le
  have hk : k ≤ pre.length := by
    have := (List.getElem?_eq_some_iff.1 hfs).1
    simp at this
    omega
  refine ⟨by rw [hr]; exact h.seg, ?_, ?_, ?_⟩
  · obtain ⟨ext, hext⟩ := hx.segs k fs hfs
    exact ⟨_, hext, by rw [List.length_append]; omega⟩
  · rw [hx.take k hk]; exact h.pos
  · rw [hr, hs]
    rcases h.state with h0 | ⟨fs, hfs, hat, hsh⟩ | ⟨h1, h2⟩
    · exact Or.inl h0
    · obtain ⟨ext, hext⟩ := hx.files k fs hfs
      exact Or.inr (Or.inl ⟨_, hext, hat.grow ext, hsh⟩)
    · exact Or.inr (Or.inr ⟨h1, hn h2⟩)

theorem toNat_succ_lt {i : UInt32} (h : i ≠ 4294967295) : i.toNat + 1 < UInt32.size := by
  have hlt : i.toNat < 4294967296 := i.toNat_lt
  have hne : i.toNat ≠ 4294967295 := fun h' => h (UInt32.toNat_inj.1 h')
  show _ < 4294967296
  omega

/-- **An append that has a file to go to adds its frame to the layout.** -/
theorem Layout.append (h : Layout crc d pre last) {f : Frame} (dataEnd : UInt64) (hio : io.Smooth)
    (hf : f.typ ≠ frameROLL ∧ f.payload.length ≤ maxPayload) (hcl : d.closed = false)
    (hfit : d.rolls crc f = true → d.cur ≠ 4294967295) :
    ∃ d' pre' last', d.append crc io f dataEnd = (d', true) ∧ Layout crc d' pre' last' ∧
      pre'.flatten ++ last' = pre.flatten ++ last ++ [f] ∧ Extends pre last pre' last' ∧ d'.r = d.r ∧
      d'.shown = d.shown ∧ (∀ i : UInt32, i.toNat ≤ pre.length → d'.names i = d.names i) ∧
      (d'.reapOff = d.reapOff ∨
        d'.reapOff = d.reapOff ++ [⟨d.cur, dataEnd⟩] ∧ pre' = pre ++ [last] ∧ last' = [f]) := by
  unfold SegDir.append
  rw [if_neg (by rw [hcl]; exact fun h => by cases h)]
  cases hr : d.rolls crc f with
  | false =>
    obtain ⟨hput, hl⟩ := h.put hio.fails hf
    rw [if_neg (by simp), hput]
    exact ⟨_, pre, last ++ [f], rfl, hl, (List.append_assoc ..).symm, .put pre last f, rfl, rfl, fun i _ => rfl,
      Or.inl rfl⟩
  | true =>
    obtain ⟨d₁, hroll, hl, h1, h2, h3, h4, -⟩ := h.roll dataEnd hio.rollFails hio.openOk (toNat_succ_lt (hfit hr))
    obtain ⟨hput, hl'⟩ := hl.put hio.fails hf
    rw [if_pos rfl, hroll]
    dsimp only
    rw [hput]
    exact ⟨_, pre ++ [last], [] ++ [f], rfl, hl', by simp, (Extends.roll pre last).trans (.put (pre ++ [last]) [] f),
      h1, h2, h3, Or.inr ⟨h4, rfl, rfl⟩⟩

theorem Reading.cur_le {k j pos : Nat} (h : Reading crc d pre last k j pos) : d.r.cur.toNat ≤ pre.length := by
  obtain ⟨fs, hfs, -⟩ := h.le
  have := (List.getElem?_eq_some_iff.1 hfs).1
  rw [h.seg]
  simp at this
  omega

theorem DirSim.append {f : Frame} {dataEnd : UInt64} {ok : Bool} (h : DirSim crc shut d e) (hio : io.Smooth)
    (hf : f.typ ≠ frameROLL ∧ f.payload.length ≤ maxPayload) (hfit : d.Fits crc (.append f dataEnd ok))
    (hp : d.perform crc io (.append f dataEnd ok) = some d') :
    ∃ e', e.perform (.append f dataEnd ok) = some e' ∧ DirSim crc shut d' e' := by
  cases SegDir.perform_some hp
  cases hcl : d.closed with
  | true =>
    rw [SegDir.append_idle f dataEnd (Or.inl hcl)]
    exact ⟨e, rfl, h⟩
  | false =>
    rcases h with ⟨hfr, he⟩ | ⟨pre, last, hl, hlog, hrd⟩
    · rw [SegDir.append_idle f dataEnd (Or.inr hfr.f)]
      exact ⟨e, rfl, Or.inl ⟨hfr, he⟩⟩
    · obtain ⟨d₁, pre', last', happ, hl', hlog', hx, h1, h2, h3, -⟩ := hl.append dataEnd hio hf hcl (hfit hcl)
      rw [happ]
      refine ⟨{ e with log := e.log ++ [f] }, rfl, Or.inr ⟨pre', last', hl', ?_, ?_⟩⟩
      · show e.log ++ [f] = _
        rw [hlog, hlog']
      · rcases hrd with hs | ⟨k, j, hrd⟩
        · exact Or.inl hs
        · exact Or.inr ⟨k, j, hrd.extend hx h1 h2 (fun hn => by rw [h3 _ hrd.cur_le]; exact hn)⟩

theorem openCur_keeps (d : SegDir) (ok : Bool) :
    (d.openCur ok).1.cur = d.cur ∧ (d.openCur ok).1.r = d.r ∧ (d.openCur ok).1.reapOff = d.reapOff ∧
      ((d.names d.cur).isSome = true → (d.openCur ok).1.files = d.files) := by
  unfold SegDir.openCur
  split
  · split
    · exact ⟨rfl, rfl, rfl, fun _ => rfl⟩
    · rename_i hn
      exact ⟨rfl, rfl, rfl, fun h => by rw [hn] at h; cases h⟩
  · exact ⟨rfl, rfl, rfl, fun _ => rfl⟩

/-- The first segment is empty. -/
theorem Fresh.layout (h : Fresh d) : Layout crc (d.openCur true).1 [] [] := by
  unfold SegDir.openCur
  rw [if_pos ⟨rfl, h.here⟩, h.names]
  refine ⟨?_, ?_, ?_, h.here, fun i ino hi => ?_, ?_, ?_, fun seg hseg f hf => ?_⟩
  · show d.cur.toNat = _
    rw [h.cur]; rfl
  · show d.files ++ [[]] = _
    rw [h.files]; rfl
  · show some d.files.length = _
    rw [h.files]; rfl
  · dsimp only at hi
    rw [h.names, h.files, h.cur] at hi
    split at hi
    · rename_i hi0
      cases hi
      rw [hi0]
      exact ⟨rfl, Nat.le_refl _⟩
    · cases hi
  · show (if d.cur = d.cur then _ else _) = _
    rw [if_pos rfl, h.files]; rfl
  · show ∀ e ∈ d.reapOff, _
    rw [h.reapOff]
    exact fun s hs => by cases hs
  · rw [List.mem_singleton.1 hseg] at hf
    cases hf

theorem DirSim.openW {ok : Bool} (h : DirSim crc shut d e) (hp : d.perform crc io (.openW ok) = some d') :
    DirSim crc shut d' e := by
  cases SegDir.perform_some hp
  cases io.openOk with
  | false => exact h
  | true =>
    rcases h with ⟨hfr, h1, h2⟩ | ⟨pre, last, hl, hlog, hrd⟩
    · have hr : (d.openCur true).1.r = newSegReader := (openCur_keeps d true).2.1.trans hfr.r
      refine Or.inr ⟨[], [], hfr.layout, by rw [h1]; rfl, Or.inr ⟨0, 0, by rw [hr]; rfl, ⟨[], rfl, Nat.le_refl _⟩,
        by rw [h2]; rfl, ?_⟩⟩
      rw [hr]
      exact Or.inl ⟨rfl, rfl, rfl⟩
    · unfold SegDir.openCur
      rw [if_pos ⟨rfl, hl.here⟩, hl.live]
      refine Or.inr ⟨pre, last, ⟨hl.cur, hl.files, rfl, hl.here, hl.names, hl.live, hl.reap, hl.frames⟩, hlog, ?_⟩
      rcases hrd with hs | ⟨k, j, hrd⟩
      · exact Or.inl hs
      · exact Or.inr ⟨k, j, hrd.seg, hrd.le, hrd.pos, hrd.state⟩

theorem reap_names (d : SegDir) (ack : UInt64) (i : UInt32) :
    (d.reap ack).names i = none ∨ (d.reap ack).names i = d.names i := by
  show (if _ then none else d.names i) = none ∨ (if _ then none else d.names i) = d.names i
  split
  · exact Or.inl rfl
  · exact Or.inr rfl

/-- A reap unlinks closed segments only. -/
theorem Layout.reaps (h : Layout crc d pre last) (ack : UInt64) : Layout crc (d.reap ack) pre last := by
  refine ⟨h.cur, h.files, h.f, h.here, fun i ino hi => ?_, ?_, fun s hs => h.reap s (List.mem_filter.1 hs).1, h.frames⟩
  · rcases reap_names d ack i with hn | hn
    · rw [hn] at hi; cases hi
    · exact h.names i ino (hn ▸ hi)
  · show (if (d.reaped ack).any (fun s => s.idx == d.cur) then none else d.names d.cur) = _
    rw [if_neg, h.live]
    intro hany
    obtain ⟨s, hs, heq⟩ := List.any_eq_true.1 hany
    have hlt := h.reap s (List.mem_filter.1 hs).1
    rw [beq_iff_eq.1 heq, h.cur] at hlt
    exact absurd hlt (Nat.lt_irrefl _)

theorem Layout.closeW (h : Layout crc d pre last) : Layout crc { d with closed := true } pre last :=
  ⟨h.cur, h.files, h.f, h.here, h.names, h.live, h.reap, h.frames⟩

theorem DirSim.reap {ack : UInt64} (h : DirSim crc shut d e) : DirSim crc shut (d.reap ack) e := by
  rcases h with ⟨hfr, he⟩ | ⟨pre, last, hl, hlog, hrd⟩
  · refine Or.inl ⟨⟨hfr.cur, hfr.f, hfr.size, hfr.here, hfr.files, fun i => ?_, ?_, hfr.r⟩, he⟩
    · show (if _ then none else d.names i) = none
      rw [hfr.names, ite_self]
    · show d.reapOff.filter _ = []
      rw [hfr.reapOff]; rfl
  · refine Or.inr ⟨pre, last, hl.reaps ack, hlog, ?_⟩
    rcases hrd with hs | ⟨k, j, hrd⟩
    · exact Or.inl hs
    · refine Or.inr ⟨k, j, hrd.extend ⟨fun k fs h => ⟨[], by simpa using h⟩, fun k fs h => ⟨[], by simpa using h⟩,
        fun _ _ => rfl⟩ rfl rfl (fun hn => ?_)⟩
      rcases reap_names d ack d.r.cur with h' | h'
      · exact h'
      · rw [h']; exact hn

theorem DirSim.closeW (h : DirSim crc shut d e) : DirSim crc shut { d with closed := true } e := by
  rcases h with ⟨hfr, he⟩ | ⟨pre, last, hl, hlog, hrd⟩
  · exact Or.inl ⟨⟨hfr.cur, hfr.f, hfr.size, hfr.here, hfr.files, hfr.names, hfr.reapOff, hfr.r⟩, he⟩
  · refine Or.inr ⟨pre, last, hl.closeW, hlog, ?_⟩
    rcases hrd with hs | ⟨k, j, hrd⟩
    · exact Or.inl hs
    · exact Or.inr ⟨k, j, hrd.seg, hrd.le, hrd.pos, hrd.state⟩

theorem DirSim.closeR (h : DirSim crc shut d e) : DirSim crc true { d with r := { d.r with f := none } } e := by
  rcases h with ⟨hfr, he⟩ | ⟨pre, last, hl, hlog, hrd⟩
  · refine Or.inl ⟨⟨hfr.cur, hfr.f, hfr.size, hfr.here, hfr.files, hfr.names, hfr.reapOff, ?_⟩, he⟩
    dsimp only
    rw [hfr.r]; rfl
  · exact Or.inr ⟨pre, last, ⟨hl.cur, hl.files, hl.f, hl.here, hl.names, hl.live, hl.reap, hl.frames⟩, hlog, Or.inl rfl⟩

/-! ## The reader -/

theorem isSome_reveal {d : SegDir} {l : List (Nat × Nat)} {k : Nat} (h : (d.shown k).isSome = true) :
    ((d.reveal l).shown k).isSome = true := by
  unfold SegDir.reveal
  dsimp only
  generalize d.shown = sh at h
  induction l generalizing sh with
  | nil => exact h
  | cons p l ih =>
    refine ih _ ?_
    dsimp only
    split
    · rfl
    · exact h

/-- An entry of a list of lists, by its place in the concatenation. -/
theorem getElem?_flatten {α : Type} {L : List (List α)} {k j : Nat} {fs : List α} (h : L[k]? = some fs)
    (hj : j < fs.length) : L.flatten[(L.take k).flatten.length + j]? = fs[j]? := by
  obtain ⟨hk, rfl⟩ := List.getElem?_eq_some_iff.1 h
  have hsplit : L.flatten = (L.take k).flatten ++ (L[k] ++ (L.drop (k + 1)).flatten) := by
    conv_lhs => rw [← List.take_append_drop k L, List.flatten_append, List.drop_eq_getElem_cons hk, List.flatten_cons]
  rw [hsplit, List.getElem?_append_right (Nat.le_add_right _ _), Nat.add_sub_cancel_left,
    List.getElem?_append_left hj]

/-- The frames of a file are those of its segment, and a ROLL if it is closed. -/
theorem fileFrames_of_segs {k : Nat} {fs : List Frame} (h : (pre ++ [last])[k]? = some fs) :
    (pre[k]? = some fs ∧ (fileFrames pre last)[k]? = some (fs ++ [rollFrame (.ofNat (k + 1))])) ∨
      (k = pre.length ∧ fs = last ∧ (fileFrames pre last)[k]? = some fs) := by
  rcases getElem?_concat_some h with h | ⟨rfl, rfl⟩
  · exact Or.inl ⟨h, fileFrames_closed last h⟩
  · exact Or.inr ⟨rfl, rfl, fileFrames_last pre fs⟩

theorem fileFrames_some {k : Nat} {fs : List Frame} (h : (pre ++ [last])[k]? = some fs) :
    ∃ fs, (fileFrames pre last)[k]? = some fs := by
  rcases fileFrames_of_segs h with ⟨-, hff⟩ | ⟨-, -, hff⟩
  · exact ⟨_, hff⟩
  · exact ⟨_, hff⟩

theorem Layout.payload_le (h : Layout crc d pre last) {k : Nat} {fs : List Frame}
    (hfs : (fileFrames pre last)[k]? = some fs) : ∀ f ∈ fs, f.payload.length ≤ maxPayload := by
  intro f hf
  unfold fileFrames at hfs
  rcases getElem?_concat_some hfs with hfs | ⟨-, rfl⟩
  · rw [List.getElem?_mapIdx] at hfs
    obtain ⟨seg, hseg, rfl⟩ := Option.map_eq_some_iff.1 hfs
    rcases List.mem_append.1 hf with hf | hf
    · exact (h.frames seg (List.mem_append_left _ (List.mem_of_getElem? hseg)) f hf).2
    · rw [List.mem_singleton.1 hf]
      exact rollFrame_payload_le _
  · exact (h.frames fs (List.mem_append_right _ (List.mem_singleton.2 rfl)) f hf).2

/-- What a round of `next` may come to at a position: the next frame, or nothing. -/
inductive Went (log : List Frame) (pos : Nat) : Turn → Nat → Prop
  | wait {t : Turn} : t = .again ∨ t = .incomplete ∨ t = .notExist ∨ t = .ioError → Went log pos t pos
  | frame {g : Frame} : log[pos]? = some g → Went log pos (.frame g) (pos + 1)

theorem Layout.lookup (h : Layout crc d pre last) {i : UInt32} {ino : Nat} (hl : d.view.lookup i = some ino) :
    ino = i.toNat ∧ (d.shown ino).isSome = true := by
  obtain ⟨hn, hs⟩ := Option.filter_eq_some_iff.1 hl
  exact ⟨(h.names i ino hn).1, hs⟩

theorem Layout.bytes (h : Layout crc d pre last) {k : Nat} {fs : List Frame}
    (hfs : (fileFrames pre last)[k]? = some fs) :
    d.view.bytes k = (encodes crc fs).take (min ((d.shown k).getD 0) (encodes crc fs).length) := by
  show ((d.files[k]?).getD []).take ((d.shown k).getD 0) = _
  rw [h.files, List.getElem?_map, hfs]
  exact List.take_eq_take_min ..

/-- A read inside a file keeps its position, or finds the file unlinked. -/
theorem Layout.fill (h : Layout crc d pre last) {r : SegReader} {j : Nat} {fs : List Frame}
    (hfs : (fileFrames pre last)[r.cur.toNat]? = some fs) (hat : At crc fs r r.cur.toNat j)
    (hsh : (d.shown r.cur.toNat).isSome = true) :
    ∃ r' grew, Fstun.fill d.netFS true d.view r r.cur.toNat = (r', grew) ∧ r'.cur = r.cur ∧
      (At crc fs r' r.cur.toNat j ∨ (r'.f = none ∧ d.names r.cur = none)) := by
  unfold Fstun.fill
  cases hre : refresh d.netFS true d.view r r.cur.toNat with
  | none =>
    refine ⟨_, _, rfl, rfl, Or.inr ⟨rfl, ?_⟩⟩
    unfold refresh at hre
    split at hre
    · cases hn : d.names r.cur with
      | none => rfl
      | some ino =>
        have hi := (h.names _ _ hn).1
        have hlook : d.view.lookup r.cur = some ino :=
          Option.filter_eq_some_iff.2 ⟨hn, by rw [hi]; exact hsh⟩
        rw [if_pos rfl, hlook] at hre
        cases hre
    · cases hre
  | some ino =>
    have hi : ino = r.cur.toNat := by
      unfold refresh at hre
      split at hre
      · exact (h.lookup (by rw [if_pos rfl] at hre; exact hre)).1
      · exact (Option.some.inj hre).symm
    subst hi
    dsimp only
    rw [h.bytes hfs]
    have hlen : ((encodes crc fs).take (min ((d.shown r.cur.toNat).getD 0) (encodes crc fs).length)).length =
        min ((d.shown r.cur.toNat).getD 0) (encodes crc fs).length := by
      rw [List.length_take, Nat.min_assoc, Nat.min_self]
    rw [hlen]
    generalize hm : min ((d.shown r.cur.toNat).getD 0) (encodes crc fs).length = m
    have hmle : m ≤ (encodes crc fs).length := by omega
    have hself : ({ r with f := some r.cur.toNat } : SegReader) = r := by rw [← hat.file]
    split
    · exact ⟨_, _, rfl, rfl, Or.inl (by rw [hself]; exact hat)⟩
    · rename_i hoff
      refine ⟨_, _, rfl, rfl, Or.inl ?_⟩
      have := hat.read (n := m) (by omega) hmle
      rw [show ({ r with f := some r.cur.toNat, off := m, buf := r.buf ++ ((encodes crc fs).take m).drop r.off } :
        SegReader) = { r with off := m, buf := r.buf ++ ((encodes crc fs).take m).drop r.off } by rw [← hat.file]]
      exact this

/-- **A round inside a file returns its next frame, follows its ROLL, or waits.** -/
theorem Layout.turnOpen (h : Layout crc d pre last) {r : SegReader} {j pos : Nat} {seg fs : List Frame}
    (hseg : (pre ++ [last])[r.cur.toNat]? = some seg) (hj : j ≤ seg.length)
    (hpos : pos = (pre.take r.cur.toNat).flatten.length + j)
    (hfs : (fileFrames pre last)[r.cur.toNat]? = some fs) (hat : At crc fs r r.cur.toNat j)
    (hsh : (d.shown r.cur.toNat).isSome = true) :
    ∃ r' t k' j' pos', Fstun.turnOpen crc d.netFS true d.view r r.cur.toNat = (r', t) ∧
      Reading crc { d with r := r' } pre last k' j' pos' ∧ Went (pre.flatten ++ last) pos t pos' := by
  have hkle : r.cur.toNat ≤ pre.length := by
    have := (List.getElem?_eq_some_iff.1 hseg).1
    simp at this
    omega
  unfold Fstun.turnOpen
  rcases hat.decode (h.payload_le hfs) with hinc | ⟨g, hg, hok, hat'⟩
  · rw [hinc]
    dsimp only
    obtain ⟨r', grew, hfill, hcur, hst⟩ := h.fill hfs hat hsh
    rw [hfill]
    have hread : Reading crc { d with r := r' } pre last r.cur.toNat j pos := by
      refine ⟨by show r'.cur.toNat = _; rw [hcur], ⟨seg, hseg, hj⟩, hpos, Or.inr ?_⟩
      rcases hst with hst | ⟨h1, h2⟩
      · exact Or.inl ⟨fs, hfs, hst, hsh⟩
      · exact Or.inr ⟨h1, by show d.names r'.cur = none; rw [hcur]; exact h2⟩
    cases grew with
    | true => exact ⟨_, _, _, _, _, rfl, hread, .wait (Or.inl rfl)⟩
    | false => exact ⟨_, _, _, _, _, rfl, hread, .wait (Or.inr (Or.inl rfl))⟩
  · rw [hok]
    dsimp only
    by_cases hlt : j < seg.length
    · -- A frame of the segment.
      have hgseg : seg[j]? = some g := by
        rcases fileFrames_of_segs hseg with ⟨-, hff⟩ | ⟨-, -, hff⟩
        · rw [hfs] at hff
          cases hff
          rw [List.getElem?_append_left hlt] at hg
          exact hg
        · rw [hfs] at hff
          cases hff
          exact hg
      have hfr := h.frames seg (List.mem_of_getElem? hseg) g (List.mem_of_getElem? hgseg)
      rw [if_neg hfr.1]
      refine ⟨_, _, r.cur.toNat, j + 1, pos + 1, rfl, ⟨rfl, ⟨seg, hseg, hlt⟩, by omega, ?_⟩, .frame ?_⟩
      · exact Or.inr (Or.inl ⟨fs, hfs, hat', hsh⟩)
      · have hflat := getElem?_flatten hseg hlt
        rw [List.take_append_of_le_length hkle, List.flatten_append, List.flatten_singleton, ← hpos, hgseg] at hflat
        exact hflat
    · -- The ROLL of a closed segment.
      obtain rfl : j = seg.length := by omega
      rcases fileFrames_of_segs hseg with ⟨hpre, hff⟩ | ⟨-, -, hff⟩
      · rw [hfs] at hff
        cases hff
        rw [List.getElem?_concat_length] at hg
        cases hg
        have hk := (List.getElem?_eq_some_iff.1 hpre).1
        have hcur : (UInt32.ofNat (r.cur.toNat + 1)).toNat = r.cur.toNat + 1 := by
          have := d.cur.toNat_lt
          rw [UInt32.toNat_ofNat_of_lt']
          have := h.cur
          show _ < 4294967296
          omega
        have hdec : decodeUint32 (rollFrame (.ofNat (r.cur.toNat + 1))).payload = some (.ofNat (r.cur.toNat + 1)) :=
          decodeUint32_encode _
        rw [if_pos (show (rollFrame (.ofNat (r.cur.toNat + 1))).typ = frameROLL from rfl), hdec]
        dsimp only
        have hnext : ∃ fs, (pre ++ [last])[r.cur.toNat + 1]? = some fs :=
          ⟨_, List.getElem?_eq_getElem (by simp; omega)⟩
        obtain ⟨fs', hfs'⟩ := hnext
        refine ⟨_, _, r.cur.toNat + 1, 0, pos, rfl, ⟨hcur, ⟨fs', hfs', Nat.zero_le _⟩, ?_, Or.inl ⟨rfl, rfl, rfl⟩⟩,
          .wait (Or.inl rfl)⟩
        rw [List.take_add_one, hpre, Option.toList_some, List.flatten_append, List.flatten_singleton,
          List.length_append, hpos]
        rfl
      · rw [hfs] at hff
        cases hff
        rw [List.getElem?_eq_none (Nat.le_refl _)] at hg
        cases hg

/-- The reader's position does not depend on how much is shown. -/
theorem Reading.reveal {k j pos : Nat} (h : Reading crc d pre last k j pos) (l : List (Nat × Nat)) :
    Reading crc (d.reveal l) pre last k j pos := by
  refine ⟨h.seg, h.le, h.pos, ?_⟩
  rcases h.state with h0 | ⟨fs, hfs, hat, hsh⟩ | h2
  · exact Or.inl h0
  · exact Or.inr (Or.inl ⟨fs, hfs, hat, isSome_reveal hsh⟩)
  · exact Or.inr (Or.inr h2)

theorem Layout.reveal (h : Layout crc d pre last) (l : List (Nat × Nat)) : Layout crc (d.reveal l) pre last :=
  ⟨h.cur, h.files, h.f, h.here, h.names, h.live, h.reap, h.frames⟩

/-- **A round of `next` at a position.** -/
theorem Layout.turn (h : Layout crc d pre last) {k j pos : Nat} (hr : Reading crc d pre last k j pos) :
    ∃ r' t k' j' pos', Fstun.turn crc d.netFS true d.view d.r = (r', t) ∧
      Reading crc { d with r := r' } pre last k' j' pos' ∧ Went (pre.flatten ++ last) pos t pos' := by
  obtain ⟨seg, hseg, hj⟩ := hr.le
  have hk := hr.seg
  subst hk
  -- A segment that cannot be opened keeps the reader waiting.
  have hwait : d.r.f = none → d.view.lookup d.r.cur = none → ∃ r' t k' j' pos',
      Fstun.turn crc d.netFS true d.view d.r = (r', t) ∧ Reading crc { d with r := r' } pre last k' j' pos' ∧
        Went (pre.flatten ++ last) pos t pos' := by
    intro hf hl
    refine ⟨d.r, .notExist, d.r.cur.toNat, j, pos, ?_, ⟨rfl, hr.le, hr.pos, hr.state⟩,
      .wait (Or.inr (Or.inr (Or.inl rfl)))⟩
    unfold Fstun.turn
    rw [hf]
    dsimp only
    rw [hl]
  rcases hr.state with ⟨hf, hb, hj0⟩ | ⟨fs, hfs, hat, hsh⟩ | ⟨hf, hn⟩
  · cases hl : d.view.lookup d.r.cur with
    | none => exact hwait hf hl
    | some ino =>
      obtain ⟨rfl, hsh⟩ := h.lookup hl
      obtain ⟨fs, hfs⟩ := fileFrames_some hseg
      have hat : At crc fs { d.r with f := some d.r.cur.toNat, off := 0 } d.r.cur.toNat 0 := .first hb
      have hpos : pos = (pre.take d.r.cur.toNat).flatten.length + 0 := by rw [hr.pos, hj0]
      have := h.turnOpen (r := { d.r with f := some d.r.cur.toNat, off := 0 }) hseg (Nat.zero_le _) hpos hfs hat hsh
      unfold Fstun.turn
      rw [hf]
      dsimp only
      rw [hl]
      exact this
  · unfold Fstun.turn
    rw [hat.file]
    exact h.turnOpen hseg hj hr.pos hfs hat hsh
  · exact hwait hf (by show (d.names d.r.cur).filter _ = none; rw [hn]; rfl)

/-- A `Stat` finds the reader where it was. -/
theorem Layout.atStat (h : Layout crc d pre last) {r r' : SegReader} {fs : List Frame} {j : Nat}
    (hat : At crc fs r r.cur.toNat j) (hf : Fstun.atStat crc d.netFS true d.view r r.cur.toNat = some r') :
    r'.cur = r.cur ∧ At crc fs r' r.cur.toNat j := by
  unfold Fstun.atStat at hf
  split at hf
  · obtain ⟨ino, href, rfl⟩ := Option.map_eq_some_iff.1 hf
    obtain rfl : ino = r.cur.toNat := by
      unfold refresh at href
      split at href
      · exact (h.lookup href).1
      · exact (Option.some.inj href).symm
    exact ⟨rfl, hat.le, rfl, hat.low, hat.high, hat.buf⟩
  · cases hf

/-- **A round that ends in an error leaves the reader at its position.** -/
theorem Layout.faulted (h : Layout crc d pre last) {k j pos : Nat} (hr : Reading crc d pre last k j pos) {fault : Fault}
    {r' : SegReader} (hf : Fstun.faulted crc d.netFS true d.view d.r fault = some r') :
    Reading crc { d with r := r' } pre last k j pos := by
  obtain ⟨seg, hseg, hj⟩ := hr.le
  obtain rfl := hr.seg
  cases fault with
  | onOpen =>
    obtain ⟨-, hr'⟩ := Option.ite_none_right_eq_some.1 hf
    cases hr'
    exact hr
  | onStat =>
    unfold Fstun.faulted at hf
    rcases hr.state with ⟨hnone, hb, rfl⟩ | ⟨fs, hfs, hat, hsh⟩ | ⟨hnone, hn⟩
    · rw [hnone] at hf
      obtain ⟨ino, hl, hf⟩ := Option.bind_eq_some_iff.1 hf
      obtain ⟨rfl, hsh⟩ := h.lookup hl
      obtain ⟨fs, hfs⟩ := fileFrames_some hseg
      have hat : At crc fs { d.r with f := some d.r.cur.toNat, off := 0 } d.r.cur.toNat 0 := .first hb
      obtain ⟨hcur, hat'⟩ := h.atStat hat hf
      exact ⟨congrArg UInt32.toNat hcur, hr.le, hr.pos, Or.inr (Or.inl ⟨fs, hfs, hat', hsh⟩)⟩
    · rw [hat.file] at hf
      obtain ⟨hcur, hat'⟩ := h.atStat hat hf
      exact ⟨congrArg UInt32.toNat hcur, hr.le, hr.pos, Or.inr (Or.inl ⟨fs, hfs, hat', hsh⟩)⟩
    · have hl : d.view.lookup d.r.cur = none := by
        show (d.names d.r.cur).filter _ = none
        rw [hn]
        rfl
      rw [hnone, hl] at hf
      cases hf

/-- **A round of `next` at a position, whatever its operations meet.** -/
theorem Layout.round (h : Layout crc d pre last) {k j pos : Nat} (hr : Reading crc d pre last k j pos)
    (fault : Option Fault) : ∃ r' t k' j' pos', Fstun.round crc d.netFS true fault d.view d.r = (r', t) ∧
      Reading crc { d with r := r' } pre last k' j' pos' ∧ Went (pre.flatten ++ last) pos t pos' := by
  unfold Fstun.round
  cases hf : fault.bind (Fstun.faulted crc d.netFS true d.view d.r) with
  | none => exact h.turn hr
  | some r' =>
    obtain ⟨x, -, hx⟩ := Option.bind_eq_some_iff.1 hf
    exact ⟨r', .ioError, k, j, pos, rfl, h.faulted hr hx, .wait (Or.inr (Or.inr (Or.inr rfl)))⟩

/-- A reader that has nothing to open stays where it is. -/
theorem round_fresh (crc : List UInt8 → UInt32) (netFS reopen : Bool) (fault : Option Fault) {v : View}
    (hl : v.lookup newSegReader.cur = none) :
    Fstun.round crc netFS reopen fault v newSegReader = (newSegReader, .notExist) ∨
      Fstun.round crc netFS reopen fault v newSegReader = (newSegReader, .ioError) := by
  have hturn : Fstun.turn crc netFS reopen v newSegReader = (newSegReader, .notExist) := by
    unfold Fstun.turn
    dsimp only [newSegReader] at hl ⊢
    rw [hl]
  unfold Fstun.round
  rcases fault with _ | _ | _
  · exact Or.inl hturn
  · exact Or.inr rfl
  · left
    have hnone : Fstun.faulted crc netFS reopen v newSegReader .onStat = none := by
      show (v.lookup newSegReader.cur).bind _ = none
      rw [hl]
      rfl
    rw [Option.bind_some, hnone]
    exact hturn

/-- **What `next` returns on a direction is what its log holds next, and never a frame it does not hold.** -/
theorem DirSim.turn (h : DirSim crc false d e) (hio : io.reopen = true) :
    ∃ pos', Went e.log e.pos (d.next crc io).2 pos' ∧ DirSim crc false (d.next crc io).1 { e with pos := pos' } := by
  unfold SegDir.next
  dsimp only
  rcases h with ⟨hfr, h1, h2⟩ | ⟨pre, last, hl, hlog, hrd⟩
  · have hlook : (d.reveal io.reveal).view.lookup newSegReader.cur = none := by
      show (d.names 0).filter _ = none
      rw [hfr.names]
      rfl
    have hfresh : DirSim crc false { d.reveal io.reveal with r := newSegReader } e :=
      Or.inl ⟨⟨hfr.cur, hfr.f, hfr.size, hfr.here, hfr.files, hfr.names, hfr.reapOff, rfl⟩, h1, h2⟩
    rw [show (d.reveal io.reveal).r = newSegReader from hfr.r]
    rcases round_fresh crc (d.reveal io.reveal).netFS io.reopen io.fault hlook with ht | ht
    · rw [ht]
      exact ⟨e.pos, .wait (Or.inr (Or.inr (Or.inl rfl))), hfresh⟩
    · rw [ht]
      exact ⟨e.pos, .wait (Or.inr (Or.inr (Or.inr rfl))), hfresh⟩
  · obtain hs | ⟨k, j, hrd⟩ := hrd
    · cases hs
    · obtain ⟨r', t, k', j', pos', ht, hrd', hw⟩ := (hl.reveal io.reveal).round (hrd.reveal io.reveal) io.fault
      rw [hio, ht]
      refine ⟨pos', by rw [hlog]; exact hw, Or.inr ⟨pre, last, ?_, hlog, Or.inr ⟨k', j', hrd'⟩⟩⟩
      exact ⟨hl.cur, hl.files, hl.f, hl.here, hl.names, hl.live, hl.reap, hl.frames⟩

theorem DirSim.next {t : Turn} (h : DirSim crc false d e) (hio : io.reopen = true)
    (hp : d.perform crc io (.next t) = some d') : ∃ e', e.perform (.next t) = some e' ∧ DirSim crc false d' e' := by
  obtain ⟨pos', hw, hsim⟩ := h.turn hio
  cases SegDir.perform_some hp
  refine ⟨_, ?_, hsim⟩
  generalize (d.next crc io).2 = t at hw
  cases hw with
  | wait hw => rcases hw with rfl | rfl | rfl | rfl <;> rfl
  | frame hg => exact if_pos hg

theorem DirSim.mono {shut' : Bool} (h : DirSim crc shut d e) (hs : shut = true → shut' = true) :
    DirSim crc shut' d e := by
  rcases h with h | ⟨pre, last, hl, hlog, hrd⟩
  · exact Or.inl h
  · refine Or.inr ⟨pre, last, hl, hlog, ?_⟩
    rcases hrd with hrd | hrd
    · exact Or.inl (hs hrd)
    · exact Or.inr hrd

end Fstun
end Ccb
