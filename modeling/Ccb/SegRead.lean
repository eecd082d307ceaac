import Ccb.SegLog
/-!
# SegRead — a reader inside one file of frames

A segment file is the encodings of a list of frames.  `At fs r ino j` says that the reader has decoded the first `j` of
them and that its buffer is what it has read past these; its next decode finds the `j`-th frame, or has to wait.
-/
namespace Ccb
namespace Fstun

section
variable (crc : List UInt8 → UInt32)

def encodes (fs : List Frame) : List UInt8 := fs.flatMap (fun f => f.encode crc)

/-- Where the `j`-th frame of a file starts. -/
def offset (fs : List Frame) (j : Nat) : Nat := (encodes crc (fs.take j)).length

structure At (fs : List Frame) (r : SegReader) (ino j : Nat) : Prop where
  le   : j ≤ fs.length
  file : r.f = some ino
  low  : offset crc fs j ≤ r.off
  high : r.off ≤ (encodes crc fs).length
  buf  : r.buf = ((encodes crc fs).take r.off).drop (offset crc fs j)

end

variable {crc : List UInt8 → UInt32} {fs : List Frame} {r : SegReader} {ino j : Nat}

@[simp] theorem encodes_append (l l' : List Frame) : encodes crc (l ++ l') = encodes crc l ++ encodes crc l' :=
  List.flatMap_append

@[simp] theorem encodes_singleton (f : Frame) : encodes crc [f] = f.encode crc := List.flatMap_singleton ..

theorem encodes_take_succ {g : Frame} (h : fs[j]? = some g) :
    encodes crc (fs.take (j + 1)) = encodes crc (fs.take j) ++ g.encode crc := by
  rw [List.take_add_one, h, Option.toList_some, encodes_append, encodes_singleton]

theorem offset_succ {g : Frame} (h : fs[j]? = some g) :
    offset crc fs (j + 1) = offset crc fs j + (g.encode crc).length := by
  unfold offset
  rw [encodes_take_succ h, List.length_append]

/-- The file past the frames decoded starts with the next one. -/
theorem drop_offset {g : Frame} (h : fs[j]? = some g) :
    (encodes crc fs).drop (offset crc fs j) = g.encode crc ++ encodes crc (fs.drop (j + 1)) := by
  obtain ⟨hj, rfl⟩ := List.getElem?_eq_some_iff.1 h
  have hsplit : encodes crc fs = encodes crc (fs.take j) ++ encodes crc (fs.drop j) := by
    rw [← encodes_append, List.take_append_drop]
  unfold offset
  rw [hsplit, List.drop_left, List.drop_eq_getElem_cons hj, ← List.singleton_append, encodes_append,
    encodes_singleton]

/-- A reader that has just opened the file. -/
theorem At.first (hb : r.buf = []) : At crc fs { r with f := some ino, off := 0 } ino 0 := by
  refine ⟨Nat.zero_le _, rfl, Nat.zero_le _, Nat.zero_le _, ?_⟩
  show r.buf = _
  rw [hb, List.take_zero, List.drop_nil]

theorem At.grow (h : At crc fs r ino j) (ext : List Frame) : At crc (fs ++ ext) r ino j := by
  have hoff : offset crc (fs ++ ext) j = offset crc fs j := by
    unfold offset
    rw [List.take_append_of_le_length h.le]
  refine ⟨?_, h.file, by rw [hoff]; exact h.low, ?_, ?_⟩
  · rw [List.length_append]
    exact le_trans h.le (Nat.le_add_right _ _)
  · rw [encodes_append, List.length_append]
    exact le_trans h.high (Nat.le_add_right _ _)
  · rw [hoff, encodes_append, List.take_append_of_le_length h.high]
    exact h.buf

/-- The bytes read past the position, up to a later offset. -/
theorem drop_take_append {l : List UInt8} {a b c : Nat} (hab : a ≤ b) (hbc : b ≤ c) (hc : c ≤ l.length) :
    (l.take b).drop a ++ (l.take c).drop b = (l.take c).drop a := by
  have hb : l.take b = (l.take c).take b := by rw [List.take_take, Nat.min_eq_left hbc]
  have hlen : (l.take c).length = c := by rw [List.length_take, Nat.min_eq_left hc]
  rw [hb, ← List.drop_append_of_le_length (by rw [List.length_take, hlen]; omega), List.take_append_drop]

/-- **A decode at a position finds the next frame of the file, or waits.** -/
theorem At.decode (h : At crc fs r ino j) (hp : ∀ f ∈ fs, f.payload.length ≤ maxPayload) :
    decodeFrame crc r.buf = .error .incomplete ∨
      ∃ g, fs[j]? = some g ∧ decodeFrame crc r.buf = .ok (g, (g.encode crc).length) ∧
        At crc fs { r with buf := r.buf.drop (g.encode crc).length } ino (j + 1) := by
  rcases hg : fs[j]? with _ | g
  · -- Every frame of the file has been decoded, and nothing follows them.
    have hj : fs.length ≤ j := List.getElem?_eq_none_iff.1 hg
    have hoff : offset crc fs j = (encodes crc fs).length := by
      unfold offset; rw [List.take_of_length_le hj]
    have hnil : r.buf = [] := by
      rw [h.buf, hoff, List.drop_eq_nil_of_le]
      rw [List.length_take]; omega
    rw [hnil]
    exact Or.inl rfl
  · have hmem : g ∈ fs := List.mem_of_getElem? hg
    have hdrop : (encodes crc fs).drop (offset crc fs j) = g.encode crc ++ encodes crc (fs.drop (j + 1)) :=
      drop_offset hg
    have hbuf : r.buf = (g.encode crc ++ encodes crc (fs.drop (j + 1))).take (r.off - offset crc fs j) := by
      rw [h.buf, ← hdrop, List.drop_take]
    by_cases hlt : r.off - offset crc fs j < (g.encode crc).length
    · left
      refine decodeFrame_of_strictPrefix g (hp g hmem) ?_ ?_
      · rw [hbuf, List.take_append_of_le_length (by omega)]
        exact List.take_prefix _ _
      · rw [hbuf, List.length_take]
        omega
    · right
      have hsplit : r.buf = g.encode crc ++
          (encodes crc (fs.drop (j + 1))).take (r.off - offset crc fs j - (g.encode crc).length) := by
        rw [hbuf, List.take_append, List.take_of_length_le (by omega)]
      refine ⟨g, rfl, ?_, ?_⟩
      · rw [hsplit]
        exact decodeFrame_encode g _ (hp g hmem)
      · have hs : offset crc fs (j + 1) = offset crc fs j + (g.encode crc).length := offset_succ hg
        have hj := (List.getElem?_eq_some_iff.1 hg).1
        refine ⟨hj, h.file, ?_, h.high, ?_⟩
        · rw [hs]
          have := h.low
          show _ ≤ r.off
          omega
        · show r.buf.drop _ = ((encodes crc fs).take r.off).drop _
          rw [hs, ← List.drop_drop, ← h.buf]

/-- **What `fill` leaves at a position**: more of the file in the buffer, or nothing new. -/
theorem At.read (h : At crc fs r ino j) {n : Nat} (hn : r.off ≤ n) (hlen : n ≤ (encodes crc fs).length) :
    At crc fs { r with off := n, buf := r.buf ++ ((encodes crc fs).take n).drop r.off } ino j := by
  refine ⟨h.le, h.file, le_trans h.low hn, hlen, ?_⟩
  show r.buf ++ _ = _
  rw [h.buf, drop_take_append h.low hn hlen]

end Fstun
end Ccb
