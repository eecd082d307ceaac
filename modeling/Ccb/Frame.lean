import Ccb.Bytes
/-!
# Frame — the wire format of a segment

A frame (frame.go) is a 22-byte header, the payload and a CRC32C of both.  The CRC is a parameter `crc`.  What the
segment log rests on: an encoded frame decodes to itself whatever follows it (`decodeFrame_encode`), a strict prefix of
one is incomplete (`decodeFrame_of_strictPrefix`), and a decode that found a frame or a corrupt one finds the same when
more bytes arrive (`decodeFrame_append`).
-/
namespace Ccb
namespace Fstun

open Bytes (beBytes beNat slice)

abbrev FrameType := UInt8

def frameSYN : FrameType := 1
def frameDATA : FrameType := 2
def frameACK : FrameType := 3
def frameHeartbeat : FrameType := 4
def frameFIN : FrameType := 5
def frameError : FrameType := 6
def frameROLL : FrameType := 7

def headerLen : Nat := 22
def crcLen : Nat := 4
def maxPayload : Nat := 1048576

structure Frame where
  typ     : FrameType
  flags   : UInt8
  seq     : UInt64
  dataOff : UInt64
  payload : List UInt8
  deriving DecidableEq, Repr

inductive DecodeErr where
  | incomplete
  | corrupt
  deriving DecidableEq, Repr

section
variable (crc : List UInt8 → UInt32)

def Frame.header (f : Frame) : List UInt8 :=
  f.typ :: f.flags :: (beBytes 8 f.seq.toNat ++ (beBytes 8 f.dataOff.toNat ++ beBytes 4 f.payload.length))

/-- `appendTo(nil)`. -/
def Frame.encode (f : Frame) : List UInt8 :=
  f.header ++ (f.payload ++ beBytes 4 (crc (f.header ++ f.payload)).toNat)

def decodeFrame (buf : List UInt8) : Except DecodeErr (Frame × Nat) :=
  if buf.length < headerLen then .error .incomplete
  else
    let length := beNat (slice buf 18 4)
    if length > maxPayload then .error .corrupt
    else
      let total := headerLen + length + crcLen
      if buf.length < total then .error .incomplete
      else
        let payload := slice buf headerLen length
        let want := beNat (slice buf (headerLen + length) crcLen)
        if (crc (slice buf 0 headerLen ++ payload)).toNat ≠ want then .error .corrupt
        else
          .ok (⟨.ofNat (beNat (slice buf 0 1)), .ofNat (beNat (slice buf 1 1)), .ofNat (beNat (slice buf 2 8)),
            .ofNat (beNat (slice buf 10 8)), payload⟩, total)

end

/-! ## Payloads -/

def encodeUint32 (v : UInt32) : List UInt8 := beBytes 4 v.toNat

def decodeUint32 (b : List UInt8) : Option UInt32 := if b.length ≠ 4 then none else some (.ofNat (beNat b))

def encodeUint64 (v : UInt64) : List UInt8 := beBytes 8 v.toNat

def decodeUint64 (b : List UInt8) : Option UInt64 := if b.length ≠ 8 then none else some (.ofNat (beNat b))

@[simp] theorem decodeUint32_encode (v : UInt32) : decodeUint32 (encodeUint32 v) = some v := by
  have hv : v.toNat < 256 ^ 4 := v.toNat_lt
  simp [decodeUint32, encodeUint32, Bytes.beNat_beBytes_of_lt hv]

@[simp] theorem decodeUint64_encode (v : UInt64) : decodeUint64 (encodeUint64 v) = some v := by
  have hv : v.toNat < 256 ^ 8 := v.toNat_lt
  simp [decodeUint64, encodeUint64, Bytes.beNat_beBytes_of_lt hv]

/-! ## Encoding and decoding -/

variable {crc : List UInt8 → UInt32}

@[simp] theorem Frame.length_header (f : Frame) : f.header.length = headerLen := by
  simp [Frame.header, headerLen]

theorem Frame.length_encode (f : Frame) : (f.encode crc).length = headerLen + f.payload.length + crcLen := by
  simp [Frame.encode, crcLen]; omega

/-- The header's fields, read back from a buffer it starts. -/
theorem Frame.header_fields (f : Frame) (rest : List UInt8) (hf : f.payload.length ≤ maxPayload) :
    beNat (slice (f.header ++ rest) 0 1) = f.typ.toNat ∧ beNat (slice (f.header ++ rest) 1 1) = f.flags.toNat ∧
      beNat (slice (f.header ++ rest) 2 8) = f.seq.toNat ∧ beNat (slice (f.header ++ rest) 10 8) = f.dataOff.toNat ∧
      beNat (slice (f.header ++ rest) 18 4) = f.payload.length := by
  have hseq : f.seq.toNat < 256 ^ 8 := f.seq.toNat_lt
  have hoff : f.dataOff.toNat < 256 ^ 8 := f.dataOff.toNat_lt
  have hlen : f.payload.length < 256 ^ 4 := lt_of_le_of_lt hf (by decide)
  have hsplit : f.header ++ rest = [f.typ, f.flags] ++ (beBytes 8 f.seq.toNat ++ (beBytes 8 f.dataOff.toNat ++
      (beBytes 4 f.payload.length ++ rest))) := by simp [Frame.header]
  refine ⟨by simp [Frame.header, slice, beNat], by simp [Frame.header, slice, beNat], ?_, ?_, ?_⟩
  · rw [hsplit, Bytes.slice_middle (i := 2) rfl (Bytes.length_beBytes _ _), Bytes.beNat_beBytes_of_lt hseq]
  · rw [hsplit, ← List.append_assoc, Bytes.slice_middle (by simp) (Bytes.length_beBytes _ _),
      Bytes.beNat_beBytes_of_lt hoff]
  · rw [hsplit, ← List.append_assoc, ← List.append_assoc, Bytes.slice_middle (by simp) (Bytes.length_beBytes _ _),
      Bytes.beNat_beBytes_of_lt hlen]

/-- **An encoded frame decodes to itself**, whatever follows it. -/
theorem decodeFrame_encode (f : Frame) (rest : List UInt8) (hf : f.payload.length ≤ maxPayload) :
    decodeFrame crc (f.encode crc ++ rest) = .ok (f, (f.encode crc).length) := by
  have hcrc : (crc (f.header ++ f.payload)).toNat < 256 ^ 4 := (crc (f.header ++ f.payload)).toNat_lt
  have hbuf : f.encode crc ++ rest =
      f.header ++ (f.payload ++ (beBytes 4 (crc (f.header ++ f.payload)).toNat ++ rest)) := by
    simp [Frame.encode]
  have hlen : (f.encode crc ++ rest).length = headerLen + f.payload.length + crcLen + rest.length := by
    rw [List.length_append, Frame.length_encode]
  obtain ⟨htyp, hflags, hseq, hoff, hlf⟩ :=
    f.header_fields (f.payload ++ (beBytes 4 (crc (f.header ++ f.payload)).toNat ++ rest)) hf
  rw [← hbuf] at htyp hflags hseq hoff hlf
  have hhead : slice (f.encode crc ++ rest) 0 headerLen = f.header := by
    rw [hbuf]; exact Bytes.slice_middle (a := []) rfl f.length_header
  have hpay : slice (f.encode crc ++ rest) headerLen f.payload.length = f.payload := by
    rw [hbuf]; exact Bytes.slice_middle f.length_header rfl
  have hwant : slice (f.encode crc ++ rest) (headerLen + f.payload.length) crcLen =
      beBytes 4 (crc (f.header ++ f.payload)).toNat := by
    rw [hbuf, ← List.append_assoc]
    exact Bytes.slice_middle (by simp) (Bytes.length_beBytes _ _)
  unfold decodeFrame
  dsimp only
  rw [if_neg (by omega), hlf, if_neg (by omega), if_neg (by omega), hpay, hhead, hwant,
    Bytes.beNat_beBytes_of_lt hcrc, if_neg (by simp), htyp, hflags, hseq, hoff, Frame.length_encode]
  simp

theorem decodeFrame_self (f : Frame) (hf : f.payload.length ≤ maxPayload) :
    decodeFrame crc (f.encode crc) = .ok (f, (f.encode crc).length) := by
  have h := @decodeFrame_encode crc f [] hf
  rwa [List.append_nil] at h

/-- **A strict prefix of an encoded frame is incomplete.** -/
theorem decodeFrame_of_strictPrefix (f : Frame) (hf : f.payload.length ≤ maxPayload) {p : List UInt8}
    (hp : p <+: f.encode crc) (hlt : p.length < (f.encode crc).length) : decodeFrame crc p = .error .incomplete := by
  unfold decodeFrame
  by_cases hh : p.length < headerLen
  · rw [if_pos hh]
  rw [if_neg hh]
  -- The header is there, so the length field is the frame's own.
  have hpl : f.header <+: p := by
    refine List.prefix_of_prefix_length_le (show f.header <+: f.encode crc from ⟨_, rfl⟩) hp ?_
    rw [f.length_header]; omega
  obtain ⟨rest, rfl⟩ := hpl
  have hlen : (f.encode crc).length = headerLen + f.payload.length + crcLen := f.length_encode
  obtain ⟨-, -, -, -, hlf⟩ := f.header_fields rest hf
  dsimp only
  rw [hlf, if_neg (by omega), if_pos (by omega)]

/-- **More bytes change no verdict** but `incomplete`. -/
theorem decodeFrame_append {buf : List UInt8} (ext : List UInt8) (h : decodeFrame crc buf ≠ .error .incomplete) :
    decodeFrame crc (buf ++ ext) = decodeFrame crc buf := by
  have hext : (buf ++ ext).length = buf.length + ext.length := List.length_append
  unfold decodeFrame at h ⊢
  dsimp only at h ⊢
  by_cases h1 : buf.length < headerLen
  · rw [if_pos h1] at h; exact absurd rfl h
  have h1' : ¬ (buf ++ ext).length < headerLen := by omega
  have hh : 22 ≤ buf.length := Nat.le_of_not_lt h1
  rw [if_neg h1] at h
  rw [if_neg h1, if_neg h1', Bytes.slice_append ext (i := 18) (n := 4) (by omega)]
  generalize beNat (slice buf 18 4) = len at h ⊢
  by_cases h2 : len > maxPayload
  · rw [if_pos h2, if_pos h2]
  rw [if_neg h2] at h
  rw [if_neg h2, if_neg h2]
  by_cases h3 : buf.length < headerLen + len + crcLen
  · rw [if_pos h3] at h; exact absurd rfl h
  have h3' : ¬ (buf ++ ext).length < headerLen + len + crcLen := by omega
  have ht : 22 + len + 4 ≤ buf.length := Nat.le_of_not_lt h3
  rw [if_neg h3, if_neg h3']
  unfold headerLen crcLen
  rw [Bytes.slice_append ext (i := 0) (n := 22) (by omega), Bytes.slice_append ext (i := 22) (n := len) (by omega),
    Bytes.slice_append ext (i := 22 + len) (n := 4) (by omega), Bytes.slice_append ext (i := 0) (n := 1) (by omega),
    Bytes.slice_append ext (i := 1) (n := 1) (by omega), Bytes.slice_append ext (i := 2) (n := 8) (by omega),
    Bytes.slice_append ext (i := 10) (n := 8) (by omega)]

/-- A decoded frame lies within its buffer. -/
theorem decodeFrame_le {buf : List UInt8} {f : Frame} {n : Nat} (h : decodeFrame crc buf = .ok (f, n)) :
    0 < n ∧ n ≤ buf.length := by
  unfold decodeFrame at h
  dsimp only at h
  (repeat' split at h) <;> cases h
  rename_i hlen _
  unfold headerLen crcLen at hlen ⊢
  omega

end Fstun
end Ccb
