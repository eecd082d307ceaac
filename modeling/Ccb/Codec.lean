import Ccb.SegRead
/-!
# Codec — the wire format, both ways

Encoding and decoding are inverse to each other: a stream of encoded frames decodes to these frames, whatever part of
one more frame follows it, and what decodes is the encoding of what it decodes to.  The same of the payloads that have a
format of their own: a SYN's parameters, an ACK's count and a ROLL's index.
-/
namespace Ccb
namespace Fstun

open Bytes (beBytes beNat slice)

variable {crc : List UInt8 → UInt32}

/-- `decodeFrame` over and over: the frames with the bytes each took, and the error that ended it. -/
def decodeAll (crc : List UInt8 → UInt32) (buf : List UInt8) : List (Frame × Nat) × DecodeErr :=
  match _h : decodeFrame crc buf with
  | .error e    => ([], e)
  | .ok (f, n)  => ((f, n) :: (decodeAll crc (buf.drop n)).1, (decodeAll crc (buf.drop n)).2)
termination_by buf.length
decreasing_by
  all_goals
    have := decodeFrame_le _h
    rw [List.length_drop]
    omega

theorem decodeAll_of_error {buf : List UInt8} {e : DecodeErr} (h : decodeFrame crc buf = .error e) :
    decodeAll crc buf = ([], e) := by
  rw [decodeAll]
  split
  · rename_i e' he
    rw [h] at he
    cases he
    rfl
  · rename_i f n hok
    rw [h] at hok
    cases hok

theorem decodeAll_of_ok {buf : List UInt8} {f : Frame} {n : Nat} (h : decodeFrame crc buf = .ok (f, n)) :
    decodeAll crc buf = ((f, n) :: (decodeAll crc (buf.drop n)).1, (decodeAll crc (buf.drop n)).2) := by
  rw [decodeAll]
  split
  · rename_i e he
    rw [h] at he
    cases he
  · rename_i f' n' hok
    rw [h] at hok
    cases hok
    rfl

/-- A decode skips the frame it finds and goes on with the rest. -/
theorem decodeAll_encode (f : Frame) (rest : List UInt8) (hf : f.payload.length ≤ maxPayload) :
    decodeAll crc (f.encode crc ++ rest) =
      ((f, (f.encode crc).length) :: (decodeAll crc rest).1, (decodeAll crc rest).2) := by
  rw [decodeAll_of_ok (decodeFrame_encode f rest hf), List.drop_left]

/-- **A stream of frames with a torn tail decodes to the frames.** -/
theorem decodeAll_encodes {g : Frame} {p : List UInt8} (hg : g.payload.length ≤ maxPayload) (hp : p <+: g.encode crc)
    (hne : p ≠ g.encode crc) : ∀ fs : List Frame, (∀ f ∈ fs, f.payload.length ≤ maxPayload) →
      decodeAll crc (encodes crc fs ++ p) = (fs.map (fun f => (f, (f.encode crc).length)), .incomplete)
  | [], _ => by
    have hlt : p.length < (g.encode crc).length := by
      apply Nat.lt_of_le_of_ne hp.length_le
      intro heq
      exact hne (hp.eq_of_length heq)
    exact decodeAll_of_error (decodeFrame_of_strictPrefix g hg hp hlt)
  | f :: fs, h => by
    have ih := decodeAll_encodes hg hp hne fs (fun f' hf' => h f' (List.mem_cons_of_mem _ hf'))
    have hcons : encodes crc (f :: fs) ++ p = f.encode crc ++ (encodes crc fs ++ p) := by
      rw [← List.singleton_append, encodes_append, encodes_singleton, List.append_assoc]
    rw [hcons, decodeAll_encode f _ (h f List.mem_cons_self), ih]
    rfl

/-! ## Encoding what was decoded -/

theorem byte_ofNat_beNat {b : List UInt8} (h : b.length = 1) : [UInt8.ofNat (beNat b)] = b := by
  match b, h with
  | [x], _ => simp [beNat]

theorem beBytes_uint64 {b : List UInt8} (h : b.length = 8) : beBytes 8 (UInt64.ofNat (beNat b)).toNat = b := by
  have hlt : beNat b < UInt64.size := Bytes.beNat_lt_of_length h
  rw [UInt64.toNat_ofNat_of_lt' hlt, Bytes.beBytes_beNat_of_length h]

theorem beBytes_uint32 {b : List UInt8} (h : b.length = 4) : beBytes 4 (UInt32.ofNat (beNat b)).toNat = b := by
  have hlt : beNat b < UInt32.size := Bytes.beNat_lt_of_length h
  rw [UInt32.toNat_ofNat_of_lt' hlt, Bytes.beBytes_beNat_of_length h]

theorem beBytes_uint16 {b : List UInt8} (h : b.length = 2) : beBytes 2 (UInt16.ofNat (beNat b)).toNat = b := by
  have hlt : beNat b < UInt16.size := Bytes.beNat_lt_of_length h
  rw [UInt16.toNat_ofNat_of_lt' hlt, Bytes.beBytes_beNat_of_length h]

/-- The header made of a header's fields is that header. -/
theorem header_of_fields {buf payload : List UInt8} (hlen : headerLen ≤ buf.length)
    (hp : payload.length = beNat (slice buf 18 4)) :
    Frame.header ⟨.ofNat (beNat (slice buf 0 1)), .ofNat (beNat (slice buf 1 1)), .ofNat (beNat (slice buf 2 8)),
      .ofNat (beNat (slice buf 10 8)), payload⟩ = slice buf 0 headerLen := by
  unfold headerLen at hlen
  have htyp := byte_ofNat_beNat (Bytes.length_slice (l := buf) (i := 0) (n := 1) (by omega))
  have hflags := byte_ofNat_beNat (Bytes.length_slice (l := buf) (i := 1) (n := 1) (by omega))
  have hseq := beBytes_uint64 (Bytes.length_slice (l := buf) (i := 2) (n := 8) (by omega))
  have hoff := beBytes_uint64 (Bytes.length_slice (l := buf) (i := 10) (n := 8) (by omega))
  have hlf := Bytes.beBytes_beNat_of_length (Bytes.length_slice (l := buf) (i := 18) (n := 4) (by omega))
  have hsplit : slice buf 0 headerLen =
      slice buf 0 1 ++ (slice buf 1 1 ++ (slice buf 2 8 ++ (slice buf 10 8 ++ slice buf 18 4))) := by
    rw [← Bytes.slice_add buf 10 8 4, ← Bytes.slice_add buf 2 8 12, ← Bytes.slice_add buf 1 1 20,
      ← Bytes.slice_add buf 0 1 21]
    rfl
  change [UInt8.ofNat (beNat (slice buf 0 1))] ++ ([UInt8.ofNat (beNat (slice buf 1 1))] ++ (beBytes 8 _ ++
    (beBytes 8 _ ++ beBytes 4 payload.length))) = _
  rw [htyp, hflags, hseq, hoff, hp, hlf, hsplit]

/-- **Re-encoding a decoded frame yields the bytes it took.** -/
theorem encode_of_decodeFrame {buf : List UInt8} {f : Frame} {n : Nat} (h : decodeFrame crc buf = .ok (f, n)) :
    f.encode crc = buf.take n := by
  unfold decodeFrame at h
  dsimp only at h
  split at h
  · cases h
  rename_i hhead
  split at h
  · cases h
  split at h
  · cases h
  rename_i htotal
  split at h
  · cases h
  rename_i hcrc
  cases h
  have hcrc := not_not.1 hcrc
  have hhead := Nat.le_of_not_lt hhead
  have htotal := Nat.le_of_not_lt htotal
  unfold headerLen at hhead
  generalize hlen : beNat (slice buf 18 4) = len at *
  have hpay : (slice buf headerLen len).length = len := Bytes.length_slice (by unfold crcLen at htotal; omega)
  have hwant :=
    Bytes.beBytes_beNat_of_length (Bytes.length_slice (l := buf) (i := headerLen + len) (n := crcLen) htotal)
  have hheader := header_of_fields hhead (hpay.trans hlen.symm)
  rw [Frame.encode, hheader, hcrc]
  show slice buf 0 headerLen ++ (slice buf headerLen len ++ beBytes crcLen _) = slice buf 0 _
  rw [hwant, Bytes.slice_add, Bytes.slice_add, Nat.zero_add, Nat.zero_add, List.append_assoc]

/-! ## Payloads -/

theorem encode_of_decodeUint64 {b : List UInt8} {v : UInt64} (h : decodeUint64 b = some v) : encodeUint64 v = b := by
  unfold decodeUint64 at h
  split at h
  · cases h
  · rename_i hlen
    cases h
    exact beBytes_uint64 (not_not.1 hlen)

theorem encode_of_decodeUint32 {b : List UInt8} {v : UInt32} (h : decodeUint32 b = some v) : encodeUint32 v = b := by
  unfold decodeUint32 at h
  split at h
  · cases h
  · rename_i hlen
    cases h
    exact beBytes_uint32 (not_not.1 hlen)

theorem decodeSynParams_encode (p : SynParams) : decodeSynParams p.encode = some p := by
  have hlen : p.encode.length = 22 := by simp [SynParams.encode]
  have hver : p.version.toNat < 256 ^ 2 := p.version.toNat_lt
  have hseg : p.segmentSize.toNat < 256 ^ 8 := p.segmentSize.toNat_lt
  have hwin : p.window.toNat < 256 ^ 8 := p.window.toNat_lt
  have hmax : p.maxFrame.toNat < 256 ^ 4 := p.maxFrame.toNat_lt
  have h0 : slice p.encode 0 2 = beBytes 2 p.version.toNat :=
    Bytes.slice_middle (a := []) rfl (Bytes.length_beBytes _ _)
  have h1 : slice p.encode 2 8 = beBytes 8 p.segmentSize.toNat :=
    Bytes.slice_middle (Bytes.length_beBytes _ _) (Bytes.length_beBytes _ _)
  have h2 : slice p.encode 10 8 = beBytes 8 p.window.toNat := by
    rw [SynParams.encode, ← List.append_assoc]
    exact Bytes.slice_middle (by simp) (Bytes.length_beBytes _ _)
  have h3 : slice p.encode 18 4 = beBytes 4 p.maxFrame.toNat := by
    rw [SynParams.encode, ← List.append_assoc, ← List.append_assoc, ← List.append_nil (beBytes 4 _)]
    exact Bytes.slice_middle (by simp) (Bytes.length_beBytes _ _)
  rw [decodeSynParams, if_neg (not_not.2 hlen), h0, h1, h2, h3, Bytes.beNat_beBytes_of_lt hver,
    Bytes.beNat_beBytes_of_lt hseg, Bytes.beNat_beBytes_of_lt hwin, Bytes.beNat_beBytes_of_lt hmax]
  simp

theorem encode_of_decodeSynParams {b : List UInt8} {p : SynParams} (h : decodeSynParams b = some p) : p.encode = b := by
  unfold decodeSynParams at h
  split at h
  · cases h
  rename_i hlen
  cases h
  have hlen := not_not.1 hlen
  have hsplit : slice b 0 22 = slice b 0 2 ++ (slice b 2 8 ++ (slice b 10 8 ++ slice b 18 4)) := by
    rw [← Bytes.slice_add b 10 8 4, ← Bytes.slice_add b 2 8 12, ← Bytes.slice_add b 0 2 20]
  have hall : slice b 0 22 = b := List.take_of_length_le (Nat.le_of_eq hlen)
  rw [SynParams.encode, beBytes_uint16 (Bytes.length_slice (by omega)), beBytes_uint64 (Bytes.length_slice (by omega)),
    beBytes_uint64 (Bytes.length_slice (by omega)), beBytes_uint32 (Bytes.length_slice (by omega)), ← hsplit, hall]

/-! ## The codec -/

/-- What an exact codec is. -/
structure CodecExact (crc : List UInt8 → UInt32) : Prop where
  /-- Any frames, and any strict prefix of one more. -/
  stream : ∀ (fs : List Frame) (g : Frame) (p : List UInt8), (∀ f ∈ fs, f.payload.length ≤ maxPayload) →
    g.payload.length ≤ maxPayload → p <+: g.encode crc → p ≠ g.encode crc →
    decodeAll crc (encodes crc fs ++ p) = (fs.map (fun f => (f, (f.encode crc).length)), .incomplete)
  /-- What decodes is an encoding. -/
  encode : ∀ (buf : List UInt8) (f : Frame) (n : Nat), decodeFrame crc buf = .ok (f, n) → f.encode crc = buf.take n
  /-- A verdict stands whatever follows. -/
  stable : ∀ buf ext : List UInt8, decodeFrame crc buf ≠ .error .incomplete →
    decodeFrame crc (buf ++ ext) = decodeFrame crc buf
  syn    : ∀ (b : List UInt8) (p : SynParams), decodeSynParams b = some p ↔ p.encode = b
  ack    : ∀ (b : List UInt8) (v : UInt64), decodeUint64 b = some v ↔ encodeUint64 v = b
  roll   : ∀ (b : List UInt8) (v : UInt32), decodeUint32 b = some v ↔ encodeUint32 v = b

/-- **The frame codec is exact**, for every checksum. -/
theorem codec_exact (crc : List UInt8 → UInt32) : CodecExact crc where
  stream fs _ _ hfs hg hp hne := decodeAll_encodes hg hp hne fs hfs
  encode _ _ _ h := encode_of_decodeFrame h
  stable _ ext h := decodeFrame_append ext h
  syn b p := by
    constructor
    · exact encode_of_decodeSynParams
    · rintro rfl
      exact decodeSynParams_encode p
  ack b v := by
    constructor
    · exact encode_of_decodeUint64
    · rintro rfl
      exact decodeUint64_encode v
  roll b v := by
    constructor
    · exact encode_of_decodeUint32
    · rintro rfl
      exact decodeUint32_encode v

end Fstun
end Ccb
