import Ccb.Tail
import Ccb.Codec
import Ccb.Crc
/-!
# Corrupt — what the checksum of a frame finds

The checksum of a frame is the CRC32C of its header and payload, stored high byte first (frame.go).  A frame whose bytes
were changed on their way is reported corrupt, with every frame before it intact, when three bytes in a row were
changed, four in a row on one side of the trailer's start, or any odd number of bits; the length field has to be whole,
for it says where the trailer is (`damage_detected`).  Four bytes across the trailer's start are too many: the
register's low byte leaves last, so the trailer's order breaks what the CRC would find (`burst_bound_sharp`).
-/
namespace Ccb
namespace Fstun

open Bytes (beBytes beNat slice)

/-- `crc32.Castagnoli`. -/
def castagnoli : BitVec 32 := 0x82F63B78#32

theorem crcBit_toBitVec (c : UInt32) : (crcBit c).toBitVec = Crc.shift castagnoli c.toBitVec := by
  have hlow : c &&& 1 = 1 ↔ c.toBitVec.getLsbD 0 = true := by
    rw [← UInt32.toBitVec_inj, UInt32.toBitVec_and, ← BitVec.toNat_inj, BitVec.toNat_and]
    simp [BitVec.getLsbD, Nat.and_one_is_mod]
  unfold crcBit Crc.shift
  split <;> rename_i h
  · rw [if_pos (hlow.1 h)]; rfl
  · rw [if_neg (fun hb => h (hlow.2 hb))]; rfl

theorem crcByte_toBitVec (c : UInt32) (b : UInt8) : (crcByte c b).toBitVec = Crc.byte castagnoli c.toBitVec b :=
  (Function.Semiconj.iterate_right (f := UInt32.toBitVec) crcBit_toBitVec 8) (c ^^^ b.toUInt32)

/-- The bits of a frame's checksum: those of the register, turned over. -/
theorem crc32c_toBitVec (bs : List UInt8) :
    (crc32c bs).toBitVec = ~~~Crc.update castagnoli (BitVec.allOnes 32) bs := by
  have hfold : ∀ (bs : List UInt8) (c : UInt32),
      (bs.foldl crcByte c).toBitVec = Crc.update castagnoli c.toBitVec bs := by
    intro bs
    induction bs with
    | nil => exact fun _ => rfl
    | cons b bs ih =>
      intro c
      rw [List.foldl_cons, ih, crcByte_toBitVec, Crc.update_cons]
  rw [← BitVec.xor_allOnes]
  exact congrArg (· ^^^ BitVec.allOnes 32) (hfold bs 0xFFFFFFFF)

theorem castagnoli_msb : castagnoli.msb = true := by decide

theorem castagnoli_parity : Crc.parity castagnoli = true := by decide

/-! ## A body and its trailer -/

/-- The trailer fits the body. -/
def Passes (body tr : List UInt8) : Prop := (crc32c body).toNat = beNat tr

theorem passes_encode (body : List UInt8) : Passes body (beBytes 4 (crc32c body).toNat) :=
  (Bytes.beNat_beBytes_of_lt (crc32c body).toNat_lt).symm

theorem beNat_inj {a b : List UInt8} (hlen : a.length = b.length) (h : beNat a = beNat b) : a = b := by
  rw [← Bytes.beBytes_beNat a, h, hlen, Bytes.beBytes_beNat]

theorem beNat_append : ∀ a b : List UInt8, beNat (a ++ b) = beNat a * 256 ^ b.length + beNat b
  | [], b     => by simp [beNat]
  | x :: a, b => by
    rw [List.cons_append, beNat, beNat, beNat_append a b, List.length_append, pow_add, Nat.add_mul, Nat.mul_assoc,
      Nat.add_assoc]

theorem crc32c_inj {a b : List UInt8} (h : crc32c a = crc32c b) :
    Crc.update castagnoli (BitVec.allOnes 32) a = Crc.update castagnoli (BitVec.allOnes 32) b :=
  BitVec.not_inj.1 (by rw [← crc32c_toBitVec, ← crc32c_toBitVec, h])

/-- How the checksums of two bodies with one beginning differ. -/
theorem crc32c_xor (p : List UInt8) {a b : List UInt8} (hlen : a.length = b.length) (h : a.length ≤ 4) :
    (crc32c (p ++ a)).toBitVec ^^^ (crc32c (p ++ b)).toBitVec =
      (Crc.shift castagnoli)^[8 * a.length] (Crc.word 32 a ^^^ Crc.word 32 b) := by
  have hnot : ∀ x y : BitVec 32, ~~~x ^^^ ~~~y = x ^^^ y := by
    intro x y
    rw [← BitVec.not_xor_left, ← BitVec.not_xor_right, BitVec.not_not]
  rw [← Crc.update_xor (Crc.update castagnoli (BitVec.allOnes 32) p) hlen (by omega), ← Crc.update_append,
    ← Crc.update_append, crc32c_toBitVec, crc32c_toBitVec]
  exact hnot _ _

/-- **Up to four bytes in a row of a body show in its checksum.** -/
theorem crc32c_ne {p m m' q : List UInt8} (hlen : m'.length = m.length) (h : m.length ≤ 4) (hne : m' ≠ m) :
    crc32c (p ++ (m' ++ q)) ≠ crc32c (p ++ (m ++ q)) := by
  intro he
  have hu := crc32c_inj he
  rw [Crc.update_append, Crc.update_append, Crc.update_append, Crc.update_append] at hu
  exact hne (Crc.update_inj castagnoli_msb hlen (by omega) (Crc.update_state_inj castagnoli_msb q hu))

theorem not_passes_body {p m m' q tr : List UInt8} (hlen : m'.length = m.length) (h : m.length ≤ 4) (hne : m' ≠ m)
    (ht : Passes (p ++ (m ++ q)) tr) : ¬ Passes (p ++ (m' ++ q)) tr :=
  fun ht' => crc32c_ne hlen h hne (UInt32.toNat_inj.1 (ht'.trans ht.symm))

theorem not_passes_trailer {body tr tr' : List UInt8} (hlen : tr'.length = tr.length) (hne : tr' ≠ tr)
    (ht : Passes body tr) : ¬ Passes body tr' :=
  fun ht' => hne (beNat_inj hlen (ht'.symm.trans ht))

/-! ## Across the trailer's start -/

/-- One byte leaves something in the low half of the register. -/
theorem shift_one_byte :
    ∀ e : Fin 256, e ≠ 0 → ((Crc.shift castagnoli)^[8] (BitVec.ofNat 32 e)).toNat % 256 ^ 2 ≠ 0 := by
  decide +kernel

/-- What only the highest byte is left of was more than two bytes. -/
theorem unshift_high_byte : ∀ y : Fin 256, y ≠ 0 →
    256 ^ 2 ≤ ((Crc.unshift castagnoli)^[16] (BitVec.ofNat 32 (y * 256 ^ 3))).toNat := by
  decide +kernel

/-- **Up to three bytes leave something in one byte more**, counted from the register's low end. -/
theorem shifts_low {j : Nat} (hj : j ≤ 3) {x : BitVec 32} (hx : x ≠ 0#32) (hlt : x.toNat < 256 ^ j) :
    ((Crc.shift castagnoli)^[8 * j] x).toNat % 256 ^ (j + 1) ≠ 0 := by
  have hpos : x.toNat ≠ 0 := fun h => hx (BitVec.eq_of_toNat_eq h)
  have hleft : (Crc.shift castagnoli)^[8 * j] x ≠ 0#32 := fun h => hx (Crc.shifts_eq_zero castagnoli_msb h)
  obtain rfl | rfl | rfl | rfl : j = 0 ∨ j = 1 ∨ j = 2 ∨ j = 3 := by omega
  · omega
  · have h := shift_one_byte ⟨x.toNat, hlt⟩ (fun h => hpos (congrArg Fin.val h))
    rwa [BitVec.ofNat_toNat, BitVec.setWidth_eq] at h
  · -- What is left would be one byte at the top; shifted back it is more than there was.
    have hback := Crc.unshifts_shifts castagnoli_msb (8 * 2) x
    intro hmod
    generalize (Crc.shift castagnoli)^[8 * 2] x = t at hmod hback hleft
    have hdiv : t.toNat / 256 ^ 3 * 256 ^ 3 = t.toNat := Nat.div_mul_cancel (Nat.dvd_of_mod_eq_zero hmod)
    have hy : t.toNat / 256 ^ 3 < 256 := by have := t.isLt; omega
    have hne : t.toNat / 256 ^ 3 ≠ 0 := by
      intro h0
      rw [h0, Nat.zero_mul] at hdiv
      exact hleft (BitVec.eq_of_toNat_eq hdiv.symm)
    have h := unshift_high_byte ⟨t.toNat / 256 ^ 3, hy⟩ (fun h => hne (congrArg Fin.val h))
    rw [hdiv, BitVec.ofNat_toNat, BitVec.setWidth_eq, hback] at h
    omega
  · have hall : ((Crc.shift castagnoli)^[8 * 3] x).toNat < 256 ^ 4 := BitVec.isLt _
    rw [Nat.mod_eq_of_lt hall]
    exact fun h => hleft (BitVec.eq_of_toNat_eq h)

theorem pow_256 (k : Nat) : 256 ^ k = 2 ^ (8 * k) := by rw [Nat.pow_mul]

/-- Two words are the same modulo `256 ^ k` if they differ in nothing below. -/
theorem xor_mod_iff {x y : BitVec 32} {k : Nat} :
    (x ^^^ y).toNat % 256 ^ k = 0 ↔ x.toNat % 256 ^ k = y.toNat % 256 ^ k := by
  rw [pow_256, BitVec.toNat_xor, Nat.xor_mod_two_pow]
  constructor
  · intro h
    rw [← Nat.xor_zero (x.toNat % _), ← h, ← Nat.xor_assoc, Nat.xor_self, Nat.zero_xor]
  · intro h
    rw [h, Nat.xor_self]

theorem word_lt {a b : List UInt8} (hlen : a.length = b.length) :
    (Crc.word 32 a ^^^ Crc.word 32 b).toNat < 256 ^ a.length := by
  rw [pow_256]
  apply Nat.lt_pow_two_of_testBit
  intro i hi
  rw [BitVec.testBit_toNat, BitVec.getLsbD_xor, Crc.word_high a i hi, Crc.word_high b i (hlen ▸ hi), Bool.xor_self]

theorem not_passes_across {p a a' d d' q : List UInt8} (ha : a'.length = a.length) (hd : d'.length = d.length)
    (hq : d.length + q.length = 4) (h : a.length + d.length ≤ 3) (hne : a' ++ d' ≠ a ++ d)
    (ht : Passes (p ++ a) (d ++ q)) : ¬ Passes (p ++ a') (d' ++ q) := by
  by_cases hae : a' = a
  · rw [hae] at hne ⊢
    exact not_passes_trailer (by simp [hd]) (fun he => hne (by rw [(List.append_inj he hd).1])) ht
  · intro ht'
    -- Both checksums end in the bytes that were not changed.
    have hmod : (crc32c (p ++ a')).toBitVec.toNat % 256 ^ q.length = (crc32c (p ++ a)).toBitVec.toNat % 256 ^
        q.length := by
      change (crc32c (p ++ a')).toNat % _ = (crc32c (p ++ a)).toNat % _
      rw [ht, ht', beNat_append, beNat_append, Nat.mul_add_mod_self_right, Nat.mul_add_mod_self_right]
    have hlow := xor_mod_iff.2 hmod
    rw [crc32c_xor p ha (by omega)] at hlow
    have hx : Crc.word 32 a' ^^^ Crc.word 32 a ≠ 0#32 := by
      intro h0
      exact hae (Crc.word_inj ha (by omega) (BitVec.xor_eq_zero_iff.1 h0))
    refine shifts_low (by omega) hx (word_lt ha) ?_
    have hdvd : 256 ^ (a'.length + 1) ∣ 256 ^ q.length := Nat.pow_dvd_pow 256 (by omega)
    exact Nat.mod_eq_zero_of_dvd (hdvd.trans (Nat.dvd_of_mod_eq_zero hlow))

/-! ## An odd number of bits -/

theorem oddBits_beNat : ∀ l : List UInt8, Crc.oddBits (beNat l).testBit (8 * l.length) = Crc.parities l
  | []      => rfl
  | b :: bs => by
    have hlt : beNat bs < 2 ^ (8 * bs.length) := by
      rw [← pow_256]
      exact Bytes.beNat_lt bs
    have hbits : ∀ i, (beNat (b :: bs)).testBit i =
        if i < 8 * bs.length then (beNat bs).testBit i else b.toNat.testBit (i - 8 * bs.length) := by
      intro i
      rw [beNat, pow_256, Nat.mul_comm, Nat.testBit_two_pow_mul_add _ hlt]
    have hlow : ∀ i, i < 8 * bs.length → (beNat (b :: bs)).testBit i = (beNat bs).testBit i := by
      intro i hi
      rw [hbits, if_pos hi]
    have hhigh : ∀ i, i < 8 → (beNat (b :: bs)).testBit (8 * bs.length + i) = b.toBitVec.getLsbD i := by
      intro i _
      rw [hbits, if_neg (by omega), Nat.add_sub_cancel_left]
      rfl
    rw [List.length_cons, Nat.mul_succ, Crc.oddBits_add, Crc.oddBits_congr hlow, oddBits_beNat bs,
      Crc.oddBits_congr hhigh, Crc.parities, Bool.xor_comm, Crc.parity]

/-- **A body and a trailer that fits it have an even number of bits.** -/
theorem passes_parity {body tr : List UInt8} (hlen : tr.length = 4) (h : Passes body tr) :
    Crc.parities (body ++ tr) = false := by
  have hnot : ∀ x : BitVec 32, Crc.parity (~~~x) = Crc.parity x := by
    intro x
    have hones : Crc.parity (BitVec.allOnes 32) = false := by decide
    rw [← BitVec.xor_allOnes, Crc.parity_xor, hones, Bool.xor_false]
  have hcrc : Crc.parity (crc32c body).toBitVec = Crc.parities body := by
    have hup := Crc.parity_update castagnoli_parity (by decide) body (BitVec.allOnes 32)
    rw [show Crc.parity (BitVec.allOnes 32) = false from by decide, Bool.false_xor] at hup
    rw [crc32c_toBitVec, hnot]
    exact hup
  have htr : Crc.parity (crc32c body).toBitVec = Crc.parities tr := by
    rw [← oddBits_beNat tr, hlen, ← h]
    rfl
  rw [Crc.parities_append, ← hcrc, ← htr, Bool.xor_self]

/-! ## Damaged frames -/

/-- `b` is `a` with at most `n` bytes in a row changed. -/
def Burst (n : Nat) (a b : List UInt8) : Prop :=
  ∃ p m m' q, a = p ++ (m ++ q) ∧ b = p ++ (m' ++ q) ∧ m'.length = m.length ∧ m.length ≤ n ∧ m' ≠ m

/-- What the trailer is about. -/
def Frame.body (f : Frame) : List UInt8 := f.header ++ f.payload

def Frame.trailer (f : Frame) : List UInt8 := beBytes 4 (crc32c f.body).toNat

/-- The bytes `b` are those of the frame, changed. -/
inductive Damage (f : Frame) (b : List UInt8) : Prop
  /-- Three bytes in a row anywhere. -/
  | burst   : Burst 3 (f.encode crc32c) b → Damage f b
  /-- Four in a row before the trailer. -/
  | body    : (∃ c, Burst 4 f.body c ∧ b = c ++ f.trailer) → Damage f b
  /-- Any change of the trailer. -/
  | trailer : (∃ t, t.length = 4 ∧ t ≠ f.trailer ∧ b = f.body ++ t) → Damage f b
  /-- Any odd number of bits. -/
  | bits    : b.length = (f.encode crc32c).length → Crc.flips b (f.encode crc32c) % 2 = 1 → Damage f b

section
variable {f : Frame} {b : List UInt8}

theorem Frame.encode_eq (f : Frame) : f.encode crc32c = f.body ++ f.trailer := by
  unfold Frame.encode Frame.trailer Frame.body
  rw [List.append_assoc]

theorem Frame.length_body (f : Frame) : f.body.length = headerLen + f.payload.length := by
  unfold Frame.body
  rw [List.length_append, f.length_header]

@[simp] theorem Frame.length_trailer (f : Frame) : f.trailer.length = 4 := Bytes.length_beBytes _ _

theorem Frame.passes (f : Frame) : Passes f.body f.trailer := passes_encode f.body

theorem Frame.length_field (f : Frame) (rest : List UInt8) :
    slice (f.header ++ rest) 18 4 = beBytes 4 f.payload.length := by
  have hsplit : f.header ++ rest = ([f.typ, f.flags] ++ beBytes 8 f.seq.toNat ++ beBytes 8 f.dataOff.toNat) ++
      (beBytes 4 f.payload.length ++ rest) := by simp [Frame.header]
  rw [hsplit]
  exact Bytes.slice_middle (by simp) (Bytes.length_beBytes _ _)

/-- **A damaged frame is a body and a trailer that does not fit it.** -/
theorem Damage.not_passes (h : Damage f b) :
    ∃ body tr, b = body ++ tr ∧ body.length = f.body.length ∧ tr.length = 4 ∧ ¬ Passes body tr := by
  cases h with
  | burst h =>
    obtain ⟨p, m, m', q, ha, rfl, hlen, hle, hne⟩ := h
    rw [f.encode_eq] at ha
    have hpass := f.passes
    have htr := f.length_trailer
    rcases List.append_eq_append_iff.1 ha with ⟨c, hp, htrail⟩ | ⟨c, hbody, hrest⟩
    · -- The changed bytes are in the trailer.
      refine ⟨f.body, c ++ (m' ++ q), by rw [hp, List.append_assoc], rfl, ?_, ?_⟩
      · rw [← htr, htrail]
        simp [hlen]
      · rw [htrail] at hpass
        refine not_passes_trailer (by simp [hlen]) (fun he => hne ?_) hpass
        exact List.append_cancel_right (List.append_cancel_left he)
    · rcases List.append_eq_append_iff.1 hrest with ⟨d, hc, hq⟩ | ⟨d, hm, htrail⟩
      · -- They are before it.
        rw [hbody, hc] at hpass ⊢
        refine ⟨p ++ (m' ++ d), f.trailer, by rw [hq]; simp, by simp [hlen], htr, ?_⟩
        exact not_passes_body hlen (by omega) hne hpass
      · -- They are on both sides of its start.
        rw [hbody, htrail] at hpass
        rw [hm, List.length_append] at hlen hle
        refine ⟨p ++ m'.take c.length, m'.drop c.length ++ q, ?_, ?_, ?_, ?_⟩
        · rw [List.append_assoc, ← List.append_assoc (m'.take _), List.take_append_drop]
        · rw [hbody, List.length_append, List.length_append, List.length_take]
          omega
        · rw [← htr, htrail, List.length_append, List.length_append, List.length_drop]
          omega
        · refine not_passes_across ?_ ?_ ?_ hle ?_ hpass
          · rw [List.length_take]; omega
          · rw [List.length_drop]; omega
          · rw [← htr, htrail, List.length_append]
          · rw [List.take_append_drop, ← hm]; exact hne
  | body h =>
    obtain ⟨c, ⟨p, m, m', q, hbody, rfl, hlen, hle, hne⟩, rfl⟩ := h
    have hpass := f.passes
    rw [hbody] at hpass
    refine ⟨_, _, rfl, ?_, f.length_trailer, not_passes_body hlen hle hne hpass⟩
    rw [hbody]
    simp [hlen]
  | trailer h =>
    obtain ⟨t, hlen, hne, rfl⟩ := h
    exact ⟨f.body, t, rfl, rfl, hlen, not_passes_trailer (hlen.trans f.length_trailer.symm) hne f.passes⟩
  | bits hlen hodd =>
    have hsplit : b = b.take f.body.length ++ b.drop f.body.length := (List.take_append_drop _ _).symm
    rw [f.encode_eq, List.length_append, f.length_trailer] at hlen
    have htr : (b.drop f.body.length).length = 4 := by
      rw [List.length_drop]
      omega
    refine ⟨_, _, hsplit, ?_, htr, ?_⟩
    · rw [List.length_take]
      omega
    · intro hpass
      have heven := passes_parity htr hpass
      have hall : b.length = (f.encode crc32c).length := by rw [f.encode_eq]; simpa using hlen
      have hflips := Crc.flips_odd hall
      rw [← hsplit] at heven
      rw [heven, f.encode_eq, passes_parity f.length_trailer f.passes, decide_eq_true (f.encode_eq ▸ hodd)] at hflips
      cases hflips

/-- A frame's length field and a trailer that does not fit. -/
theorem decodeFrame_of_not_passes {body tr : List UInt8} (rest : List UInt8) (hf : f.payload.length ≤ maxPayload)
    (hbody : body.length = f.body.length) (htr : tr.length = 4)
    (hfield : slice (body ++ tr) 18 4 = beBytes 4 f.payload.length) (h : ¬ Passes body tr) :
    decodeFrame crc32c ((body ++ tr) ++ rest) = .error .corrupt := by
  rw [f.length_body] at hbody
  have hlt : f.payload.length < 256 ^ 4 := lt_of_le_of_lt hf (by decide)
  have hlen : ((body ++ tr) ++ rest).length = headerLen + f.payload.length + crcLen + rest.length := by
    simp [hbody, htr, crcLen, Nat.add_assoc]
  have hl : beNat (slice ((body ++ tr) ++ rest) 18 4) = f.payload.length := by
    rw [Bytes.slice_append rest (by simp [hbody, htr, headerLen]; omega), hfield, Bytes.beNat_beBytes_of_lt hlt]
  have hhead : slice ((body ++ tr) ++ rest) 0 headerLen ++ slice ((body ++ tr) ++ rest) headerLen f.payload.length =
      body := by
    have hadd := Bytes.slice_add ((body ++ tr) ++ rest) 0 headerLen f.payload.length
    rw [Nat.zero_add] at hadd
    rw [← hadd, List.append_assoc]
    exact Bytes.slice_middle (a := []) rfl hbody
  have hwant : slice ((body ++ tr) ++ rest) (headerLen + f.payload.length) crcLen = tr := by
    rw [List.append_assoc]
    exact Bytes.slice_middle hbody htr
  unfold decodeFrame
  dsimp only
  rw [if_neg (by omega), hl, if_neg (by omega), if_neg (by omega), hhead, hwant]
  exact if_pos h

end

theorem decodeAll_encodes_append (rest : List UInt8) : ∀ fs : List Frame, (∀ f ∈ fs, f.payload.length ≤ maxPayload) →
    decodeAll crc32c (encodes crc32c fs ++ rest) =
      (fs.map (fun f => (f, (f.encode crc32c).length)) ++ (decodeAll crc32c rest).1, (decodeAll crc32c rest).2)
  | [], _      => rfl
  | f :: fs, h => by
    have ih := decodeAll_encodes_append rest fs (fun f' hf' => h f' (List.mem_cons_of_mem _ hf'))
    have hcons : encodes crc32c (f :: fs) ++ rest = f.encode crc32c ++ (encodes crc32c fs ++ rest) := by
      rw [← List.singleton_append, encodes_append, encodes_singleton, List.append_assoc]
    rw [hcons, decodeAll_encode f _ (h f List.mem_cons_self), ih]
    rfl

/-- **A damaged frame is found**: after the frames before it, which are whole, comes the error and no frame made of its
bytes, whatever follows. -/
theorem damage_detected (fs : List Frame) (f : Frame) (b rest : List UInt8)
    (hfs : ∀ g ∈ fs, g.payload.length ≤ maxPayload) (hf : f.payload.length ≤ maxPayload) (hd : Damage f b)
    (hfield : slice b 18 4 = beBytes 4 f.payload.length) :
    decodeAll crc32c (encodes crc32c fs ++ (b ++ rest)) =
      (fs.map (fun g => (g, (g.encode crc32c).length)), .corrupt) := by
  obtain ⟨body, tr, rfl, hbody, htr, hnot⟩ := hd.not_passes
  have herr := decodeAll_of_error (decodeFrame_of_not_passes rest hf hbody htr hfield hnot)
  rw [decodeAll_encodes_append _ fs hfs, herr, List.append_nil]

/-- A heartbeat, and a frame whose payload has one bit changed. -/
theorem damage_detected_bit :
    decodeAll crc32c (encodes crc32c [⟨frameHeartbeat, 0, 1, 0, []⟩] ++
        ((⟨frameDATA, 0, 2, 0, [6]⟩ : Frame).body ++ Frame.trailer ⟨frameDATA, 0, 2, 0, [7]⟩ ++ [])) =
      ([(⟨frameHeartbeat, 0, 1, 0, []⟩, 26)], .corrupt) :=
  damage_detected [⟨frameHeartbeat, 0, 1, 0, []⟩] ⟨frameDATA, 0, 2, 0, [7]⟩ _ [] (by decide) (by decide)
    (.body ⟨_, ⟨Frame.header ⟨frameDATA, 0, 2, 0, [7]⟩, [7], [6], [], rfl, rfl, rfl, by decide, by decide⟩, rfl⟩)
    (by decide +kernel)

/-! ## Four bytes across the trailer's start -/

/-- A change of a body's last byte that leaves the low byte of the checksum alone. -/
theorem crc32c_low_byte (p : List UInt8) (x : UInt8) :
    (crc32c (p ++ [x ^^^ 0x5d])).toNat % 256 = (crc32c (p ++ [x])).toNat % 256 := by
  have hword : Crc.word 32 [x ^^^ 0x5d] ^^^ Crc.word 32 [x] = 0x5d#32 := by
    simp only [Crc.word, UInt8.toBitVec_xor, BitVec.setWidth_xor, BitVec.zero_shiftLeft, BitVec.xor_zero]
    rw [BitVec.xor_comm (x.toBitVec.setWidth 32), BitVec.xor_assoc, BitVec.xor_self, BitVec.xor_zero]
    rfl
  have hxor := crc32c_xor p (a := [x ^^^ 0x5d]) (b := [x]) rfl (Nat.le_of_ble_eq_true rfl)
  have hlow : ((Crc.shift castagnoli)^[8] 0x5d#32).toNat % 256 ^ 1 = 0 := by decide +kernel
  rw [hword] at hxor
  exact xor_mod_iff.1 ((congrArg (fun t : BitVec 32 => t.toNat % 256 ^ 1) hxor).trans hlow)

/-- The four bytes of a word, its low byte apart. -/
theorem beBytes_low_byte (n : Nat) :
    beBytes 4 n = [UInt8.ofNat (n / 256 ^ 3), UInt8.ofNat (n / 256 ^ 2), UInt8.ofNat (n / 256)] ++
      [UInt8.ofNat (n % 256)] := by
  have hlow : UInt8.ofNat (n % 256) = UInt8.ofNat n := by
    rw [← UInt8.toNat_inj, UInt8.toNat_ofNat', UInt8.toNat_ofNat', Nat.mod_mod]
  rw [hlow]
  simp [beBytes]

theorem xor_ne_self (x : UInt8) {y : UInt8} (hy : y ≠ 0) : x ^^^ y ≠ x := by
  intro h
  have hz : x ^^^ (x ^^^ y) = 0 := by rw [h, UInt8.xor_self]
  rw [← UInt8.xor_assoc, UInt8.xor_self, UInt8.zero_xor] at hz
  exact hy hz

/-- The frame with `x` for the last byte of its payload. -/
def Frame.lastByte (f : Frame) (xs : List UInt8) (x : UInt8) : Frame := { f with payload := xs ++ [x] }

theorem Frame.lastByte_body (f : Frame) (xs : List UInt8) (x y : UInt8) :
    (f.lastByte xs y).body = ((f.lastByte xs x).header ++ xs) ++ [y] := by
  have hhead : (f.lastByte xs y).header = (f.lastByte xs x).header := by
    simp [Frame.header, Frame.lastByte]
  rw [Frame.body, hhead, List.append_assoc]
  rfl

/-- **Two frames that are the same up to the last byte of the payload, and from the last byte of the trailer on.** -/
theorem Frame.lastByte_encode (f : Frame) (xs : List UInt8) (x : UInt8) :
    ∃ h m m' low, (f.lastByte xs x).encode crc32c = h ++ (m ++ [low]) ∧
      (f.lastByte xs (x ^^^ 0x5d)).encode crc32c = h ++ (m' ++ [low]) ∧ (f.lastByte xs x).body.length = h.length + 1 ∧
      m.length = 4 ∧ m'.length = 4 ∧ m' ≠ m := by
  refine ⟨(f.lastByte xs x).header ++ xs, ?_⟩
  rw [Frame.encode_eq, Frame.encode_eq, Frame.trailer, Frame.trailer, beBytes_low_byte, beBytes_low_byte,
    f.lastByte_body xs x x, f.lastByte_body xs x (x ^^^ 0x5d), crc32c_low_byte, List.append_assoc _ [x],
    List.append_assoc _ [x ^^^ 0x5d], ← List.append_assoc [x], ← List.append_assoc [x ^^^ 0x5d]]
  exact ⟨_, _, _, rfl, rfl, List.length_append, rfl, rfl,
    fun h => xor_ne_self x (by decide) (List.cons.inj h).1⟩

/-- **Four changed bytes in a row can pass**: of every frame with a payload there is such a change across the trailer's
start, of the payload's last byte and the trailer's first three, and what it decodes to is another frame. -/
theorem burst_bound_sharp (f : Frame) (hf : f.payload.length ≤ maxPayload) (hne : f.payload ≠ []) :
    ∃ g b, g ≠ f ∧ Burst 4 (f.encode crc32c) b ∧
      b.take (f.body.length - 1) = (f.encode crc32c).take (f.body.length - 1) ∧
      b.drop (f.body.length + 3) = (f.encode crc32c).drop (f.body.length + 3) ∧
      slice b 18 4 = beBytes 4 f.payload.length ∧ decodeFrame crc32c b = .ok (g, b.length) := by
  obtain ⟨xs, x, hpay⟩ : ∃ xs x, f.payload = xs ++ [x] := ⟨_, _, (List.dropLast_append_getLast hne).symm⟩
  have hself : f.lastByte xs x = f := by
    rw [Frame.lastByte, ← hpay]
  obtain ⟨h, m, m', low, hf', hg', hlast, hm, hm', hmm⟩ := f.lastByte_encode xs x
  rw [hself] at hf' hlast
  have hlen : (f.lastByte xs (x ^^^ 0x5d)).payload.length = f.payload.length := by
    rw [hpay]
    simp [Frame.lastByte]
  have hdrop : ∀ l : List UInt8, l.length = 4 → (h ++ (l ++ [low])).drop (f.body.length + 3) = [low] := by
    intro l hl
    rw [← List.append_assoc]
    exact List.drop_left' (by rw [List.length_append, hl, hlast])
  refine ⟨f.lastByte xs (x ^^^ 0x5d), _, ?_, ?_, ?_, ?_, ?_, decodeFrame_self _ (hlen.trans_le hf)⟩
  · intro he
    have hp := congrArg Frame.payload he
    rw [hpay] at hp
    exact xor_ne_self x (by decide) (List.singleton_inj.1 (List.append_cancel_left hp))
  · exact ⟨_, m, m', [low], hf', hg', hm'.trans hm.symm, hm.le, hmm⟩
  · rw [hf', hg', hlast, Nat.add_sub_cancel, List.take_left, List.take_left]
  · rw [hf', hg', hdrop m hm, hdrop m' hm']
  · rw [← hlen]
    exact Frame.length_field _ _

theorem burst_bound_sharp_byte : ∃ g b, g ≠ ⟨frameDATA, 0, 2, 0, [7]⟩ ∧
    Burst 4 (Frame.encode crc32c ⟨frameDATA, 0, 2, 0, [7]⟩) b ∧
      b.take 22 = (Frame.encode crc32c ⟨frameDATA, 0, 2, 0, [7]⟩).take 22 ∧
      b.drop 26 = (Frame.encode crc32c ⟨frameDATA, 0, 2, 0, [7]⟩).drop 26 ∧
      slice b 18 4 = beBytes 4 1 ∧ decodeFrame crc32c b = .ok (g, b.length) :=
  burst_bound_sharp ⟨frameDATA, 0, 2, 0, [7]⟩ (by decide) (by decide)

end Fstun
end Ccb
