import Mathlib.Logic.Function.Iterate
import Mathlib.Data.List.Basic
import Mathlib.Order.Basic
/-!
# Crc — cyclic redundancy checks, low bit first

A register of `w` bits over a polynomial.  A shift of the register is linear in exclusive or (`shift_xor`) and, where
the polynomial has its highest bit, injective; so what two runs over different bytes leave differs by shifts of how the
bytes differ (`update_xor`), and bytes that fit into the register together can be told apart by what they leave
(`update_inj`). Where the polynomial has an odd number of bits, a shift keeps the parity (`parity_update`).
-/
namespace Ccb
namespace Crc

variable {w : Nat} {poly : BitVec w}

def shift (poly s : BitVec w) : BitVec w := if s.getLsbD 0 then (s >>> 1) ^^^ poly else s >>> 1

/-- One byte into the register. -/
def byte (poly s : BitVec w) (b : UInt8) : BitVec w := (shift poly)^[8] (s ^^^ b.toBitVec.setWidth w)

def update (poly s : BitVec w) (bs : List UInt8) : BitVec w := bs.foldl (byte poly) s

@[simp] theorem update_nil (s : BitVec w) : update poly s [] = s := rfl

@[simp] theorem update_cons (s : BitVec w) (b : UInt8) (bs : List UInt8) :
    update poly s (b :: bs) = update poly (byte poly s b) bs := rfl

theorem update_append (s : BitVec w) (as bs : List UInt8) :
    update poly s (as ++ bs) = update poly (update poly s as) bs := List.foldl_append

/-! ## Shifts -/

/-- **A shift is linear.** -/
theorem shift_xor (s t : BitVec w) : shift poly (s ^^^ t) = shift poly s ^^^ shift poly t := by
  unfold shift
  rw [BitVec.getLsbD_xor, BitVec.ushiftRight_xor_distrib]
  cases s.getLsbD 0 <;> cases t.getLsbD 0
  · simp
  · simp [BitVec.xor_assoc]
  · simp [BitVec.xor_assoc, BitVec.xor_comm poly]
  · have hcancel : s >>> 1 ^^^ poly ^^^ (t >>> 1 ^^^ poly) = s >>> 1 ^^^ t >>> 1 := by
      rw [BitVec.xor_comm (t >>> 1) poly, BitVec.xor_assoc, ← BitVec.xor_assoc poly poly, BitVec.xor_self,
        BitVec.zero_xor]
    simp [hcancel]

theorem shifts_xor (n : Nat) (s t : BitVec w) :
    (shift poly)^[n] (s ^^^ t) = (shift poly)^[n] s ^^^ (shift poly)^[n] t := by
  induction n generalizing s t with
  | zero => rfl
  | succ n ih => rw [Function.iterate_succ_apply, Function.iterate_succ_apply, Function.iterate_succ_apply, shift_xor,
      ih]

/-- A register whose low bits are clear only moves down. -/
theorem shifts_of_clear (s : BitVec w) : ∀ n, (∀ i, i < n → s.getLsbD i = false) → (shift poly)^[n] s = s >>> n
  | 0, _     => by simp
  | n + 1, h => by
    have hlow : (s >>> n).getLsbD 0 = false := by simpa using h n (Nat.lt_succ_self n)
    rw [Function.iterate_succ_apply', shifts_of_clear s n (fun i hi => h i (Nat.lt_succ_of_lt hi)), shift, hlow]
    simp [BitVec.shiftRight_add]

/-- The shift back: the highest bit says whether the polynomial was added. -/
def unshift (poly t : BitVec w) : BitVec w := if t.msb then (t ^^^ poly) <<< 1 ||| 1#w else t <<< 1

theorem unshift_shift (hp : poly.msb = true) (s : BitVec w) : unshift poly (shift poly s) = s := by
  have hdown : (s >>> 1).msb = false := by simp [BitVec.msb_ushiftRight]
  unfold unshift shift
  by_cases hlow : s.getLsbD 0 = true
  · rw [if_pos hlow, BitVec.msb_xor, hdown, hp, BitVec.xor_assoc, BitVec.xor_self, BitVec.xor_zero]
    apply BitVec.eq_of_getLsbD_eq
    intro i hi
    cases i with
    | zero => simp [hlow, hi]
    | succ i => simp [hi, Nat.add_comm]
  · rw [if_neg hlow, hdown]
    apply BitVec.eq_of_getLsbD_eq
    intro i hi
    cases i with
    | zero => simpa using hlow
    | succ i => simp [hi, Nat.add_comm]

/-- **Shifts lose nothing.** -/
theorem unshifts_shifts (hp : poly.msb = true) (n : Nat) (s : BitVec w) :
    (unshift poly)^[n] ((shift poly)^[n] s) = s :=
  (Function.LeftInverse.iterate (unshift_shift hp) n) s

theorem shifts_inj (hp : poly.msb = true) {n : Nat} {s t : BitVec w} (h : (shift poly)^[n] s = (shift poly)^[n] t) :
    s = t := by
  rw [← unshifts_shifts hp n s, h, unshifts_shifts hp]

theorem shifts_eq_zero (hp : poly.msb = true) {n : Nat} {s : BitVec w} (h : (shift poly)^[n] s = 0#w) : s = 0#w := by
  have hzero : (shift poly)^[n] (0#w) = 0#w := by
    rw [shifts_of_clear _ n fun i _ => BitVec.getLsbD_zero, BitVec.zero_ushiftRight]
  exact shifts_inj hp (h.trans hzero.symm)

/-! ## Bytes -/

/-- The bytes as one word, the first lowest. -/
def word (w : Nat) : List UInt8 → BitVec w
  | []      => 0#w
  | b :: bs => b.toBitVec.setWidth w ^^^ word w bs <<< 8

theorem word_high : ∀ (bs : List UInt8) (i : Nat), 8 * bs.length ≤ i → (word w bs).getLsbD i = false
  | [], i, _      => by simp [word]
  | b :: bs, i, h => by
    rw [List.length_cons] at h
    have hb : b.toBitVec.getLsbD i = false := BitVec.getLsbD_of_ge _ _ (by omega)
    have hbs := word_high bs (i - 8) (by omega)
    simp [word, hb, hbs]

theorem word_down (bs : List UInt8) (h : 8 * bs.length + 8 ≤ w) : (shift poly)^[8] (word w bs <<< 8) = word w bs := by
  rw [shifts_of_clear]
  · apply BitVec.eq_of_getLsbD_eq
    intro i hi
    by_cases hhigh : 8 * bs.length ≤ i
    · rw [word_high bs i hhigh, BitVec.getLsbD_ushiftRight, BitVec.getLsbD_shiftLeft]
      simp [word_high bs i hhigh]
    · rw [BitVec.getLsbD_ushiftRight, BitVec.getLsbD_shiftLeft]
      have hw : 8 + i < w := by omega
      simp [hw]
  · intro i hi
    simp [BitVec.getLsbD_shiftLeft, hi]

/-- **Bytes that fit into the register are one word shifted through it.** -/
theorem update_word : ∀ (bs : List UInt8) (s : BitVec w), 8 * bs.length ≤ w →
    update poly s bs = (shift poly)^[8 * bs.length] (s ^^^ word w bs)
  | [], s, _      => by simp [word]
  | b :: bs, s, h => by
    rw [List.length_cons] at h
    rw [update_cons, update_word bs _ (by omega), List.length_cons, Nat.mul_succ, Function.iterate_add_apply, word,
      ← BitVec.xor_assoc, shifts_xor 8, word_down bs (by omega), byte]

/-- **What two runs leave differs by shifts of how the bytes differ.** -/
theorem update_xor (s : BitVec w) {as bs : List UInt8} (hlen : as.length = bs.length) (h : 8 * as.length ≤ w) :
    update poly s as ^^^ update poly s bs = (shift poly)^[8 * as.length] (word w as ^^^ word w bs) := by
  rw [update_word as s h, update_word bs s (hlen ▸ h), ← hlen, ← shifts_xor]
  congr 1
  rw [BitVec.xor_comm s, BitVec.xor_assoc, ← BitVec.xor_assoc s s, BitVec.xor_self, BitVec.zero_xor]

theorem word_inj : ∀ {as bs : List UInt8}, as.length = bs.length → 8 * as.length ≤ w → word w as = word w bs → as = bs
  | [], [], _, _, _              => rfl
  | [], _ :: _, hlen, _, _       => by simp at hlen
  | _ :: _, [], hlen, _, _       => by simp at hlen
  | a :: as, b :: bs, hlen, h, he => by
    rw [List.length_cons] at h
    have hlen' : as.length = bs.length := by simpa using hlen
    have hbit : ∀ i, (word w (a :: as)).getLsbD i = (word w (b :: bs)).getLsbD i := fun i => by rw [he]
    have hhead : a = b := by
      apply UInt8.toBitVec_inj.1
      apply BitVec.eq_of_getLsbD_eq
      intro i hi
      have hi' : i < w := by omega
      simpa [word, hi, hi'] using hbit i
    have htail : word w as = word w bs := by
      apply BitVec.eq_of_getLsbD_eq
      intro i hi
      by_cases hhigh : 8 * as.length ≤ i
      · rw [word_high as i hhigh, word_high bs i (hlen' ▸ hhigh)]
      · have hi' : i + 8 < w := by omega
        have hi8 : ¬ i + 8 < 8 := by omega
        have hb := hbit (i + 8)
        simpa [word, hi', hi8, hhead, BitVec.getLsbD_eq_getElem hi] using hb
    rw [hhead, word_inj hlen' (by omega) htail]

/-- **Bytes that fit into the register can be told apart by what they leave.** -/
theorem update_inj (hp : poly.msb = true) {s : BitVec w} {as bs : List UInt8} (hlen : as.length = bs.length)
    (h : 8 * as.length ≤ w) (he : update poly s as = update poly s bs) : as = bs := by
  rw [update_word as s h, update_word bs s (hlen ▸ h), ← hlen] at he
  exact word_inj hlen h ((BitVec.xor_right_inj s).1 (shifts_inj hp he))

/-- The register is not forgotten: whatever the bytes that follow. -/
theorem update_state_inj (hp : poly.msb = true) : ∀ (bs : List UInt8) {s t : BitVec w},
    update poly s bs = update poly t bs → s = t
  | [], _, _, h      => h
  | b :: bs, s, t, h => by
    have hb := shifts_inj hp (update_state_inj hp bs h)
    exact (BitVec.xor_left_inj _).1 hb

/-! ## Parity -/

/-- Whether an odd number of the first `n` bits is set. -/
def oddBits (f : Nat → Bool) : Nat → Bool
  | 0     => false
  | n + 1 => oddBits f n ^^ f n

theorem oddBits_xor (f g : Nat → Bool) : ∀ n, oddBits (fun i => f i ^^ g i) n = (oddBits f n ^^ oddBits g n)
  | 0     => rfl
  | n + 1 => by
    rw [oddBits, oddBits, oddBits, oddBits_xor f g n]
    cases oddBits f n <;> cases oddBits g n <;> cases f n <;> cases g n <;> rfl

theorem oddBits_congr {f g : Nat → Bool} : ∀ {n}, (∀ i, i < n → f i = g i) → oddBits f n = oddBits g n
  | 0, _     => rfl
  | n + 1, h => by rw [oddBits, oddBits, oddBits_congr fun i hi => h i (Nat.lt_succ_of_lt hi), h n (Nat.lt_succ_self n)]

theorem oddBits_add (f : Nat → Bool) (m : Nat) :
    ∀ n, oddBits f (m + n) = (oddBits f m ^^ oddBits (fun i => f (m + i)) n)
  | 0     => by simp [oddBits]
  | n + 1 => by rw [← Nat.add_assoc, oddBits, oddBits_add f m n, oddBits, Bool.xor_assoc]

theorem oddBits_clear : ∀ n, oddBits (fun _ => false) n = false
  | 0     => rfl
  | n + 1 => by rw [oddBits, oddBits_clear n, Bool.xor_false]

def parity (x : BitVec w) : Bool := oddBits x.getLsbD w

theorem parity_xor (x y : BitVec w) : parity (x ^^^ y) = (parity x ^^ parity y) := by
  unfold parity
  rw [← oddBits_xor]
  exact oddBits_congr fun i _ => BitVec.getLsbD_xor

/-- **A shift keeps the parity** where the polynomial has an odd number of bits. -/
theorem parity_shift (hp : parity poly = true) (s : BitVec w) : parity (shift poly s) = parity s := by
  have hdown : parity (s >>> 1) = (s.getLsbD 0 ^^ parity s) := by
    have hsucc := oddBits_add s.getLsbD 1 w
    rw [Nat.add_comm, oddBits, BitVec.getLsbD_of_ge s w (Nat.le_refl w), Bool.xor_false, oddBits, oddBits,
      Bool.false_xor] at hsucc
    have hbits : parity (s >>> 1) = oddBits (fun i => s.getLsbD (1 + i)) w :=
      oddBits_congr fun i _ => BitVec.getLsbD_ushiftRight ..
    rw [hbits, parity, hsucc, ← Bool.xor_assoc, Bool.xor_self, Bool.false_xor]
  unfold shift
  split
  · rename_i hlow
    rw [parity_xor, hdown, hp, hlow]
    cases parity s <;> rfl
  · rename_i hlow
    rw [hdown, Bool.eq_false_iff.2 hlow, Bool.false_xor]

theorem parity_shifts (hp : parity poly = true) (n : Nat) (s : BitVec w) : parity ((shift poly)^[n] s) = parity s := by
  induction n generalizing s with
  | zero => rfl
  | succ n ih => rw [Function.iterate_succ_apply, ih, parity_shift hp]

def parities : List UInt8 → Bool
  | []      => false
  | b :: bs => parity b.toBitVec ^^ parities bs

theorem parities_append : ∀ as bs : List UInt8, parities (as ++ bs) = (parities as ^^ parities bs)
  | [], bs      => by simp [parities]
  | a :: as, bs => by rw [List.cons_append, parities, parities_append as bs, parities, Bool.xor_assoc]

/-- **What a run leaves has the parity of what went into it.** -/
theorem parity_update (hp : parity poly = true) (hw : 8 ≤ w) : ∀ (bs : List UInt8) (s : BitVec w),
    parity (update poly s bs) = (parity s ^^ parities bs)
  | [], s      => by simp [parities]
  | b :: bs, s => by
    have hwide : parity (b.toBitVec.setWidth w) = parity b.toBitVec := by
      obtain ⟨k, rfl⟩ := Nat.exists_eq_add_of_le hw
      have hhigh : ∀ i, i < k → ((b.toBitVec.setWidth (8 + k)).getLsbD (8 + i)) = false := by
        intro i _
        rw [BitVec.getLsbD_setWidth, BitVec.getLsbD_of_ge _ _ (Nat.le_add_right 8 i), Bool.and_false]
      have hlow : ∀ i, i < 8 → (b.toBitVec.setWidth (8 + k)).getLsbD i = b.toBitVec.getLsbD i := by
        intro i hi
        rw [BitVec.getLsbD_setWidth, decide_eq_true (Nat.lt_add_right k hi), Bool.true_and]
      rw [parity, oddBits_add, oddBits_congr hhigh, oddBits_clear, Bool.xor_false, oddBits_congr hlow, parity]
    rw [update_cons, parity_update hp hw bs, byte, parity_shifts hp, parity_xor, hwide, parities, Bool.xor_assoc]

/-- The number of bits in which bytes differ. -/
def flips : List UInt8 → List UInt8 → Nat
  | a :: as, b :: bs =>
    (List.range 8).countP (fun i => a.toBitVec.getLsbD i ^^ b.toBitVec.getLsbD i) + flips as bs
  | _, _ => 0

theorem odd_add (m n : Nat) : decide ((m + n) % 2 = 1) = (decide (m % 2 = 1) ^^ decide (n % 2 = 1)) := by
  rcases Nat.mod_two_eq_zero_or_one m with hm | hm <;> rcases Nat.mod_two_eq_zero_or_one n with hn | hn <;>
    simp [Nat.add_mod, hm, hn]

theorem oddBits_countP (f : Nat → Bool) : ∀ n, oddBits f n = decide ((List.range n).countP f % 2 = 1)
  | 0     => rfl
  | n + 1 => by
    rw [oddBits, oddBits_countP f n, List.range_succ, List.countP_append, odd_add, List.countP_singleton]
    cases f n <;> rfl

/-- **An odd number of bits shows in the parity.** -/
theorem flips_odd : ∀ {as bs : List UInt8}, as.length = bs.length →
    decide (flips as bs % 2 = 1) = (parities as ^^ parities bs)
  | [], [], _              => rfl
  | [], _ :: _, hlen       => by simp at hlen
  | _ :: _, [], hlen       => by simp at hlen
  | a :: as, b :: bs, hlen => by
    have hbyte := (oddBits_countP _ 8).symm.trans (oddBits_xor a.toBitVec.getLsbD b.toBitVec.getLsbD 8)
    have ih : decide (flips as bs % 2 = 1) = (parities as ^^ parities bs) := flips_odd (by simpa using hlen)
    rw [flips, odd_add, hbyte, ih, parities, parities]
    cases parities as <;> cases parities bs <;> simp [parity]

end Crc
end Ccb
