import Mathlib.Algebra.Group.Basic
import Mathlib.Algebra.Order.Ring.Nat
/-!
# Bytes — big-endian words

`beBytes w n` is the `w` big-endian bytes of `n`, higher bits dropped; `beNat` reads bytes back, and `slice l i n` is
the `n` bytes of `l` from `i` on.
-/
namespace Ccb
namespace Bytes

def beBytes : Nat → Nat → List UInt8
  | 0, _     => []
  | w + 1, n => UInt8.ofNat (n / 256 ^ w) :: beBytes w n

def beNat : List UInt8 → Nat
  | []      => 0
  | b :: bs => b.toNat * 256 ^ bs.length + beNat bs

@[simp] theorem length_beBytes : ∀ w n, (beBytes w n).length = w
  | 0, _     => rfl
  | w + 1, n => by rw [beBytes, List.length_cons, length_beBytes w n]

theorem beNat_beBytes : ∀ w n, beNat (beBytes w n) = n % 256 ^ w
  | 0, n     => by rw [beBytes, beNat, pow_zero, Nat.mod_one]
  | w + 1, n => by
    rw [beBytes, beNat, length_beBytes, beNat_beBytes w n, UInt8.toNat_ofNat', pow_succ 256 w, Nat.mod_mul,
      Nat.mul_comm, Nat.add_comm]

/-- **A word below `256 ^ w` survives its `w` bytes.** -/
theorem beNat_beBytes_of_lt {w n : Nat} (h : n < 256 ^ w) : beNat (beBytes w n) = n := by
  rw [beNat_beBytes, Nat.mod_eq_of_lt h]

theorem beBytes_add_mul : ∀ w k n, beBytes w (k * 256 ^ w + n) = beBytes w n
  | 0, _, _     => rfl
  | w + 1, k, n => by
    have hk : k * 256 ^ (w + 1) = k * 256 * 256 ^ w := by rw [pow_succ, Nat.mul_comm (256 ^ w), Nat.mul_assoc]
    have hpos : 0 < 256 ^ w := Nat.pow_pos (by decide)
    have hhead : UInt8.ofNat (k * 256 + n / 256 ^ w) = UInt8.ofNat (n / 256 ^ w) := by
      rw [← UInt8.toNat_inj, UInt8.toNat_ofNat', UInt8.toNat_ofNat', Nat.mul_add_mod_self_right]
    rw [beBytes, beBytes, hk, beBytes_add_mul w (k * 256) n, Nat.mul_comm, Nat.mul_add_div hpos, hhead]

theorem beNat_lt : ∀ b : List UInt8, beNat b < 256 ^ b.length
  | []      => Nat.one_pos
  | x :: bs => by
    have hx : x.toNat + 1 ≤ 256 := x.toNat_lt
    calc beNat (x :: bs) = x.toNat * 256 ^ bs.length + beNat bs := rfl
      _ < x.toNat * 256 ^ bs.length + 256 ^ bs.length := Nat.add_lt_add_left (beNat_lt bs) _
      _ = (x.toNat + 1) * 256 ^ bs.length := by rw [Nat.succ_mul]
      _ ≤ 256 * 256 ^ bs.length := Nat.mul_le_mul_right _ hx
      _ = 256 ^ (x :: bs).length := by rw [List.length_cons, pow_succ, Nat.mul_comm]

/-- **Bytes survive their number.** -/
theorem beBytes_beNat : ∀ b : List UInt8, beBytes b.length (beNat b) = b
  | []      => rfl
  | x :: bs => by
    have hpos : 0 < 256 ^ bs.length := Nat.pow_pos (by decide)
    have hdiv : (x.toNat * 256 ^ bs.length + beNat bs) / 256 ^ bs.length = x.toNat := by
      rw [Nat.mul_comm, Nat.mul_add_div hpos, Nat.div_eq_of_lt (beNat_lt bs), Nat.add_zero]
    rw [List.length_cons, beBytes, beNat, beBytes_add_mul, beBytes_beNat bs, hdiv, UInt8.ofNat_toNat]

theorem beBytes_beNat_of_length {w : Nat} {b : List UInt8} (h : b.length = w) : beBytes w (beNat b) = b := by
  subst h
  exact beBytes_beNat b

theorem beNat_lt_of_length {w : Nat} {b : List UInt8} (h : b.length = w) : beNat b < 256 ^ w := by
  subst h
  exact beNat_lt b

def slice {α : Type} (l : List α) (i n : Nat) : List α := (l.drop i).take n

/-- **A slice inside a list is the same in a longer one.** -/
theorem slice_append {α : Type} {l : List α} (ext : List α) {i n : Nat} (h : i + n ≤ l.length) :
    slice (l ++ ext) i n = slice l i n := by
  unfold slice
  have hi : i ≤ l.length := by omega
  have hn : n ≤ (l.drop i).length := by rw [List.length_drop]; omega
  rw [List.drop_append_of_le_length hi, List.take_append_of_le_length hn]

/-- The slice that starts where `a` ends. -/
theorem slice_middle {α : Type} {a b c : List α} {i n : Nat} (hi : a.length = i) (hn : b.length = n) :
    slice (a ++ (b ++ c)) i n = b := by
  unfold slice
  rw [List.drop_left' hi, List.take_left' hn]

theorem length_slice {α : Type} {l : List α} {i n : Nat} (h : i + n ≤ l.length) : (slice l i n).length = n := by
  unfold slice
  rw [List.length_take, List.length_drop]
  omega

/-- A slice in two pieces. -/
theorem slice_add {α : Type} (l : List α) (i n m : Nat) : slice l i (n + m) = slice l i n ++ slice l (i + n) m := by
  unfold slice
  rw [List.take_add, List.drop_drop]

end Bytes
end Ccb
