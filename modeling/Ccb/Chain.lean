import Mathlib.Data.Finset.Card
/-!
# Chain — following the links of a partial function

`walk f k a` is the point `k` links from `a`, when there are that many.  Links that lead out of finitely many points
only either end, after at most that many, or come back to a point they have passed: `Acyclic.walk_ends` is the first,
`walk_cycle` the second.
-/
namespace Ccb
namespace Chain

variable {α : Type} {f : α → Option α} {a b : α}

def walk (f : α → Option α) : Nat → α → Option α
  | 0, a     => some a
  | k + 1, a => (f a).bind (walk f k)

/-- No link is on the way back to where it leads from. -/
def Acyclic (f : α → Option α) : Prop := ∀ a k, walk f (k + 1) a ≠ some a

theorem walk_add (m n : Nat) (a : α) : walk f (m + n) a = (walk f m a).bind (walk f n) := by
  induction m generalizing a with
  | zero => rw [Nat.zero_add]; rfl
  | succ m ih =>
    rw [Nat.succ_add]
    cases hf : f a with
    | none => simp only [walk, hf, Option.bind_none]
    | some b => simp only [walk, hf, Option.bind_some]; exact ih b

theorem walk_lt {rank : α → Nat} (h : ∀ a b, f a = some b → rank a < rank b) :
    ∀ (k : Nat) (a b : α), walk f (k + 1) a = some b → rank a < rank b
  | k, a, b, hw => by
    obtain ⟨c, hc, hw⟩ := Option.bind_eq_some_iff.1 hw
    cases k with
    | zero =>
      obtain rfl : c = b := Option.some.inj hw
      exact h a c hc
    | succ k => exact Nat.lt_trans (h a c hc) (walk_lt h k c b hw)

/-- Links that lead up only do not lead back. -/
theorem Acyclic.of_lt {rank : α → Nat} (h : ∀ a b, f a = some b → rank a < rank b) : Acyclic f :=
  fun a k hw => Nat.lt_irrefl _ (walk_lt h k a a hw)

/-- The points a walk passes are there. -/
theorem walk_isSome_of_le {m n : Nat} (hmn : m ≤ n) (h : (walk f n a).isSome = true) : ∃ b, walk f m a = some b := by
  cases hm : walk f m a with
  | some b => exact ⟨b, rfl⟩
  | none =>
    obtain ⟨k, rfl⟩ := Nat.exists_eq_add_of_le hmn
    rw [walk_add, hm] at h
    cases h

/-- **Without a cycle every walk ends**, after at most as many links as there are points with one. -/
theorem Acyclic.walk_ends (h : Acyclic f) (s : Finset α) (hs : ∀ a, (f a).isSome = true → a ∈ s) (a : α) :
    walk f (s.card + 1) a = none := by
  by_contra hne
  -- The first `s.card + 1` points all have a link, so two of them are the same.
  obtain ⟨x, hx⟩ : ∃ x : Nat → α, ∀ k, k ≤ s.card + 1 → walk f k a = some (x k) := by
    refine ⟨fun k => (walk f k a).getD a, fun k hk => ?_⟩
    obtain ⟨b, hb⟩ := walk_isSome_of_le hk (Option.isSome_iff_ne_none.2 hne)
    simp only [hb, Option.getD_some]
  have hmem : ∀ k ∈ Finset.range (s.card + 1), x k ∈ s := by
    intro k hk
    have hk : k < s.card + 1 := Finset.mem_range.1 hk
    refine hs _ (Option.isSome_iff_ne_none.2 fun hnone => ?_)
    have hend : walk f (k + 1) a = none := by
      rw [walk_add, hx k hk.le]
      simp only [Option.bind_some, walk, hnone, Option.bind_none]
    rw [hx (k + 1) hk] at hend
    cases hend
  obtain ⟨i, hi, j, hj, hij, hxij⟩ :=
    Finset.exists_ne_map_eq_of_card_lt_of_maps_to (by rw [Finset.card_range]; exact Nat.lt_succ_self _) hmem
  rw [Finset.mem_range] at hi hj
  have hback : ∀ {i j}, i < j → j < s.card + 1 → x i = x j → False := by
    intro i j hlt hj he
    obtain ⟨k, rfl⟩ := Nat.exists_eq_add_of_lt hlt
    have hw : walk f (i + (k + 1)) a = some (x i) := by rw [he]; exact hx _ hj.le
    rw [walk_add, hx i (by omega)] at hw
    exact h _ _ hw
  rcases Nat.lt_or_gt_of_ne hij with hlt | hlt
  · exact hback hlt hj hxij
  · exact hback hlt hi hxij.symm

/-- **On a cycle no walk ends.** -/
theorem walk_cycle {k : Nat} (h : walk f (k + 1) a = some a) (n : Nat) : (walk f n a).isSome = true := by
  have hround : ∀ m, walk f (m * (k + 1)) a = some a := by
    intro m
    induction m with
    | zero => rw [Nat.zero_mul]; rfl
    | succ m ih => rw [Nat.succ_mul, walk_add, ih]; exact h
  have hle : n ≤ n * (k + 1) := Nat.le_mul_of_pos_right n (Nat.succ_pos k)
  obtain ⟨b, hb⟩ := walk_isSome_of_le hle (by rw [hround]; rfl)
  rw [hb]
  rfl

end Chain
end Ccb
