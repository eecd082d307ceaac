import Mathlib.Data.List.AList
import Mathlib.Data.List.Induction
/-!
# Overlay — keyed writes, of which the last one counts

A write has a key and puts a value, or nothing, under it.  Whatever applies writes one by one holds under each key what
the last write of that key put there (`Writes.foldl`), so two sequences with the same last writes leave the same, and so
does a map that has kept only the last write of each key, in whatever order it is gone through (`last_of_entries`).
-/
namespace Ccb
namespace Overlay

variable {α κ β τ : Type} [DecidableEq κ]

/-- The last of `xs` with the key `k`. -/
def last (key : α → κ) (k : κ) (xs : List α) : Option α :=
  xs.foldl (fun o x => if key x = k then some x else o) none

section
variable {key : α → κ} {k : κ} {xs ys : List α} {x : α}

theorem last_concat : last key k (xs ++ [x]) = if key x = k then some x else last key k xs := by
  unfold last
  rw [List.foldl_append]
  rfl

theorem last_append : last key k (xs ++ ys) = (last key k ys).or (last key k xs) := by
  induction ys using List.reverseRecOn with
  | nil => rw [List.append_nil]; rfl
  | append_singleton ys y ih =>
    rw [← List.append_assoc, last_concat, last_concat, ih]
    split <;> rfl

theorem last_some (h : last key k xs = some x) : x ∈ xs ∧ key x = k := by
  induction xs using List.reverseRecOn with
  | nil => cases h
  | append_singleton ys y ih =>
    rw [last_concat] at h
    split at h
    · rename_i hy
      cases h
      exact ⟨List.mem_append_right _ List.mem_cons_self, hy⟩
    · exact ⟨List.mem_append_left _ (ih h).1, (ih h).2⟩

theorem last_eq_none_iff : last key k xs = none ↔ ∀ x ∈ xs, key x ≠ k := by
  induction xs using List.reverseRecOn with
  | nil => simp [last]
  | append_singleton ys y ih =>
    rw [last_concat]
    constructor
    · intro h x hx
      split at h
      · cases h
      · rename_i hy
        rcases List.mem_append.1 hx with hx | hx
        · exact ih.1 h x hx
        · rw [List.mem_singleton.1 hx]
          exact hy
    · intro h
      rw [if_neg (h y (List.mem_append_right _ List.mem_cons_self))]
      exact ih.2 (fun x hx => h x (List.mem_append_left _ hx))

/-- A key with one write has that for its last. -/
theorem last_eq_some (hx : x ∈ xs) (hk : key x = k) (h1 : ∀ y ∈ xs, key y = k → y = x) : last key k xs = some x := by
  cases hl : last key k xs with
  | none => exact absurd hk (last_eq_none_iff.1 hl x hx)
  | some y =>
    obtain ⟨hy, hyk⟩ := last_some hl
    rw [h1 y hy hyk]

/-- **The entries of a map of writes**, in any order: the last write of a key is the one it maps to. -/
theorem last_of_entries {m : AList (fun _ : κ => α)} (hkey : ∀ k x, m.lookup k = some x → key x = k)
    (hp : xs.Perm (m.entries.map Sigma.snd)) (k : κ) : last key k xs = m.lookup k := by
  have hmem : ∀ x, x ∈ xs ↔ m.lookup (key x) = some x := by
    intro x
    rw [hp.mem_iff, List.mem_map]
    constructor
    · rintro ⟨⟨k', x'⟩, he, rfl⟩
      have hl : m.lookup k' = some x' := AList.mem_lookup_iff.2 he
      rw [hkey k' x' hl]
      exact hl
    · intro h
      exact ⟨⟨key x, x⟩, AList.mem_lookup_iff.1 h, rfl⟩
  cases hl : m.lookup k with
  | none =>
    rw [last_eq_none_iff]
    rintro x hx rfl
    rw [(hmem x).1 hx] at hl
    cases hl
  | some x =>
    have hk : key x = k := hkey k x hl
    apply last_eq_some ((hmem x).2 (by rw [hk]; exact hl)) hk
    intro y hy hyk
    have hy := (hmem y).1 hy
    rw [hyk, hl] at hy
    cases hy
    rfl

end

/-- A step puts its write's value under its key and leaves the other keys alone. -/
def Writes (lookup : τ → κ → Option β) (step : τ → α → τ) (key : α → κ) (val : α → Option β) : Prop :=
  ∀ t x k, lookup (step t x) k = if key x = k then val x else lookup t k

section
variable {lookup : τ → κ → Option β} {step : τ → α → τ} {key : α → κ} {val : α → Option β}

/-- **The last write of a key counts.** -/
theorem Writes.foldl (h : Writes lookup step key val) (xs : List α) (t : τ) (k : κ) :
    lookup (xs.foldl step t) k = (last key k xs).elim (lookup t k) val := by
  induction xs using List.reverseRecOn with
  | nil => rfl
  | append_singleton ys y ih =>
    rw [List.foldl_append, List.foldl_cons, List.foldl_nil, h, last_concat]
    split
    · rfl
    · exact ih

theorem Writes.foldl_congr (h : Writes lookup step key val) {xs ys : List α} {t u : τ}
    (ht : ∀ k, lookup t k = lookup u k) (hl : ∀ k, last key k xs = last key k ys) (k : κ) :
    lookup (xs.foldl step t) k = lookup (ys.foldl step u) k := by
  rw [h.foldl, h.foldl, ht, hl]

end

/-! ## Maps -/

section
variable {m : AList (fun _ : κ => β)}

theorem lookup_insert_eq (a : κ) (b : β) (k : κ) : (m.insert a b).lookup k = if a = k then some b else m.lookup k := by
  by_cases hk : a = k
  · subst hk
    rw [if_pos rfl, AList.lookup_insert]
  · rw [if_neg hk, AList.lookup_insert_ne (Ne.symm hk)]

theorem lookup_erase_eq (a k : κ) : (m.erase a).lookup k = if a = k then none else m.lookup k := by
  by_cases hk : a = k
  · subst hk
    rw [if_pos rfl, AList.lookup_erase]
  · rw [if_neg hk, AList.lookup_erase_ne (Ne.symm hk)]

end

end Overlay
end Ccb
