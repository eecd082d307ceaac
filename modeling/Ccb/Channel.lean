/-!
# Channel — a stream with two ends

What a reliable stream is, whatever carries it: elements are put in at one end and taken out at the other in the same
order; once its writer has ended it nothing more is put in, and its reader sees the end when it has taken the last
element. A `Channel` in which more was taken than put, or the end seen before the last element, cannot be built.
-/
namespace Ccb

/-- What has been put in, how much of that has been taken out, whether the writer has ended the stream and whether the
reader has seen the end. -/
structure Channel (α : Type) where
  put    : List α
  got    : Nat
  ended  : Bool
  sawEnd : Bool
  got_le : got ≤ put.length
  whole  : sawEnd = true → ended = true ∧ got = put.length

namespace Channel

variable {α : Type} {c c' : Channel α}

/-- What the reader has. -/
def taken (c : Channel α) : List α := c.put.take c.got

theorem whole_of_false {b e : Bool} {n m : Nat} (h : b = false) : b = true → e = true ∧ n = m := by
  intro hb
  rw [h] at hb
  cases hb

def empty : Channel α := ⟨[], 0, false, false, Nat.le_refl 0, whole_of_false rfl⟩

theorem sawEnd_of_open (c : Channel α) (h : c.ended = false) : c.sawEnd = false := by
  cases hs : c.sawEnd with
  | false => rfl
  | true => rw [(c.whole hs).1] at h; cases h

theorem sawEnd_of_more (c : Channel α) (h : c.got < c.put.length) : c.sawEnd = false := by
  cases hs : c.sawEnd with
  | false => rfl
  | true => rw [(c.whole hs).2] at h; exact absurd h (Nat.lt_irrefl _)

theorem got_le_push (c : Channel α) (bs : List α) : c.got ≤ (c.put ++ bs).length := by
  rw [List.length_append]
  exact Nat.le_trans c.got_le (Nat.le_add_right _ _)

/-! ## What the two ends do -/

/-- The writer puts elements in. -/
def push (c : Channel α) (bs : List α) : Option (Channel α) :=
  if h : c.ended = false then
    some ⟨c.put ++ bs, c.got, c.ended, c.sawEnd, c.got_le_push bs, whole_of_false (c.sawEnd_of_open h)⟩
  else none

/-- The writer ends the stream. -/
def finish (c : Channel α) : Channel α := ⟨c.put, c.got, true, c.sawEnd, c.got_le, fun h => ⟨rfl, (c.whole h).2⟩⟩

theorem more_of_pop {c : Channel α} {n : Nat} (h : 0 < n ∧ c.got + n ≤ c.put.length) : c.got < c.put.length :=
  Nat.lt_of_lt_of_le (Nat.lt_add_of_pos_right h.1) h.2

/-- The reader takes the next `n` elements. -/
def pop (c : Channel α) (n : Nat) : Option (List α × Channel α) :=
  if h : 0 < n ∧ c.got + n ≤ c.put.length then
    some ((c.put.drop c.got).take n,
      ⟨c.put, c.got + n, c.ended, c.sawEnd, h.2, whole_of_false (c.sawEnd_of_more (more_of_pop h))⟩)
  else none

/-- The reader sees the end. -/
def see (c : Channel α) : Option (Channel α) :=
  if h : c.ended = true ∧ c.got = c.put.length then some ⟨c.put, c.got, c.ended, true, c.got_le, fun _ => h⟩ else none

theorem push_some {bs : List α} (h : c.push bs = some c') :
    c.ended = false ∧ c'.put = c.put ++ bs ∧ c'.got = c.got ∧ c'.ended = false ∧ c'.sawEnd = c.sawEnd := by
  unfold push at h
  split at h
  · rename_i he
    cases h
    exact ⟨he, rfl, rfl, he, rfl⟩
  · cases h

theorem pop_some {n : Nat} {bs : List α} (h : c.pop n = some (bs, c')) :
    bs ≠ [] ∧ bs = (c.put.drop c.got).take n ∧ c'.put = c.put ∧ c'.got = c.got + n ∧ c'.ended = c.ended ∧
      c'.sawEnd = c.sawEnd := by
  unfold pop at h
  split at h
  · rename_i hn
    cases h
    refine ⟨fun hnil => ?_, rfl, rfl, rfl, rfl, rfl⟩
    have hlen := congrArg List.length hnil
    rw [List.length_take, List.length_drop, List.length_nil] at hlen
    omega
  · cases h

theorem see_some (h : c.see = some c') :
    c.ended = true ∧ c.got = c.put.length ∧ c'.put = c.put ∧ c'.got = c.got ∧ c'.ended = c.ended ∧
      c'.sawEnd = true := by
  unfold see at h
  split at h
  · rename_i he
    cases h
    exact ⟨he.1, he.2, rfl, rfl, rfl, rfl⟩
  · cases h

/-! ## What the reader has -/

theorem taken_begins (c : Channel α) : c.taken <+: c.put := List.take_prefix _ _

theorem taken_of_all (h : c.got = c.put.length) : c.taken = c.put := by
  rw [taken, h, List.take_length]

/-- **Who has seen the end has everything.** -/
theorem taken_of_sawEnd (h : c.sawEnd = true) : c.taken = c.put := taken_of_all (c.whole h).2

theorem taken_push {bs : List α} (h : c.push bs = some c') : c'.taken = c.taken := by
  obtain ⟨-, hput, hgot, -, -⟩ := push_some h
  rw [taken, hput, hgot, List.take_append_of_le_length c.got_le]
  rfl

theorem taken_pop {n : Nat} {bs : List α} (h : c.pop n = some (bs, c')) : c'.taken = c.taken ++ bs := by
  obtain ⟨-, rfl, hput, hgot, -, -⟩ := pop_some h
  rw [taken, hput, hgot, List.take_add]
  rfl

theorem taken_see (h : c.see = some c') : c'.taken = c.taken := by
  obtain ⟨-, -, hput, hgot, -, -⟩ := see_some h
  rw [taken, hput, hgot]
  rfl

/-! ## A channel as a machine -/

/-- What an end does, with the elements it puts in or gets. -/
inductive Event (α : Type) where
  | push (bs : List α)
  | finish
  | pop (bs : List α)
  | see
  deriving DecidableEq, Repr

/-- A `pop` is only that of the elements which are next. -/
def step [DecidableEq α] (c : Channel α) : Event α → Option (Channel α)
  | .push bs => c.push bs
  | .finish  => some c.finish
  | .pop bs  => (c.pop bs.length).bind (fun r => if r.1 = bs then some r.2 else none)
  | .see     => c.see

variable [DecidableEq α]

theorem step_push (h : c.ended = false) (bs : List α) :
    ∃ c', c.step (.push bs) = some c' ∧ c'.put = c.put ++ bs ∧ c'.got = c.got ∧ c'.ended = false ∧
      c'.sawEnd = c.sawEnd :=
  ⟨_, dif_pos h, rfl, rfl, h, rfl⟩

theorem step_pop {bs rest : List α} (h : c.put.drop c.got = bs ++ rest) (hne : bs ≠ []) :
    ∃ c', c.step (.pop bs) = some c' ∧ c'.put = c.put ∧ c'.got = c.got + bs.length ∧ c'.ended = c.ended ∧
      c'.sawEnd = c.sawEnd := by
  have hpos : 0 < bs.length := List.length_pos_iff.2 hne
  have hlen := congrArg List.length h
  rw [List.length_drop, List.length_append] at hlen
  have hroom : c.got + bs.length ≤ c.put.length := by omega
  have hnext : (c.put.drop c.got).take bs.length = bs := by rw [h, List.take_left]
  have hsaw : c.sawEnd = false := c.sawEnd_of_more (more_of_pop ⟨hpos, hroom⟩)
  refine ⟨⟨c.put, c.got + bs.length, c.ended, c.sawEnd, hroom, whole_of_false hsaw⟩, ?_, rfl, rfl, rfl, rfl⟩
  rw [step, pop, dif_pos ⟨hpos, hroom⟩, Option.bind_some, if_pos hnext]

theorem step_see (he : c.ended = true) (hall : c.got = c.put.length) :
    ∃ c', c.step .see = some c' ∧ c'.put = c.put ∧ c'.got = c.got ∧ c'.ended = true ∧ c'.sawEnd = true :=
  ⟨_, dif_pos ⟨he, hall⟩, rfl, rfl, he, rfl⟩

end Channel
end Ccb
