import Mathlib.Data.List.Infix
import Ccb.SegReader
/-!
# SegReopen — re-opens that fail in network mode

A schedule says which bytes of each segment are visible at each turn; two runs over one schedule, one whose re-opens
fail at some turns, are compared turn by turn.  `Reach` is the path both follow: a position is a segment and the bytes
of it already decoded, and the path's next step is decided by the bytes at the position alone.  When a re-open fails
the reader drops its file, and the next round reads the segment from its start again, with the buffer kept; so the
failing run stays on the path when nothing had been read from the segment yet (`reopen_transparent`), and
`failed_reopen_redelivers` shows it leave the path otherwise.
-/
namespace Ccb
namespace Fstun

/-- The bytes visible under each segment index, turn by turn. -/
abbrev Schedule := Nat → UInt32 → Option (List UInt8)

/-- A visible segment stays visible, and its bytes only grow. -/
def Grows (V : Schedule) : Prop := ∀ t i c, V t i = some c → ∃ c', V (t + 1) i = some c' ∧ c <+: c'

/-- The file operations at turn `t`; the inode of a segment is its index. -/
def viewAt (V : Schedule) (t : Nat) : View :=
  ⟨fun i => (V t i).map (fun _ => i.toNat), fun n => (V t (.ofNat n)).getD []⟩

/-- What `next` returns, its waits left out. -/
inductive Event where
  | frame (f : Frame)
  | corrupt
  | badRoll
  | ioError
  deriving DecidableEq, Repr

def Turn.event : Turn → List Event
  | .frame f => [.frame f]
  | .corrupt => [.corrupt]
  | .badRoll => [.badRoll]
  | .ioError => [.ioError]
  | .again | .incomplete | .notExist => []

section
variable (crc : List UInt8 → UInt32) (V : Schedule) (fail : Nat → Bool)

/-- The reader before turn `t`, in network mode, when the re-opens at the turns of `fail` fail. -/
def readerAt : Nat → SegReader
  | 0     => newSegReader
  | t + 1 => (turn crc true (!fail t) (viewAt V t) (readerAt t)).1

/-- What the turns before `t` returned. -/
def returned : Nat → List Event
  | 0     => []
  | t + 1 => returned t ++ (turn crc true (!fail t) (viewAt V t) (readerAt crc V fail t)).2.event

/-- **The run with failing re-opens returns what the run without returns**: never anything else, and all of it
sooner or later. -/
def Transparent : Prop :=
  (∀ t, returned crc V fail t <+: returned crc V (fun _ => false) t) ∧
    ∀ t, ∃ t', returned crc V (fun _ => false) t <+: returned crc V fail t'

end

/-- The round re-opens a segment that bytes have been read from. -/
def MidSegment (crc : List UInt8 → UInt32) (r : SegReader) : Prop :=
  r.f.isSome = true ∧ 0 < r.off ∧ decodeFrame crc r.buf = .error .incomplete

/-! ## The path -/

/-- A segment and the bytes of it already decoded. -/
structure Pos where
  seg : UInt32
  k   : Nat
  deriving DecidableEq

/-- Where a decode at a position leads, and what `next` returns of it. -/
def follow (p : Pos) : Except DecodeErr (Frame × Nat) → Option (List Event × Pos)
  | .ok (fr, n) =>
    if fr.typ = frameROLL then
      match decodeUint32 fr.payload with
      | none      => some ([.badRoll], ⟨p.seg, p.k + n⟩)
      | some next => some ([], ⟨next, 0⟩)
    else some ([.frame fr], ⟨p.seg, p.k + n⟩)
  | .error .corrupt    => some ([.corrupt], p)
  | .error .incomplete => none

section
variable {crc : List UInt8 → UInt32} {V : Schedule}

/-- The step of the path from `p`: what the bytes there decode to once enough of them are visible. -/
def Adv (crc : List UInt8 → UInt32) (V : Schedule) (p : Pos) (e : List Event) (q : Pos) : Prop :=
  ∃ t c, V t p.seg = some c ∧ follow p (decodeFrame crc (c.drop p.k)) = some (e, q)

/-- The position after `n` steps of the path, and what they returned. -/
inductive Reach (crc : List UInt8 → UInt32) (V : Schedule) : Nat → List Event → Pos → Prop
  | zero : Reach crc V 0 [] ⟨0, 0⟩
  | succ {n : Nat} {es e : List Event} {p q : Pos} :
      Reach crc V n es p → Adv crc V p e q → Reach crc V (n + 1) (es ++ e) q

theorem Grows.le (hV : Grows V) {t u : Nat} (htu : t ≤ u) {i : UInt32} {c : List UInt8} (hc : V t i = some c) :
    ∃ c', V u i = some c' ∧ c <+: c' := by
  induction u, htu using Nat.le_induction with
  | base => exact ⟨c, hc, List.prefix_rfl⟩
  | succ u _ ih =>
    obtain ⟨c', hc', hp⟩ := ih
    obtain ⟨c'', hc'', hp'⟩ := hV u i c' hc'
    exact ⟨c'', hc'', hp.trans hp'⟩

theorem decodeFrame_of_isPrefix {b b' : List UInt8} (h : b <+: b') (hd : decodeFrame crc b ≠ .error .incomplete) :
    decodeFrame crc b' = decodeFrame crc b := by
  obtain ⟨ext, rfl⟩ := h
  exact decodeFrame_append ext hd

theorem ne_incomplete_of_follow {p : Pos} {d : Except DecodeErr (Frame × Nat)} {r : List Event × Pos}
    (h : follow p d = some r) : d ≠ .error .incomplete := by
  rintro rfl
  cases h

/-- **The path is determined**: what was decided at one time is decided the same later. -/
theorem Adv.unique (hV : Grows V) {p q q' : Pos} {e e' : List Event} (h : Adv crc V p e q) (h' : Adv crc V p e' q') :
    e = e' ∧ q = q' := by
  obtain ⟨t, c, hc, hf⟩ := h
  obtain ⟨t', c', hc', hf'⟩ := h'
  have hsame : decodeFrame crc (c.drop p.k) = decodeFrame crc (c'.drop p.k) := by
    rcases Nat.le_total t t' with hle | hle
    · obtain ⟨c'', hc'', hp⟩ := hV.le hle hc
      rw [hc'] at hc''
      cases hc''
      exact (decodeFrame_of_isPrefix (hp.drop p.k) (ne_incomplete_of_follow hf)).symm
    · obtain ⟨c'', hc'', hp⟩ := hV.le hle hc'
      rw [hc] at hc''
      cases hc''
      exact decodeFrame_of_isPrefix (hp.drop p.k) (ne_incomplete_of_follow hf')
  rw [hsame, hf'] at hf
  cases hf
  exact ⟨rfl, rfl⟩

theorem Reach.unique (hV : Grows V) {n : Nat} {es es' : List Event} {p p' : Pos} (h : Reach crc V n es p)
    (h' : Reach crc V n es' p') : es = es' ∧ p = p' := by
  induction h generalizing es' p' with
  | zero => cases h'; exact ⟨rfl, rfl⟩
  | succ _ ha ih =>
    cases h' with
    | succ h' ha' =>
      obtain ⟨rfl, rfl⟩ := ih h'
      obtain ⟨rfl, rfl⟩ := ha.unique hV ha'
      exact ⟨rfl, rfl⟩

/-- What a shorter way along the path returned begins what a longer one did. -/
theorem Reach.begins (hV : Grows V) {n m : Nat} {es es' : List Event} {p p' : Pos} (h : Reach crc V n es p)
    (h' : Reach crc V m es' p') (hnm : n ≤ m) : es <+: es' := by
  induction h' with
  | zero =>
    obtain rfl : n = 0 := by omega
    obtain ⟨rfl, -⟩ := h.unique hV .zero
    exact List.prefix_rfl
  | @succ m es' e p' q' h' ha ih =>
    by_cases hle : n ≤ m
    · exact (ih hle).trans (List.prefix_append _ _)
    · obtain rfl : n = m + 1 := by omega
      obtain ⟨rfl, -⟩ := h.unique hV (.succ h' ha)
      exact List.prefix_rfl

/-! ## One turn -/

/-- The reader stands at `p`: nothing read of the segment yet, or its buffer is what it has read past `p`. -/
structure On (V : Schedule) (t : Nat) (r : SegReader) (p : Pos) : Prop where
  seg  : r.cur = p.seg
  read : (r.f = none ∧ r.buf = [] ∧ p.k = 0) ∨
    ∃ c, r.f = some r.cur.toNat ∧ V t r.cur = some c ∧ p.k ≤ r.off ∧ r.off ≤ c.length ∧
      r.buf = (c.take r.off).drop p.k

/-- The reader's buffer holds the next step of its path. -/
def Decided (crc : List UInt8 → UInt32) (r : SegReader) : Prop :=
  r.f.isSome = true ∧ decodeFrame crc r.buf ≠ .error .incomplete

theorem On.later (hV : Grows V) {t u : Nat} (htu : t ≤ u) {r : SegReader} {p : Pos} (h : On V t r p) : On V u r p := by
  refine ⟨h.seg, ?_⟩
  rcases h.read with h0 | ⟨c, hf, hc, hk, hoff, hbuf⟩
  · exact Or.inl h0
  · obtain ⟨c', hc', ext, rfl⟩ := hV.le htu hc
    refine Or.inr ⟨c ++ ext, hf, hc', hk, ?_, ?_⟩
    · rw [List.length_append]; omega
    · rw [List.take_append_of_le_length hoff]; exact hbuf

theorem viewAt_lookup (t : Nat) (i : UInt32) : (viewAt V t).lookup i = (V t i).map (fun _ => i.toNat) := rfl

theorem viewAt_bytes {t : Nat} {i : UInt32} {c : List UInt8} (h : V t i = some c) : (viewAt V t).bytes i.toNat = c := by
  show (V t (.ofNat i.toNat)).getD [] = c
  rw [UInt32.ofNat_toNat, h, Option.getD_some]

/-- **A turn on a decided buffer takes the path's next step**, without looking at the file. -/
theorem turn_decided (v : View) (reopen : Bool) {t : Nat} {r : SegReader} {p : Pos} (h : On V t r p)
    (hd : Decided crc r) : ∃ e q, Adv crc V p e q ∧ (turn crc true reopen v r).2.event = e ∧
      On V t (turn crc true reopen v r).1 q ∧
      (turn crc true reopen v r).1.f =
      (if (follow p (decodeFrame crc r.buf)).map Prod.fst = some [] then none else r.f) ∧
      ((turn crc true reopen v r).1.f.isSome = true → (turn crc true reopen v r).1.off = r.off) := by
  obtain ⟨hopen, hne⟩ := hd
  rcases h.read with ⟨hf, -⟩ | ⟨c, hf, hc, hk, hoff, hbuf⟩
  · rw [hf] at hopen; cases hopen
  -- The decode of the buffer is the decode of the segment at the position.
  have hpre : r.buf <+: c.drop p.k := by rw [hbuf]; exact (List.take_prefix _ _).drop _
  have hdec : decodeFrame crc (c.drop p.k) = decodeFrame crc r.buf := decodeFrame_of_isPrefix hpre hne
  have hc' : V t p.seg = some c := h.seg ▸ hc
  have hadv : ∀ e q, follow p (decodeFrame crc r.buf) = some (e, q) → Adv crc V p e q := fun e q hf =>
    ⟨t, c, hc', by rw [hdec]; exact hf⟩
  unfold turn
  simp only [hf]
  unfold turnOpen
  rcases hd : decodeFrame crc r.buf with err | ⟨fr, n⟩
  · cases err with
    | incomplete => exact absurd hd hne
    | corrupt =>
      refine ⟨[.corrupt], p, hadv _ _ (by rw [hd]; rfl), rfl, h, ?_, fun _ => rfl⟩
      simp [follow, hf]
  · have hn := (decodeFrame_le hd).2
    have hlen : r.buf.length = r.off - p.k := by
      rw [hbuf, List.length_drop, List.length_take, Nat.min_eq_left hoff]
    have hon : On V t { r with buf := r.buf.drop n } ⟨p.seg, p.k + n⟩ := by
      refine ⟨h.seg, Or.inr ⟨c, hf, hc, ?_, hoff, ?_⟩⟩
      · dsimp only; omega
      · dsimp only; rw [hbuf, List.drop_drop]
    dsimp only
    by_cases hroll : fr.typ = frameROLL
    · rw [if_pos hroll]
      rcases hu : decodeUint32 fr.payload with _ | next
      · have hfol : follow p (.ok (fr, n)) = some ([.badRoll], ⟨p.seg, p.k + n⟩) := by simp [follow, hroll, hu]
        refine ⟨[.badRoll], _, hadv _ _ (by rw [hd]; exact hfol), rfl, hon, ?_, fun _ => rfl⟩
        rw [hfol]; simp [hf]
      · have hfol : follow p (.ok (fr, n)) = some ([], ⟨next, 0⟩) := by simp [follow, hroll, hu]
        refine ⟨[], _, hadv _ _ (by rw [hd]; exact hfol), rfl, ⟨rfl, Or.inl ⟨rfl, rfl, rfl⟩⟩, ?_, fun hs => by cases hs⟩
        rw [hfol]; simp
    · rw [if_neg hroll]
      have hfol : follow p (.ok (fr, n)) = some ([.frame fr], ⟨p.seg, p.k + n⟩) := by simp [follow, hroll]
      refine ⟨[.frame fr], _, hadv _ _ (by rw [hd]; exact hfol), rfl, hon, ?_, fun _ => rfl⟩
      rw [hfol]; simp [hf]

/-- The round of an open segment whose buffer is undecided: it reads what is visible, or drops the file. -/
theorem turnOpen_undecided {t : Nat} {r : SegReader} {p : Pos} {c : List UInt8} (reopen : Bool)
    (hseg : r.cur = p.seg) (hc : V t r.cur = some c) (hk : p.k ≤ r.off)
    (hoff : r.off ≤ c.length) (hbuf : r.buf = (c.take r.off).drop p.k)
    (hd : decodeFrame crc r.buf = .error .incomplete) (hfail : reopen = false → r.off = 0) :
    (turnOpen crc true reopen (viewAt V t) r r.cur.toNat).2.event = [] ∧
      On V t (turnOpen crc true reopen (viewAt V t) r r.cur.toNat).1 p ∧
      (reopen = true → (turnOpen crc true reopen (viewAt V t) r r.cur.toNat).1.f.isSome = true ∧
        (turnOpen crc true reopen (viewAt V t) r r.cur.toNat).1.off = c.length) := by
  have hv : (viewAt V t).lookup r.cur = some r.cur.toNat := by rw [viewAt_lookup, hc]; rfl
  unfold turnOpen
  rw [hd]
  dsimp only
  cases reopen with
  | false =>
    have h0 := hfail rfl
    have hk0 : p.k = 0 := by omega
    have hnil : r.buf = [] := by rw [hbuf, h0, List.take_zero, List.drop_nil]
    have hfill : fill true false (viewAt V t) r r.cur.toNat = ({ r with f := none }, false) := by simp [fill, refresh]
    rw [hfill]
    exact ⟨rfl, ⟨hseg, Or.inl ⟨rfl, hnil, hk0⟩⟩, fun h => by cases h⟩
  | true =>
    by_cases hle : c.length ≤ r.off
    · have hfill : fill true true (viewAt V t) r r.cur.toNat = ({ r with f := some r.cur.toNat }, false) := by
        simp [fill, refresh, hv, viewAt_bytes hc, hle]
      rw [hfill]
      refine ⟨rfl, ⟨hseg, Or.inr ⟨c, rfl, hc, hk, hoff, hbuf⟩⟩, fun _ => ⟨rfl, ?_⟩⟩
      dsimp only; omega
    · have hfill : fill true true (viewAt V t) r r.cur.toNat =
          ({ r with f := some r.cur.toNat, off := c.length, buf := r.buf ++ c.drop r.off }, true) := by
        simp [fill, refresh, hv, viewAt_bytes hc, hle]
      rw [hfill]
      refine ⟨rfl, ⟨hseg, Or.inr ⟨c, rfl, hc, ?_, Nat.le_refl _, ?_⟩⟩, fun _ => ⟨rfl, rfl⟩⟩
      · dsimp only; omega
      · dsimp only
        rw [List.take_length, hbuf, ← List.drop_append_of_le_length (by rw [List.length_take]; omega),
          List.take_append_drop]

/-- **A turn on an undecided buffer stays at its position**; without a failure it leaves the segment open and read to
its visible end. -/
theorem turn_undecided {t : Nat} {r : SegReader} {p : Pos} (reopen : Bool) (h : On V t r p) (hd : ¬ Decided crc r)
    (hfail : reopen = false → ¬ MidSegment crc r) :
    (turn crc true reopen (viewAt V t) r).2.event = [] ∧ On V t (turn crc true reopen (viewAt V t) r).1 p ∧
      (reopen = true → ∀ c, V t p.seg = some c → (turn crc true reopen (viewAt V t) r).1.f.isSome = true ∧
        (turn crc true reopen (viewAt V t) r).1.off = c.length) := by
  unfold turn
  rcases h.read with ⟨hf, hnil, hk⟩ | ⟨c, hf, hc, hk, hoff, hbuf⟩
  · rw [hf]
    dsimp only
    rw [viewAt_lookup]
    rcases hc : V t r.cur with _ | c
    · refine ⟨rfl, h, fun _ c hc' => ?_⟩
      rw [← h.seg, hc] at hc'; cases hc'
    · have hdec : decodeFrame crc ({ r with f := some r.cur.toNat, off := 0 } : SegReader).buf =
          .error .incomplete := by
        show decodeFrame crc r.buf = _
        rw [hnil]; rfl
      have := turnOpen_undecided (V := V) (t := t) (p := p) (c := c) reopen
        (r := { r with f := some r.cur.toNat, off := 0 }) h.seg hc (by dsimp only; omega) (Nat.zero_le _)
        (by dsimp only; rw [hnil, List.take_zero, List.drop_nil]) hdec (fun _ => rfl)
      refine ⟨this.1, this.2.1, fun ht c' hc' => ?_⟩
      rw [← h.seg, hc] at hc'
      cases hc'
      exact this.2.2 ht
  · have hinc : decodeFrame crc r.buf = .error .incomplete := by
      by_contra hne
      exact hd ⟨by rw [hf]; rfl, hne⟩
    have := turnOpen_undecided (V := V) (t := t) reopen h.seg hc hk hoff hbuf hinc (fun hr => by
      by_contra h0
      exact hfail hr ⟨by rw [hf]; rfl, by omega, hinc⟩)
    simp only [hf]
    refine ⟨this.1, this.2.1, fun ht c' hc' => ?_⟩
    rw [← h.seg, hc] at hc'
    cases hc'
    exact this.2.2 ht

/-! ## Two runs over one schedule -/

variable {fail : Nat → Bool}

/-- Before turn `t` the run has taken `n` steps of the path and stands at `p`. -/
def Track (crc : List UInt8 → UInt32) (V : Schedule) (fail : Nat → Bool) (t n : Nat) (p : Pos) : Prop :=
  Reach crc V n (returned crc V fail t) p ∧ On V t (readerAt crc V fail t) p

/-- The same after turn `t`, with the view of that turn. -/
def After (crc : List UInt8 → UInt32) (V : Schedule) (fail : Nat → Bool) (t n : Nat) (p : Pos) : Prop :=
  Reach crc V n (returned crc V fail (t + 1)) p ∧ On V t (readerAt crc V fail (t + 1)) p

theorem Track.zero : Track crc V fail 0 0 ⟨0, 0⟩ := ⟨.zero, ⟨rfl, Or.inl ⟨rfl, rfl, rfl⟩⟩⟩

theorem After.track (hV : Grows V) {t n : Nat} {p : Pos} (h : After crc V fail t n p) : Track crc V fail (t + 1) n p :=
  ⟨h.1, h.2.later hV (Nat.le_succ t)⟩

theorem Track.decided {t n : Nat} {p : Pos} (h : Track crc V fail t n p)
    (hd : Decided crc (readerAt crc V fail t)) : ∃ q, After crc V fail t (n + 1) q := by
  obtain ⟨e, q, hadv, hev, hon, -, -⟩ := turn_decided (viewAt V t) (!fail t) h.2 hd
  refine ⟨q, ?_, hon⟩
  show Reach crc V (n + 1) (returned crc V fail t ++ _) q
  rw [hev]
  exact .succ h.1 hadv

theorem Track.undecided {t n : Nat} {p : Pos} (h : Track crc V fail t n p)
    (hd : ¬ Decided crc (readerAt crc V fail t)) (hg : fail t = true → ¬ MidSegment crc (readerAt crc V fail t)) :
    After crc V fail t n p := by
  obtain ⟨hev, hon, -⟩ := turn_undecided (!fail t) h.2 hd (fun hr => hg (by simpa using hr))
  refine ⟨?_, hon⟩
  show Reach crc V n (returned crc V fail t ++ _) p
  rw [hev, List.append_nil]
  exact h.1

/-- Without a failure an undecided turn reads the segment to its visible end. -/
theorem Track.read_to_end {t n : Nat} {p : Pos} (h : Track crc V fail t n p) (hf : fail t = false)
    (hd : ¬ Decided crc (readerAt crc V fail t)) {c : List UInt8} (hc : V t p.seg = some c) :
    (readerAt crc V fail (t + 1)).f.isSome = true ∧ (readerAt crc V fail (t + 1)).off = c.length := by
  obtain ⟨-, -, hread⟩ := turn_undecided (!fail t) h.2 hd (fun hr => by rw [hf] at hr; cases hr)
  exact hread (by rw [hf]; rfl) c hc

/-- The run `n₁`, `r₁` is not ahead of `n₂`, `r₂`: not in steps, nor, at equal steps, in what it has read. -/
def Behind (n₁ : Nat) (r₁ : SegReader) (n₂ : Nat) (r₂ : SegReader) : Prop :=
  n₁ ≤ n₂ ∧ (n₁ = n₂ → r₁.f.isSome = true → r₂.f.isSome = true ∧ r₁.off ≤ r₂.off)

theorem On.off_le {t : Nat} {r : SegReader} {p : Pos} (h : On V t r p) (hf : r.f.isSome = true) :
    ∃ c, V t p.seg = some c ∧ r.off ≤ c.length := by
  rcases h.read with ⟨hn, -⟩ | ⟨c, -, hc, -, hoff, -⟩
  · rw [hn] at hf; cases hf
  · exact ⟨c, h.seg ▸ hc, hoff⟩

/-- At one position, a run that has read no more decides no more, and decides the same. -/
theorem decode_of_behind {t : Nat} {r₁ r₂ : SegReader} {p : Pos} (h₁ : On V t r₁ p) (h₂ : On V t r₂ p)
    (hoff : r₁.off ≤ r₂.off) (hd : Decided crc r₁) (hf : r₂.f.isSome = true) :
    decodeFrame crc r₂.buf = decodeFrame crc r₁.buf := by
  rcases h₁.read with ⟨hn, -⟩ | ⟨c₁, -, hc₁, -, hle₁, hb₁⟩
  · rw [Decided, hn] at hd; cases hd.1
  rcases h₂.read with ⟨hn, -⟩ | ⟨c₂, -, hc₂, -, -, hb₂⟩
  · rw [hn] at hf; cases hf
  rw [h₁.seg] at hc₁
  rw [h₂.seg, hc₁] at hc₂
  cases hc₂
  refine decodeFrame_of_isPrefix ?_ hd.2
  rw [hb₁, hb₂]
  exact (List.take_prefix_take_left hoff).drop p.k

/-- Two decided runs at one position take the same step: both leave the segment, or both keep it open. -/
theorem isSome_of_decided {g : Nat → Bool} {t : Nat} {p : Pos} (h₁ : On V t (readerAt crc V fail t) p)
    (h₂ : On V t (readerAt crc V g t) p) (hd₁ : Decided crc (readerAt crc V fail t))
    (hd₂ : Decided crc (readerAt crc V g t))
    (hdec : decodeFrame crc (readerAt crc V g t).buf = decodeFrame crc (readerAt crc V fail t).buf)
    (hf : (readerAt crc V fail (t + 1)).f.isSome = true) :
    (readerAt crc V g (t + 1)).f.isSome = true ∧ (readerAt crc V fail (t + 1)).off = (readerAt crc V fail t).off ∧
      (readerAt crc V g (t + 1)).off = (readerAt crc V g t).off := by
  obtain ⟨_, _, -, -, -, e₁, o₁⟩ := turn_decided (viewAt V t) (!fail t) h₁ hd₁
  obtain ⟨_, _, -, -, -, e₂, o₂⟩ := turn_decided (viewAt V t) (!g t) h₂ hd₂
  have hf' : (turn crc true (!fail t) (viewAt V t) (readerAt crc V fail t)).1.f.isSome = true := hf
  have hopen : (turn crc true (!g t) (viewAt V t) (readerAt crc V g t)).1.f.isSome = true := by
    rw [e₁] at hf'
    rw [e₂, hdec]
    split at hf'
    · cases hf'
    · rename_i hne
      rw [if_neg hne]; exact hd₂.1
  exact ⟨hopen, o₁ hf, o₂ hopen⟩

/-- **The failing run stays behind the run without failures.** -/
theorem behind (hV : Grows V) (hg : ∀ t, fail t = true → ¬ MidSegment crc (readerAt crc V fail t)) :
    ∀ t, ∃ n₁ p₁ n₂ p₂, Track crc V fail t n₁ p₁ ∧ Track crc V (fun _ => false) t n₂ p₂ ∧
      Behind n₁ (readerAt crc V fail t) n₂ (readerAt crc V (fun _ => false) t)
  | 0 => ⟨0, _, 0, _, .zero, .zero, Nat.le_refl _, fun _ h => by cases h⟩
  | t + 1 => by
    obtain ⟨n₁, p₁, n₂, p₂, h₁, h₂, hle, hread⟩ := behind hV hg t
    -- A decided failing run has the other one decided, the same way, where they stand at equal steps.
    have hsame : n₁ = n₂ → Decided crc (readerAt crc V fail t) → p₁ = p₂ ∧
        Decided crc (readerAt crc V (fun _ => false) t) ∧
        decodeFrame crc (readerAt crc V (fun _ => false) t).buf = decodeFrame crc (readerAt crc V fail t).buf := by
      rintro rfl hd
      obtain ⟨-, rfl⟩ := h₁.1.unique hV h₂.1
      obtain ⟨hf₂, hoff⟩ := hread rfl hd.1
      have hdec := decode_of_behind h₁.2 h₂.2 hoff hd hf₂
      exact ⟨rfl, ⟨hf₂, by rw [hdec]; exact hd.2⟩, hdec⟩
    obtain ⟨m₁, q₁, h₁', hm₁⟩ : ∃ m₁ q₁, After crc V fail t m₁ q₁ ∧
        ((m₁ = n₁ + 1 ∧ Decided crc (readerAt crc V fail t)) ∨ m₁ = n₁) := by
      by_cases hd : Decided crc (readerAt crc V fail t)
      · obtain ⟨q, hq⟩ := h₁.decided hd
        exact ⟨_, q, hq, Or.inl ⟨rfl, hd⟩⟩
      · exact ⟨_, p₁, h₁.undecided hd (hg t), Or.inr rfl⟩
    by_cases hd₂ : Decided crc (readerAt crc V (fun _ => false) t)
    · obtain ⟨q₂, h₂'⟩ := h₂.decided hd₂
      refine ⟨m₁, q₁, n₂ + 1, q₂, h₁'.track hV, h₂'.track hV, ?_, fun heq hf => ?_⟩
      · rcases hm₁ with ⟨rfl, -⟩ | rfl <;> omega
      · rcases hm₁ with ⟨rfl, hd₁⟩ | rfl
        · have hn : n₁ = n₂ := by omega
          obtain ⟨rfl, -, hdec⟩ := hsame hn hd₁
          obtain ⟨-, hoff⟩ := hread hn hd₁.1
          obtain ⟨hopen, o₁, o₂⟩ := isSome_of_decided h₁.2 h₂.2 hd₁ hd₂ hdec hf
          exact ⟨hopen, by rw [o₁, o₂]; exact hoff⟩
        · omega
    · -- The run without failures reads to the visible end at this turn, and nobody can have read more.
      have h₂' := h₂.undecided hd₂ (fun h => by cases h)
      refine ⟨m₁, q₁, n₂, p₂, h₁'.track hV, h₂'.track hV, ?_, fun heq hf => ?_⟩
      · rcases hm₁ with ⟨rfl, hd₁⟩ | rfl
        · by_contra hgt
          exact hd₂ (hsame (by omega) hd₁).2.1
        · exact hle
      · subst heq
        obtain ⟨-, rfl⟩ := h₁'.1.unique hV h₂'.1
        obtain ⟨c, hc, hoff⟩ := h₁'.2.off_le hf
        obtain ⟨hopen, hend⟩ := h₂.read_to_end rfl hd₂ hc
        exact ⟨hopen, by rw [hend]; exact hoff⟩

theorem Track.later (hV : Grows V) (hg : ∀ t, fail t = true → ¬ MidSegment crc (readerAt crc V fail t)) {t u n : Nat}
    (htu : t ≤ u) {p : Pos} (h : Track crc V fail t n p) : ∃ m q, n ≤ m ∧ Track crc V fail u m q := by
  induction u, htu using Nat.le_induction with
  | base => exact ⟨n, p, Nat.le_refl n, h⟩
  | succ u _ ih =>
    obtain ⟨m, q, hnm, hq⟩ := ih
    by_cases hd : Decided crc (readerAt crc V fail u)
    · obtain ⟨q', hq'⟩ := hq.decided hd
      exact ⟨m + 1, q', by omega, hq'.track hV⟩
    · exact ⟨m, q, hnm, (hq.undecided hd (hg u)).track hV⟩

/-- A position short of one the path reaches has a next step. -/
theorem Reach.next (hV : Grows V) {n m : Nat} {es es' : List Event} {p p' : Pos} (h : Reach crc V n es p)
    (h' : Reach crc V m es' p') (hnm : n < m) : ∃ e q, Adv crc V p e q := by
  induction h' with
  | zero => omega
  | @succ m es' e p' q' h' ha ih =>
    by_cases hlt : n < m
    · exact ih hlt
    · obtain rfl : n = m := by omega
      obtain ⟨-, rfl⟩ := h.unique hV h'
      exact ⟨e, q', ha⟩

/-- Once the failures are over, a visible next step is taken within two turns. -/
theorem Track.progress (hV : Grows V) {t n : Nat} {p : Pos} (h : Track crc V fail t n p) (hf : fail t = false)
    {T : Nat} (hT : T ≤ t) {c₀ : List UInt8} (hc₀ : V T p.seg = some c₀)
    (hd₀ : decodeFrame crc (c₀.drop p.k) ≠ .error .incomplete) : ∃ u q, Track crc V fail u (n + 1) q := by
  by_cases hd : Decided crc (readerAt crc V fail t)
  · obtain ⟨q, hq⟩ := h.decided hd
    exact ⟨_, q, hq.track hV⟩
  obtain ⟨c, hc, hpre⟩ := hV.le hT hc₀
  have h' := h.undecided hd (fun hft => by rw [hf] at hft; cases hft)
  obtain ⟨hopen, hend⟩ := h.read_to_end hf hd hc
  have hdec : Decided crc (readerAt crc V fail (t + 1)) := by
    refine ⟨hopen, ?_⟩
    rcases h'.2.read with ⟨hn, -⟩ | ⟨c', -, hc', -, -, hbuf⟩
    · rw [hn] at hopen; cases hopen
    · rw [h'.2.seg, hc] at hc'
      cases hc'
      rw [hend, List.take_length] at hbuf
      rw [hbuf, decodeFrame_of_isPrefix (hpre.drop p.k) hd₀]
      exact hd₀
  obtain ⟨q, hq⟩ := (h'.track hV).decided hdec
  exact ⟨_, q, hq.track hV⟩

/-- **The failing run takes every step of the path that the other one takes.** -/
theorem catches_up (hV : Grows V) (hg : ∀ t, fail t = true → ¬ MidSegment crc (readerAt crc V fail t)) {N : Nat}
    (hN : ∀ t, N ≤ t → fail t = false) {m : Nat} {es : List Event} {p : Pos} (hp : Reach crc V m es p) :
    ∀ n, n ≤ m → ∃ t k q, n ≤ k ∧ Track crc V fail t k q
  | 0, _ => ⟨0, 0, _, Nat.le_refl 0, .zero⟩
  | n + 1, hn => by
    obtain ⟨t, k, q, hnk, ht⟩ := catches_up hV hg hN hp n (by omega)
    by_cases hlt : n + 1 ≤ k
    · exact ⟨t, k, q, hlt, ht⟩
    obtain rfl : n = k := by omega
    obtain ⟨e, q', T, c, hc, hfol⟩ := ht.1.next hV hp (by omega)
    obtain ⟨k', q'', hk', ht'⟩ := ht.later hV hg (u := max t (max N T)) (by omega)
    by_cases hlt : n + 1 ≤ k'
    · exact ⟨_, k', q'', hlt, ht'⟩
    obtain rfl : n = k' := by omega
    obtain ⟨-, rfl⟩ := ht.1.unique hV ht'.1
    obtain ⟨u, q', hu⟩ := ht'.progress hV (hN _ (by omega)) (T := T) (by omega) hc (ne_incomplete_of_follow hfol)
    exact ⟨u, n + 1, q', Nat.le_refl _, hu⟩

/-- **Re-opens that fail only before anything was read of the open segment are transparent.** -/
theorem reopen_transparent (crc : List UInt8 → UInt32) (V : Schedule) (fail : Nat → Bool) (hV : Grows V)
    (hfin : ∃ N, ∀ t, N ≤ t → fail t = false)
    (hg : ∀ t, fail t = true → ¬ MidSegment crc (readerAt crc V fail t)) : Transparent crc V fail := by
  obtain ⟨N, hN⟩ := hfin
  constructor
  · intro t
    obtain ⟨n₁, p₁, n₂, p₂, h₁, h₂, hle, -⟩ := behind hV hg t
    exact h₁.1.begins hV h₂.1 hle
  · intro t
    obtain ⟨_, _, m, p, -, h₂, -⟩ := behind hV hg t
    obtain ⟨t', k, q, hmk, hk⟩ := catches_up hV hg hN h₂.1 m (Nat.le_refl m)
    exact ⟨t', h₂.1.begins hV hk.1 hmk⟩

end

/-! ## A segment read halfway -/

def zeroCRC : List UInt8 → UInt32 := fun _ => 0

/-- A frame with a one-byte payload. -/
def oneByte (b : UInt8) : Frame := ⟨frameDATA, 0, 1, 0, [b]⟩

/-- Segment 0 holds one frame, visible from the start. -/
def oneFrame : Schedule := fun _ i => if i = 0 then some ((oneByte 7).encode zeroCRC) else none

theorem grows_oneFrame : Grows oneFrame := fun _ _ c hc => ⟨c, hc, List.prefix_rfl⟩

/-- **A re-open that fails after the segment was read delivers its frame a second time.** -/
theorem failed_reopen_redelivers :
    returned zeroCRC oneFrame (fun t => t == 2) 5 = [.frame (oneByte 7), .frame (oneByte 7)] ∧
      returned zeroCRC oneFrame (fun _ => false) 5 = [.frame (oneByte 7)] ∧
      ¬ Transparent zeroCRC oneFrame (fun t => t == 2) := by
  have h1 : returned zeroCRC oneFrame (fun t => t == 2) 5 = [.frame (oneByte 7), .frame (oneByte 7)] := by decide
  have h2 : returned zeroCRC oneFrame (fun _ => false) 5 = [.frame (oneByte 7)] := by decide
  refine ⟨h1, h2, fun h => ?_⟩
  have := h.1 5
  rw [h1, h2] at this
  exact absurd this (by decide)

/-- A re-open that fails at the first round of a segment delays its frame by a round. -/
theorem reopen_transparent_first :
    returned zeroCRC oneFrame (fun t => t == 0) 3 = [.frame (oneByte 7)] ∧
      Transparent zeroCRC oneFrame (fun t => t == 0) := by
  refine ⟨by decide, reopen_transparent zeroCRC oneFrame _ grows_oneFrame ⟨1, fun t ht => ?_⟩ (fun t ht => ?_)⟩
  · simp; omega
  · obtain rfl : t = 0 := by simpa using ht
    exact fun h => by cases h.1

end Fstun
end Ccb
