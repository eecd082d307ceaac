import Ccb.Chain
import Ccb.Tail
import Ccb.Fidelity
import Ccb.EndOfStream
/-!
# SegNext — one call of `segReader.next`

`next` (seglog.go) makes rounds until one of them returns something.  Over files that do not change meanwhile a round
goes on in two ways only: it has read the rest of the open file, after which the bytes in the buffer decide, or it has
followed a ROLL to the start of another segment.  So past its first two rounds the call goes from segment to segment,
two rounds each, as long as a segment begins with a ROLL (`hop`): it returns exactly when that chain ends
(`next_returns_iff`).  The index is the peer's word, and nothing keeps it from naming a segment the call has been at.
The handshake's `waitSYN` calls it until there is a SYN; the endpoint's own step takes what it returns (`waitSYN_conn`).
-/
namespace Ccb
namespace Fstun

open Machine (run)
open Chain (walk Acyclic)

/-- A finite set of segment files. -/
structure Files extends View where
  names : Finset UInt32
  named : ∀ i, (lookup i).isSome = true → i ∈ names

section
variable (crc : List UInt8 → UInt32) (netFS : Bool) (v : View)

/-- The rounds of a call of `next`, one for each outcome of a re-open; none when it has not returned after them. -/
def next : List Bool → SegReader → Option (SegReader × Turn)
  | [], _ => none
  | reopen :: l, r =>
    match turn crc netFS reopen v r with
    | (r, .again) => next l r
    | (r, t)      => some (r, t)

/-- The call returns within `n` rounds, whatever its re-opens find. -/
def Returns (n : Nat) (r : SegReader) : Prop := ∀ l : List Bool, n ≤ l.length → (next crc netFS v l r).isSome = true

/-- The segment that the first frame of segment `i` leads on to. -/
def hop (i : UInt32) : Option UInt32 :=
  match v.lookup i with
  | none => none
  | some ino =>
    match decodeFrame crc (v.bytes ino) with
    | .ok (fr, _) => if fr.typ = frameROLL then decodeUint32 fr.payload else none
    | .error _    => none

/-- At the start of a segment, with nothing read of it. -/
def SegReader.Starts (r : SegReader) : Prop := r.f = none ∧ r.buf = []

/-- Everything there is of the segment has been read. -/
def SegReader.Drained (r : SegReader) : Prop :=
  ∃ ino, r.f = some ino ∧ (v.bytes ino).length ≤ r.off ∧ (netFS = true → v.lookup r.cur = some ino)

end

section
variable {crc : List UInt8 → UInt32} {netFS : Bool} {v : View} {r r' : SegReader} {reopen : Bool}

/-! ## Rounds -/

theorem next_cons (h : turn crc netFS reopen v r = (r', .again)) (l : List Bool) :
    next crc netFS v (reopen :: l) r = next crc netFS v l r' := by
  simp only [next, h]

/-- A round that goes on leaves the rest of the call to the rounds after it. -/
theorem next_isSome_of {l : List Bool}
    (h : ∀ r', turn crc netFS reopen v r = (r', .again) → (next crc netFS v l r').isSome = true) :
    (next crc netFS v (reopen :: l) r).isSome = true := by
  rcases hturn : turn crc netFS reopen v r with ⟨r', t⟩
  cases t with
  | again => rw [next_cons hturn]; exact h r' hturn
  | frame | incomplete | notExist | corrupt | badRoll | ioError => simp only [next, hturn, Option.isSome_some]

/-- A `fill` that read something has read all there is. -/
theorem fill_grew {ino : Nat} (h : fill netFS reopen v r ino = (r', true)) :
    ∃ ino', refresh netFS reopen v r ino = some ino' ∧
      r' = { r with f := some ino', off := (v.bytes ino').length, buf := r.buf ++ (v.bytes ino').drop r.off } := by
  unfold fill at h
  split at h
  · cases h
  · rename_i ino' hre
    split at h <;> cases h
    exact ⟨ino', hre, rfl⟩

theorem refresh_net {ino ino' : Nat} (h : refresh netFS reopen v r ino = some ino') (hn : netFS = true) :
    v.lookup r.cur = some ino' := by
  subst hn
  unfold refresh at h
  simp only [if_true] at h
  split at h
  · exact h
  · cases h

/-- **A round with the segment open that goes on** has followed a ROLL or read the rest of the file. -/
theorem turnOpen_again {ino : Nat} (h : turnOpen crc netFS reopen v r ino = (r', .again)) :
    (∃ fr n, decodeFrame crc r.buf = .ok (fr, n) ∧ fr.typ = frameROLL ∧ decodeUint32 fr.payload = some r'.cur ∧
      r'.Starts) ∨
      (decodeFrame crc r.buf = .error .incomplete ∧ fill netFS reopen v r ino = (r', true)) := by
  unfold turnOpen at h
  split at h
  · rename_i fr n hdec
    dsimp only at h
    split at h
    · rename_i hty
      split at h <;> cases h
      rename_i hnext
      exact Or.inl ⟨fr, n, hdec, hty, hnext, rfl, rfl⟩
    · cases h
  · cases h
  · rename_i hdec
    split at h <;> cases h
    rename_i hfill
    exact Or.inr ⟨hdec, hfill⟩

theorem SegReader.Drained.of_fill {ino : Nat} (h : fill netFS reopen v r ino = (r', true)) : r'.Drained netFS v := by
  obtain ⟨ino', hre, rfl⟩ := fill_grew h
  exact ⟨ino', rfl, Nat.le_refl _, refresh_net hre⟩

/-- A round that goes on starts another segment or has the present one read out. -/
theorem turn_again (h : turn crc netFS reopen v r = (r', .again)) : r'.Starts ∨ r'.Drained netFS v := by
  unfold turn at h
  split at h
  · rcases turnOpen_again h with ⟨-, -, -, -, -, hs⟩ | ⟨-, hfill⟩
    · exact Or.inl hs
    · exact Or.inr (.of_fill hfill)
  · split at h
    · cases h
    · rcases turnOpen_again h with ⟨-, -, -, -, -, hs⟩ | ⟨-, hfill⟩
      · exact Or.inl hs
      · exact Or.inr (.of_fill hfill)

/-- With the file read out only a ROLL goes on, and the buffer begins with it. -/
theorem turn_drained (hd : r.Drained netFS v) (h : turn crc netFS reopen v r = (r', .again)) :
    r'.Starts ∧ ∃ fr n, decodeFrame crc r.buf = .ok (fr, n) ∧ fr.typ = frameROLL ∧
      decodeUint32 fr.payload = some r'.cur := by
  obtain ⟨ino, hf, hoff, hlook⟩ := hd
  unfold turn at h
  simp only [hf] at h
  rcases turnOpen_again h with ⟨fr, n, hdec, hty, hnext, hs⟩ | ⟨-, hfill⟩
  · exact ⟨hs, fr, n, hdec, hty, hnext⟩
  · -- the re-opened file is the same one
    have hsame : ∀ ino', refresh netFS reopen v r ino = some ino' → ino' = ino := by
      intro ino' hre
      by_cases hn : netFS = true
      · have hboth := (hlook hn).symm.trans (refresh_net hre hn)
        cases hboth
        rfl
      · unfold refresh at hre
        rw [if_neg hn] at hre
        cases hre
        rfl
    unfold fill at hfill
    split at hfill
    · cases hfill
    · rename_i ino' hre
      obtain rfl := hsame ino' hre
      rw [if_pos hoff] at hfill
      cases hfill

/-- At the start of a segment only reading its file goes on. -/
theorem turn_starts (hs : r.Starts) (h : turn crc netFS reopen v r = (r', .again)) :
    r'.Drained netFS v ∧ r'.cur = r.cur ∧ ∃ ino, v.lookup r.cur = some ino ∧ r'.buf = v.bytes ino := by
  obtain ⟨hf, hbuf⟩ := hs
  unfold turn at h
  simp only [hf] at h
  split at h
  · cases h
  · rename_i ino hlook
    rcases turnOpen_again h with ⟨fr, n, hdec, -⟩ | ⟨-, hfill⟩
    · rw [hbuf] at hdec
      cases hdec
    · refine ⟨.of_fill hfill, ?_⟩
      obtain ⟨ino', hre, rfl⟩ := fill_grew hfill
      refine ⟨rfl, ino', ?_, by rw [hbuf]; rfl⟩
      by_cases hn : netFS = true
      · exact refresh_net hre hn
      · unfold refresh at hre
        rw [if_neg hn] at hre
        cases hre
        exact hlook

/-! ## Segments -/

/-- **Two rounds from the start of a segment** that both go on have made one hop. -/
theorem turn_hop {reopen' : Bool} {r₁ r₂ : SegReader} (hs : r.Starts) (h₁ : turn crc netFS reopen v r = (r₁, .again))
    (h₂ : turn crc netFS reopen' v r₁ = (r₂, .again)) : r₂.Starts ∧ hop crc v r.cur = some r₂.cur := by
  obtain ⟨hd, -, ino, hlook, hbuf⟩ := turn_starts hs h₁
  obtain ⟨hs₂, fr, n, hdec, hty, hnext⟩ := turn_drained hd h₂
  rw [hbuf] at hdec
  refine ⟨hs₂, ?_⟩
  simp only [hop, hlook, hdec, if_pos hty, hnext]

/-- A chain of `k` hops takes two rounds each. -/
theorem returns_of_walk : ∀ (k : Nat) (r : SegReader), r.Starts → walk (hop crc v) k r.cur = none →
    Returns crc netFS v (2 * k) r
  | 0, _, _, hw => by cases hw
  | k + 1, r, hs, hw => by
    intro l hl
    match l, hl with
    | reopen :: reopen' :: l, hl =>
      refine next_isSome_of fun r₁ h₁ => next_isSome_of fun r₂ h₂ => ?_
      obtain ⟨hs₂, hhop⟩ := turn_hop hs h₁ h₂
      simp only [walk, hhop, Option.bind_some] at hw
      have hlen : 2 * k ≤ l.length := by simp only [List.length_cons] at hl; omega
      exact returns_of_walk k r₂ hs₂ hw l hlen

/-- **From any state** the call is at the start of a segment after two rounds, or has returned. -/
theorem returns_of_starts {n : Nat} (h : ∀ r : SegReader, r.Starts → Returns crc netFS v n r) (r : SegReader) :
    Returns crc netFS v (n + 2) r := by
  intro l hl
  match l, hl with
  | reopen :: reopen' :: l, hl =>
    have hlen : n ≤ l.length := by simp only [List.length_cons] at hl; omega
    refine next_isSome_of fun r₁ h₁ => ?_
    rcases turn_again h₁ with hs | hd
    · exact h r₁ hs (reopen' :: l) (by simp only [List.length_cons]; omega)
    · exact next_isSome_of fun r₂ h₂ => h r₂ (turn_drained hd h₂).1 l hlen

/-- The rounds a call over these files makes at most. -/
def Files.rounds (F : Files) : Nat := 2 * (F.names.card + 1) + 2

theorem hop_named {F : Files} {i : UInt32} (h : (hop crc F.toView i).isSome = true) : i ∈ F.names := by
  refine F.named i ?_
  unfold hop at h
  split at h
  · cases h
  · rename_i hlook
    rw [hlook]
    rfl

theorem Files.returns (netFS : Bool) {F : Files} (h : Acyclic (hop crc F.toView)) (r : SegReader) :
    Returns crc netFS F.toView F.rounds r :=
  returns_of_starts (fun r hs => returns_of_walk _ r hs (h.walk_ends F.names (fun _ => hop_named) r.cur)) r

/-- A hop is two rounds that go on, when the re-opens find the file. -/
theorem turn_of_hop (netFS : Bool) {j : UInt32} (hs : r.Starts) (h : hop crc v r.cur = some j) :
    ∃ r₁ r₂, turn crc netFS true v r = (r₁, .again) ∧ turn crc netFS true v r₁ = (r₂, .again) ∧ r₂.Starts ∧
      r₂.cur = j := by
  obtain ⟨hf, hbuf⟩ := hs
  unfold hop at h
  split at h
  · cases h
  rename_i ino hlook
  split at h
  · rename_i fr n hdec
    split at h
    · rename_i hty
      have hne : ¬ (v.bytes ino).length ≤ 0 := by
        intro hle
        rw [List.length_eq_zero_iff.1 (Nat.le_zero.1 hle)] at hdec
        cases hdec
      have hre : refresh netFS true v { r with f := some ino, off := 0, buf := [] } ino = some ino := by
        unfold refresh
        rw [hlook]
        cases netFS <;> rfl
      refine ⟨{ r with f := some ino, off := (v.bytes ino).length, buf := v.bytes ino },
        { r with cur := j, f := none, off := (v.bytes ino).length, buf := [] }, ?_, ?_, ⟨rfl, rfl⟩, rfl⟩
      · unfold turn
        simp only [hf, hlook]
        unfold turnOpen
        simp only [hbuf, show decodeFrame crc [] = .error .incomplete from rfl]
        unfold fill
        simp only [hre, if_neg hne, List.drop_zero, List.nil_append]
      · unfold turn
        simp only
        unfold turnOpen
        simp only [hdec, if_pos hty, h]
    · cases h
  · cases h

/-- **A chain without an end**: no number of rounds is enough. -/
theorem next_none_of_walk (netFS : Bool) :
    ∀ (n : Nat) (r : SegReader), r.Starts → (∀ k, (walk (hop crc v) k r.cur).isSome = true) →
    next crc netFS v (List.replicate n true) r = none
  | 0, _, _, _ => rfl
  | n + 1, r, hs, hw => by
    obtain ⟨j, hj⟩ : ∃ j, hop crc v r.cur = some j := by
      have h1 := hw 1
      cases hhop : hop crc v r.cur with
      | none => rw [walk, hhop] at h1; cases h1
      | some j => exact ⟨j, rfl⟩
    obtain ⟨r₁, r₂, h₁, h₂, hs₂, hcur⟩ := turn_of_hop netFS hs hj
    rw [List.replicate_succ, next_cons h₁]
    cases n with
    | zero => rfl
    | succ n =>
      rw [List.replicate_succ, next_cons h₂]
      refine next_none_of_walk netFS n r₂ hs₂ fun k => ?_
      have hk := hw (k + 1)
      rwa [walk, hj, Option.bind_some, ← hcur] at hk

/-- **From the start of a segment the call returns exactly when its chain of hops ends.** -/
theorem next_returns_iff (hs : r.Starts) : (∃ n, Returns crc netFS v n r) ↔ ∃ k, walk (hop crc v) k r.cur = none := by
  constructor
  · rintro ⟨n, hn⟩
    by_contra hno
    have hnone := next_none_of_walk netFS n r hs
      (fun k => Option.isSome_iff_ne_none.2 fun hk => hno ⟨k, hk⟩)
    have hsome := hn (List.replicate n true) (by rw [List.length_replicate])
    rw [hnone] at hsome
    cases hsome
  · rintro ⟨k, hk⟩
    exact ⟨2 * k, returns_of_walk k r hs hk⟩

end

/-! ## waitSYN -/

/-- `params` is the error of `decodeSynParams`. -/
inductive WaitErr where
  | notSYN (typ : FrameType)
  | params
  | reading (t : Turn)
  | timeout
  | canceled
  deriving DecidableEq, Repr

/-- What `waitSYN` returns after a call of `next` that gave `t`, if it does not keep waiting. -/
def synResult (t : Turn) : Option (Except WaitErr SynParams) :=
  match t with
  | .again | .incomplete | .notExist => none
  | .corrupt | .badRoll | .ioError => some (.error (.reading t))
  | .frame f =>
    if f.typ ≠ frameSYN then some (.error (.notSYN f.typ))
    else
      match decodeSynParams f.payload with
      | none      => some (.error .params)
      | some peer => some (.ok peer)

/-- A pass of its loop: the files, what the re-opens in its call of `next` find, and whether the clock is past the
deadline and the `select` takes the context's case after it. -/
structure Pass where
  files    : Files
  reopens  : List Bool
  late     : Bool
  canceled : Bool

/-- The passes of a call of `waitSYN`; none when it has not returned after them. -/
def waitSYN (crc : List UInt8 → UInt32) (netFS : Bool) : List Pass → SegReader → Option (Except WaitErr SynParams)
  | [], _ => none
  | p :: ps, r =>
    match next crc netFS p.files.toView p.reopens r with
    | none        => none
    | some (r, t) =>
      match synResult t with
      | some res => some res
      | none =>
        if p.late then some (.error .timeout)
        else if p.canceled then some (.error .canceled)
        else waitSYN crc netFS ps r

/-- What its calls of `next` give. -/
def waitTurns (crc : List UInt8 → UInt32) (netFS : Bool) : List Pass → SegReader → List Turn
  | [], _ => []
  | p :: ps, r =>
    match next crc netFS p.files.toView p.reopens r with
    | none        => []
    | some (r, t) =>
      if (synResult t).isSome || p.late || p.canceled then [t] else t :: waitTurns crc netFS ps r

/-- What the handshake makes of the result; a deadline or a cancelled context is its own step. -/
def Conn.synTaken (c : Conn) (now : Nat) : Except WaitErr SynParams → Conn
  | .ok peer => if protocolVersion < peer.version then c.abort else { c with phase := .up, lastRecv := now }
  | .error .timeout | .error .canceled => c
  | .error _ => c.abort

theorem waitSYN_turn (c : Conn) (t : Turn) (now : Nat) : c.waitSYN t now = (synResult t).elim c (c.synTaken now) := by
  cases t with
  | frame f =>
    unfold Conn.waitSYN synResult
    dsimp only
    by_cases hty : f.typ = frameSYN
    · rw [if_neg (not_not_intro hty), if_neg (not_not_intro hty)]
      cases decodeSynParams f.payload <;> rfl
    · rw [if_pos hty, if_pos hty]
      rfl
  | again | incomplete | notExist | corrupt | badRoll | ioError => rfl

/-- **The endpoint's handshake takes what `waitSYN` returns**: call by call it comes to the same. -/
theorem waitSYN_conn {crc : List UInt8 → UInt32} {netFS : Bool} (c : Conn) (now : Nat)
    {res : Except WaitErr SynParams} :
    ∀ (ps : List Pass) (r : SegReader), waitSYN crc netFS ps r = some res →
      (waitTurns crc netFS ps r).foldl (fun c t => c.waitSYN t now) c = c.synTaken now res
  | [], _, h => by cases h
  | p :: ps, r, h => by
    unfold waitSYN at h
    unfold waitTurns
    cases hnext : next crc netFS p.files.toView p.reopens r with
    | none => rw [hnext] at h; cases h
    | some out =>
      obtain ⟨r', t⟩ := out
      rw [hnext] at h
      dsimp only at h ⊢
      cases hres : synResult t with
      | some res' =>
        rw [hres] at h
        cases h
        rw [Option.isSome_some, Bool.true_or, Bool.true_or, if_pos rfl, List.foldl_cons, List.foldl_nil, waitSYN_turn,
          hres, Option.elim_some]
      | none =>
        -- The call leaves the endpoint as it is, and the loop goes on unless it is late or cancelled.
        have hsame : c.waitSYN t now = c := by rw [waitSYN_turn, hres, Option.elim_none]
        rw [hres] at h
        dsimp only at h
        rw [Option.isSome_none, Bool.false_or]
        cases hl : p.late with
        | true =>
          rw [hl, if_pos rfl] at h
          cases h
          rw [Bool.true_or, if_pos rfl, List.foldl_cons, List.foldl_nil, hsame]
          rfl
        | false =>
          rw [hl, if_neg Bool.false_ne_true] at h
          rw [Bool.false_or]
          cases hc : p.canceled with
          | true =>
            rw [hc, if_pos rfl] at h
            cases h
            rw [if_pos rfl, List.foldl_cons, List.foldl_nil, hsame]
            rfl
          | false =>
            rw [hc, if_neg Bool.false_ne_true] at h
            rw [if_neg Bool.false_ne_true, List.foldl_cons, hsame, waitSYN_conn c now ps r' h]

/-- The files of a pass have no chain that comes back, and its rounds are enough for the others. -/
def Pass.Ends (crc : List UInt8 → UInt32) (p : Pass) : Prop :=
  Acyclic (hop crc p.files.toView) ∧ p.files.rounds ≤ p.reopens.length

/-- **`waitSYN` gets to its deadline**: it has returned by the first pass that finds the clock past it. -/
theorem waitSYN_returns {crc : List UInt8 → UInt32} {netFS : Bool} : ∀ (ps : List Pass) (r : SegReader),
    (∀ p ∈ ps, p.Ends crc) → (∃ p ∈ ps, p.late = true) → (waitSYN crc netFS ps r).isSome = true
  | [], _, _, ⟨_, hp, _⟩ => by cases hp
  | p :: ps, r, hends, hlate => by
    obtain ⟨hac, hlen⟩ := hends p List.mem_cons_self
    obtain ⟨⟨r', t⟩, hnext⟩ := Option.isSome_iff_exists.1 (Files.returns netFS hac r p.reopens hlen)
    simp only [waitSYN, hnext]
    cases synResult t with
    | some res => rfl
    | none =>
      by_cases hp : p.late = true
      · simp only [if_pos hp, Option.isSome_some]
      · simp only [if_neg hp]
        by_cases hc : p.canceled = true
        · simp only [if_pos hc, Option.isSome_some]
        · simp only [if_neg hc]
          refine waitSYN_returns ps r' (fun q hq => hends q (List.mem_cons_of_mem _ hq)) ?_
          obtain ⟨q, hq, hql⟩ := hlate
          rcases List.mem_cons.1 hq with rfl | hq
          · exact absurd hql hp
          · exact ⟨q, hq, hql⟩

/-! ## recvLoop under Close -/

/-- An endpoint and its reader. -/
structure Attached where
  conn   : Conn
  reader : SegReader

section
variable (crc : List UInt8 → UInt32) (netFS : Bool) (v : View)

/-- A step of a goroutine of the endpoint over these files; the flag is what a re-open in it finds. -/
def Attached.step (s : Attached) (l : Act × Bool) : Option Attached :=
  match s.conn.step l.1 with
  | none => none
  | some (c, some (.next t)) =>
    if (turn crc netFS l.2 v s.reader).2 = t then some ⟨c, (turn crc netFS l.2 v s.reader).1⟩ else none
  | some (c, some .closeR) => some ⟨c, { s.reader with f := none }⟩
  | some (c, _) => some ⟨c, s.reader⟩

end

def Act.ofRecv : Act → Bool
  | .recv _ => true
  | _ => false

/-- A bound on the steps `recvLoop` has before it when the endpoint is closed, outside `next`. -/
def RecvPc.rank : RecvPc → Nat
  | .done => 0
  | .top | .fail .dead => 1
  | .poll | .sigData | .sigFlow | .fail .sigFlow => 2
  | .reap _ | .fail .sigData => 3
  | .fail (.set _) => 4
  | .dispatch _ => 5
  | .next => 0

/-- What `Close`'s wait rests on: `recvLoop` tells of its end, and `closed` is closed before the wait. -/
structure Waits (c : Conn) : Prop where
  settled : Settled c
  told    : c.rcv = .done → c.recvDone = true
  closed  : (c.clo = .waitRecv ∨ c.clo.pastWait = true) → c.closed = true

section
variable {c c' : Conn} {call : Option Call}

/-- A closed channel stays closed. -/
theorem step_closed {a : Act} (h : c.step a = some (c', call)) (hc : c.closed = true) : c'.closed = true := by
  cases Conn.step_some h with
  | hand hs => rw [(Conn.handStep_some hs).frame]; exact hc
  | read _ hs => exact (readStep_life hs).closed.trans hc
  | write _ hs => exact (writeStep_life hs).closed.trans hc
  | close _ hs =>
    cases Conn.closeStep_some hs with
    | fin ok =>
      obtain ⟨seq, he⟩ := c.emit_frame [] ok (show frameFIN ≠ frameDATA by decide)
      rw [he]
      exact hc
    | closeCh => rfl
    | call | setClosed | waitRecv | closeW | closeR | markDead => exact hc
  | recv _ hs => rw [(Conn.recvStep_some hs).frame]; exact hc
  | maint _ hs => exact (maintStep_life hs).closed.trans hc
  | deadline _ hs => exact (deadlineStep_life hs).closed.trans hc

/-- Only `recvLoop` moves `recvLoop`. -/
theorem step_rcv {a : Act} (h : c.step a = some (c', call)) (ha : a.ofRecv = false) :
    c'.rcv = c.rcv ∧ c'.recvDone = c.recvDone := by
  have hlife : c'.life = c.life → c'.rcv = c.rcv ∧ c'.recvDone = c.recvDone :=
    fun hl => ⟨congrArg (·.2.2.2) hl, congrArg (·.2.2.1) hl⟩
  cases Conn.step_some h with
  | hand hs => rw [(Conn.handStep_some hs).frame]; exact ⟨rfl, rfl⟩
  | read _ hs => exact hlife (readStep_life hs).life
  | write _ hs => exact hlife (writeStep_life hs).life
  | close _ hs => rw [(Conn.closeStep_some hs).frame]; exact ⟨rfl, rfl⟩
  | recv => cases ha
  | maint _ hs => exact hlife (maintStep_life hs).life
  | deadline _ hs => exact hlife (deadlineStep_life hs).life

theorem recv_of_step {a : RecvAct} (h : c.step (.recv a) = some (c', call)) :
    c.phase = .up ∧ c.recvStep a = some (c', call) := by
  cases Conn.step_some h with
  | recv hup hs => exact ⟨hup, hs⟩

/-- Past the handshake only `recvLoop` reads. -/
theorem next_only_recv {a : Act} {u : Turn} (hup : c.phase = .up) (ha : a.ofRecv = false) :
    c.step a ≠ some (c', some (.next u)) := by
  intro h
  have hsends : ¬ Sends (some (.next u)) := by
    intro hl
    obtain ⟨f, e, ok, hx⟩ := hl _ rfl
    cases hx
  cases Conn.step_some h with
  | hand hs => exact (Conn.handStep_some hs).not_up hup
  | read _ hs => exact hsends (readStep_life hs).sends
  | write _ hs => exact hsends (writeStep_life hs).sends
  | close _ hs =>
    generalize hcall : some (Call.next u) = call at hs
    cases Conn.closeStep_some hs with
    | fin ok => exact hsends (hcall ▸ emit_sends frameFIN [] ok)
    | _ => cases hcall
  | recv => cases ha
  | maint _ hs => exact hsends (maintStep_life hs).sends
  | deadline _ hs => exact hsends (deadlineStep_life hs).sends

/-- `recvLoop`'s own steps: its end is its return. -/
theorem recvStep_told {a : RecvAct} (h : c.recvStep a = some (c', call)) (hd : c'.rcv = .done) :
    c'.recvDone = true := by
  cases Conn.recvStep_some h with
  | next t now hn => cases t <;> first | cases hd | cases hn.symm.trans hd
  | dispatch f =>
    unfold Conn.dispatch at hd
    (repeat' split at hd) <;> cases hd
  | stop | failed | polled => rfl
  | top | sigData | sigFlow | fail | poll | reap => cases hd

theorem Waits.step {a : Act} (h : Waits c) (hs : c.step a = some (c', call)) : Waits c' := by
  refine ⟨(h.settled.step hs).settled, fun hd => ?_, fun hw => ?_⟩
  · by_cases ha : a.ofRecv = true
    · cases a with
      | recv b => exact recvStep_told (recv_of_step hs).2 hd
      | hand | read | write | close | maint | deadline => cases ha
    · obtain ⟨hrcv, hdone⟩ := step_rcv hs (Bool.not_eq_true _ ▸ ha)
      rw [hdone]
      exact h.told (hrcv.symm.trans hd)
  · rcases step_clo hs with hclo | ⟨b, -, hclose⟩
    · rw [hclo] at hw
      exact step_closed hs (h.closed hw)
    · -- `Close` comes to its wait from the step that closes the channel
      cases Conn.closeStep_some hclose with
      | call | fin | setClosed => rcases hw with hw | hw <;> cases hw
      | closeCh => rfl
      | waitRecv ok hc => exact step_closed hs (h.closed (.inl hc))
      | closeW ok hc | closeR ok hc | markDead ok hc => exact step_closed hs (h.closed (.inr (by rw [hc]; rfl)))

theorem Waits.fresh (p : Params) (idle : Nat) : Waits { params := p, idleTimeout := idle } :=
  ⟨⟨fun _ => rfl, fun h => (by cases h), fun h => (by cases h)⟩, fun h => (by cases h),
    fun h => (by rcases h with h | h <;> cases h)⟩

theorem Waits.move {a : Act} (h : Waits c) (hm : c.move a = some c') : Waits c' := by
  obtain ⟨⟨c₁, call⟩, hs, rfl⟩ := Option.map_eq_some_iff.1 hm
  exact h.step hs

end

section
variable {crc : List UInt8 → UInt32} {netFS : Bool} {v : View} {s t : Attached} {m : Nat}

/-- **`recvLoop` has at most `m` steps before it**, when the endpoint is closed. -/
def Attached.Due (crc : List UInt8 → UInt32) (netFS : Bool) (v : View) (m : Nat) (s : Attached) : Prop :=
  if s.conn.rcv = .next then ∃ n, Returns crc netFS v n s.reader ∧ n + 5 ≤ m else s.conn.rcv.rank ≤ m

theorem Attached.Due.of_rank (hn : s.conn.rcv ≠ .next) (h : s.conn.rcv.rank ≤ m) : s.Due crc netFS v m := by
  unfold Attached.Due
  rw [if_neg hn]
  exact h

theorem Attached.Due.rank_le (h : s.Due crc netFS v m) (hn : s.conn.rcv ≠ .next) : s.conn.rcv.rank ≤ m := by
  unfold Attached.Due at h
  rwa [if_neg hn] at h

/-- A round uses one up. -/
theorem Returns.turn {n : Nat} {r r' : SegReader} {reopen : Bool} (h : Returns crc netFS v (n + 1) r)
    (ht : turn crc netFS reopen v r = (r', .again)) : Returns crc netFS v n r' := by
  intro l hl
  have hnext := h (reopen :: l) (by rw [List.length_cons]; omega)
  rwa [next_cons ht] at hnext

theorem Returns.pos {n : Nat} {r : SegReader} (h : Returns crc netFS v n r) : 0 < n := by
  cases n with
  | zero => cases h [] (Nat.le_refl 0)
  | succ n => exact Nat.succ_pos n

/-- A step of the endpoint, and what it does to the reader. -/
theorem Attached.step_some {l : Act × Bool} (h : s.step crc netFS v l = some t) :
    ∃ call, s.conn.step l.1 = some (t.conn, call) ∧
      ((∃ u, call = some (.next u) ∧ turn crc netFS l.2 v s.reader = (t.reader, u)) ∨
        call = some .closeR ∨ (t.reader = s.reader ∧ ∀ u, call ≠ some (.next u))) := by
  unfold Attached.step at h
  split at h
  · cases h
  · rename_i c u hc
    split at h <;> cases h
    rename_i hu
    exact ⟨_, hc, .inl ⟨u, rfl, Prod.ext rfl hu⟩⟩
  · rename_i c hc
    cases h
    exact ⟨_, hc, .inr (.inl rfl)⟩
  · rename_i c call hnext _ hc
    cases h
    exact ⟨_, hc, .inr (.inr ⟨rfl, fun u hu => hnext u hu⟩)⟩

theorem dispatch_rank (c : Conn) (f : Frame) : (c.dispatch f).rcv ≠ .next ∧ (c.dispatch f).rcv.rank ≤ 4 := by
  unfold Conn.dispatch
  (repeat' split) <;> exact ⟨fun h => (by cases h), Nat.le_of_ble_eq_true rfl⟩

theorem received_rank (c : Conn) {u : Turn} (hu : u ≠ .again) (now : Nat) :
    (c.received u now).rcv ≠ .next ∧ (c.received u now).rcv.rank ≤ 5 := by
  cases u with
  | again => exact absurd rfl hu
  | frame | incomplete | notExist | corrupt | badRoll | ioError =>
    exact ⟨fun h => (by cases h), Nat.le_of_ble_eq_true rfl⟩

/-- **A step of `recvLoop` outside `next` goes down in rank**, once the endpoint is closed. -/
theorem recvStep_rank {c c' : Conn} {a : RecvAct} {call : Option Call} (hcl : c.closed = true) (hn : c.rcv ≠ .next)
    (h : c.recvStep a = some (c', call)) : c'.rcv ≠ .next ∧ c'.rcv.rank + 1 ≤ c.rcv.rank := by
  cases Conn.recvStep_some h with
  | top hr hopen => cases hopen.symm.trans hcl
  | next t now hr => exact absurd hr hn
  | dispatch f hr =>
    rw [hr]
    exact ⟨(dispatch_rank c f).1, Nat.succ_le_succ (dispatch_rank c f).2⟩
  | fail p hr hf | failed p hr hf =>
    rw [hr]
    cases p <;> cases hf <;> exact ⟨fun h => (by cases h), Nat.le_of_ble_eq_true rfl⟩
  | stop hr | sigData hr | sigFlow hr | poll hr | polled hr | reap ack hr =>
    rw [hr]
    exact ⟨fun h => (by cases h), Nat.le_of_ble_eq_true rfl⟩

/-- A step of `recvLoop` uses one up. -/
theorem Attached.Due.recv {a : RecvAct} {reopen : Bool} (h : s.Due crc netFS v m) (hcl : s.conn.closed = true)
    (hs : s.step crc netFS v (.recv a, reopen) = some t) : ∃ m', m = m' + 1 ∧ t.Due crc netFS v m' := by
  obtain ⟨call, hc, hread⟩ := Attached.step_some hs
  obtain ⟨-, hrecv⟩ := recv_of_step hc
  by_cases hn : s.conn.rcv = .next
  · -- a round of `next`
    unfold Attached.Due at h
    rw [if_pos hn] at h
    obtain ⟨n, hret, hm⟩ := h
    obtain ⟨n, rfl⟩ := Nat.exists_eq_succ_of_ne_zero (Nat.pos_iff_ne_zero.1 hret.pos)
    refine ⟨m - 1, by omega, ?_⟩
    have hturn : ∃ u now, t.conn = s.conn.received u now ∧ call = some (.next u) := by
      generalize t.conn = c' at hrecv
      cases Conn.recvStep_some hrecv with
      | next u now => exact ⟨u, now, rfl, rfl⟩
      | stop hr | top hr | dispatch _ hr | sigData hr | sigFlow hr | fail _ hr | failed _ hr | poll hr | polled hr
      | reap _ hr => cases hn.symm.trans hr
    obtain ⟨u, now, hconn, rfl⟩ := hturn
    rcases hread with ⟨u', hu', hturn⟩ | hclose | ⟨-, hno⟩
    · cases hu'
      by_cases hag : u = .again
      · subst hag
        unfold Attached.Due
        rw [hconn, if_pos (show (s.conn.received .again now).rcv = .next from hn)]
        exact ⟨n, hret.turn hturn, by omega⟩
      · have hr := received_rank s.conn hag now
        rw [← hconn] at hr
        exact .of_rank hr.1 (by omega)
    · cases hclose
    · exact absurd rfl (hno u)
  · obtain ⟨hne, hlt⟩ := recvStep_rank hcl hn hrecv
    have hrank := h.rank_le hn
    exact ⟨m - 1, by omega, .of_rank hne (by omega)⟩

/-- A step of another goroutine takes none away. -/
theorem Attached.Due.other {l : Act × Bool} (h : s.Due crc netFS v m) (hw : Waits s.conn) (hup : s.conn.phase = .up)
    (hl : l.1.ofRecv = false) (hs : s.step crc netFS v l = some t) : t.Due crc netFS v m := by
  obtain ⟨call, hc, hread⟩ := Attached.step_some hs
  obtain ⟨hrcv, -⟩ := step_rcv hc hl
  have hlife := hw.settled.step hc
  by_cases hn : s.conn.rcv = .next
  · -- nobody else uses the reader, and `Close` closes it only after the loop is over
    rcases hread with ⟨u, rfl, -⟩ | rfl | ⟨hsame, -⟩
    · exact absurd hc (next_only_recv hup hl)
    · have hshut := hlife.closeR rfl
      have hup' : t.conn.phase = .up := (step_core hc).up hup
      have hpast : t.conn.clo.pastWait = true := by
        unfold Conn.shut at hshut
        rw [hup'] at hshut
        cases hclo : t.conn.clo <;> rw [hclo] at hshut <;> first | rfl | cases hshut
      have hdone := hlife.settled.past hpast
      rw [hrcv, hn] at hdone
      cases hdone
    · unfold Attached.Due at h ⊢
      rw [hrcv, hsame]
      exact h
  · have hrank := h.rank_le hn
    refine .of_rank (by rw [hrcv]; exact hn) (by rw [hrcv]; exact hrank)

/-- **In every run of a closed endpoint `recvLoop` takes at most as many steps as it has before it.** -/
theorem Attached.Due.run : ∀ (ls : List (Act × Bool)) (m : Nat) (s u : Attached), s.Due crc netFS v m → Waits s.conn →
    s.conn.phase = .up → s.conn.closed = true → run (Attached.step crc netFS v) s ls = some u →
    ls.countP (fun l => l.1.ofRecv) ≤ m ∧ Waits u.conn ∧ u.conn.phase = .up ∧ u.conn.closed = true
  | [], m, s, u, _, hw, hup, hcl, hr => by
    simp only [Machine.run, Option.some.injEq] at hr
    subst hr
    exact ⟨Nat.zero_le m, hw, hup, hcl⟩
  | l :: ls, m, s, u, hd, hw, hup, hcl, hr => by
    obtain ⟨t, hs, hr⟩ := Machine.run_cons hr
    obtain ⟨call, hc, -⟩ := Attached.step_some hs
    have hgoes : ∀ {m'}, t.Due crc netFS v m' → _ := fun hd' =>
      Attached.Due.run ls _ t u hd' (hw.step hc) ((step_core hc).up hup) (step_closed hc hcl) hr
    rw [List.countP_cons]
    cases hl : l.1.ofRecv with
    | false =>
      rw [if_neg Bool.false_ne_true]
      exact hgoes (hd.other hw hup hl hs)
    | true =>
      obtain ⟨a, reopen⟩ := l
      cases a with
      | recv a =>
        obtain ⟨m', rfl, hd'⟩ := hd.recv hcl hs
        rw [if_pos rfl]
        exact ⟨Nat.succ_le_succ (hgoes hd').1, (hgoes hd').2⟩
      | hand | read | write | close | maint | deadline => cases hl

/-- A round of `recvLoop`'s call of `next`. -/
theorem Attached.step_turn {reopen : Bool} {r' : SegReader} {u : Turn} (hup : s.conn.phase = .up)
    (hn : s.conn.rcv = .next) (ht : turn crc netFS reopen v s.reader = (r', u)) (now : Nat) :
    s.step crc netFS v (.recv (.turn u now), reopen) = some ⟨s.conn.received u now, r'⟩ := by
  have hc : s.conn.step (.recv (.turn u now)) = some (s.conn.received u now, some (.next u)) := by
    unfold Conn.step
    rw [hup]
    dsimp only
    unfold Conn.recvStep
    rw [hn]
  unfold Attached.step
  simp only [hc, ht, if_true]

/-- `recvLoop` can always go on until it is done. -/
theorem Attached.recv_enabled (s : Attached) (hup : s.conn.phase = .up) (hd : s.conn.rcv ≠ .done) :
    ∃ l t, l.1.ofRecv = true ∧ s.step crc netFS v l = some t := by
  by_cases hn : s.conn.rcv = .next
  · exact ⟨(.recv (.turn (turn crc netFS true v s.reader).2 0), true), _, rfl, s.step_turn hup hn rfl 0⟩
  · have hgo : ∃ c call, s.conn.recvStep .go = some (c, call) ∧ (∀ u, call ≠ some (.next u)) ∧ call ≠ some .closeR := by
      unfold Conn.recvStep
      cases hrcv : s.conn.rcv with
      | done => exact absurd hrcv hd
      | next => exact absurd hrcv hn
      | fail p =>
        cases p <;> exact ⟨_, _, rfl, fun u h => (by cases h), fun h => (by cases h)⟩
      | top | dispatch | reap | sigData | sigFlow | poll =>
        exact ⟨_, _, rfl, fun u h => (by cases h), fun h => (by cases h)⟩
    obtain ⟨c, call, hgo, hnext, hclose⟩ := hgo
    have hc : s.conn.step (.recv .go) = some (c, call) := by
      unfold Conn.step
      rw [hup]
      exact hgo
    refine ⟨(.recv .go, true), ⟨c, s.reader⟩, rfl, ?_⟩
    unfold Attached.step
    simp only [hc]

/-- The call ends with a round that does not go on. -/
theorem next_ne_again : ∀ (l : List Bool) (r : SegReader) {r' : SegReader} {t : Turn},
    next crc netFS v l r = some (r', t) → t ≠ .again
  | [], _, _, _, h => by cases h
  | reopen :: l, r, r', t, h => by
    rcases hturn : turn crc netFS reopen v r with ⟨r₁, t₁⟩
    cases t₁ with
    | again => rw [next_cons hturn] at h; exact next_ne_again l r₁ h
    | frame | incomplete | notExist | corrupt | badRoll | ioError =>
      simp only [next, hturn, Option.some.injEq, Prod.mk.injEq] at h
      rw [← h.2]
      exact fun h => (by cases h)

/-- Where the call returns from the start of every segment, the ROLLs lead back nowhere. -/
theorem acyclic_of_returns {F : Files} (h : ∀ r : SegReader, r.Starts → ∃ n, Returns crc netFS F.toView n r) :
    Acyclic (hop crc F.toView) := by
  intro i k hback
  obtain ⟨m, hm⟩ := (next_returns_iff (r := ⟨i, none, 0, []⟩) ⟨rfl, rfl⟩).1 (h ⟨i, none, 0, []⟩ ⟨rfl, rfl⟩)
  have hsome := Chain.walk_cycle hback m
  rw [hm] at hsome
  cases hsome

end

/-! ## Termination -/

/-- **`next` returns exactly over files whose ROLLs do not lead back**: from the start of every segment, and then from
every state of the reader.  So over such files `waitSYN` returns by the first pass past its deadline, and once `Close`
waits `recvLoop` has a bounded number of steps before it, can always take the next one, and tells `Close` of its end. -/
theorem next_terminates (crc : List UInt8 → UInt32) (netFS : Bool) (F : Files) :
    (Acyclic (hop crc F.toView) ↔ ∀ r : SegReader, r.Starts → ∃ n, Returns crc netFS F.toView n r) ∧
    (Acyclic (hop crc F.toView) → ∀ r : SegReader,
      (∀ l : List Bool, F.rounds ≤ l.length → ∃ r' t, next crc netFS F.toView l r = some (r', t) ∧ t ≠ .again) ∧
      (∀ ps : List Pass, (∀ p ∈ ps, p.Ends crc) → (∃ p ∈ ps, p.late = true) → (waitSYN crc netFS ps r).isSome = true) ∧
      ∀ (p : Params) (idle : Nat) (as : List Act) (c : Conn),
        run Conn.move { params := p, idleTimeout := idle } as = some c → c.clo = .waitRecv →
        ∀ ls u, run (Attached.step crc netFS F.toView) ⟨c, r⟩ ls = some u →
          ls.countP (fun l => l.1.ofRecv) ≤ F.rounds + 5 ∧
            (u.conn.recvDone = true ∨ ∃ l t, l.1.ofRecv = true ∧ u.step crc netFS F.toView l = some t)) := by
  refine ⟨⟨fun h r _ => ⟨F.rounds, Files.returns netFS h r⟩, acyclic_of_returns⟩, fun h r => ⟨fun l hl => ?_,
    fun ps hends hlate => waitSYN_returns ps r hends hlate, fun p idle as c hrun hclo ls u hr => ?_⟩⟩
  · obtain ⟨⟨r', t⟩, hnext⟩ := Option.isSome_iff_exists.1 (Files.returns netFS h r l hl)
    exact ⟨r', t, hnext, next_ne_again l r hnext⟩
  · have hw : Waits c :=
      Machine.inv_of_step (fun _ _ _ hw hm => hw.move hm) as _ c (Waits.fresh p idle) hrun
    have hup : c.phase = .up := by
      by_contra hne
      cases hclo.symm.trans (hw.settled.early hne)
    have hdue : Attached.Due crc netFS F.toView (F.rounds + 5) ⟨c, r⟩ := by
      unfold Attached.Due
      split
      · exact ⟨F.rounds, Files.returns _ h r, Nat.le_refl _⟩
      · refine Nat.le_trans ?_ (Nat.le_add_left 5 _)
        show c.rcv.rank ≤ 5
        unfold RecvPc.rank
        split <;> decide
    obtain ⟨hcount, hwu, hupu, -⟩ := hdue.run ls _ ⟨c, r⟩ u hw hup (hw.closed (.inl hclo)) hr
    refine ⟨hcount, ?_⟩
    by_cases hd : u.conn.rcv = .done
    · exact .inl (hwu.told hd)
    · exact .inr (u.recv_enabled hupu hd)

/-- The files whose frames these are, segment by segment. -/
def filesOf (segs : List (List Frame)) : Files where
  lookup i := if i.toNat < segs.length then some i.toNat else none
  bytes ino := encodes crc32c (segs.getD ino [])
  names := (Finset.range segs.length).image UInt32.ofNat
  named i h := by
    split at h
    · rename_i hi
      exact Finset.mem_image.2 ⟨i.toNat, Finset.mem_range.2 hi, UInt32.ofNat_toNat⟩
    · cases h

theorem next_terminates_chain :
    ∃ r' t, next crc32c true (filesOf [[rollFrame 1], [rollFrame 2]]).toView (List.replicate 8 true) newSegReader = some
      (r', t) ∧ t ≠ .again := by
  have hlt : ∀ i j, hop crc32c (filesOf [[rollFrame 1], [rollFrame 2]]).toView i = some j → i.toNat < j.toNat := by
    intro i j hij
    have hcases : i = 0 ∨ i = 1 := by
      obtain ⟨k, hk, rfl⟩ := Finset.mem_image.1 (hop_named (by rw [hij]; rfl))
      have hk : k = 0 ∨ k = 1 := by
        have hlt : k < 2 := Finset.mem_range.1 hk
        omega
      rcases hk with rfl | rfl
      · exact Or.inl rfl
      · exact Or.inr rfl
    rcases hcases with rfl | rfl
    · have h0 : hop crc32c (filesOf [[rollFrame 1], [rollFrame 2]]).toView 0 = some 1 := by decide +kernel
      rw [h0] at hij
      cases hij
      decide
    · have h1 : hop crc32c (filesOf [[rollFrame 1], [rollFrame 2]]).toView 1 = some 2 := by decide +kernel
      rw [h1] at hij
      cases hij
      decide
  have hcard : (filesOf [[rollFrame 1], [rollFrame 2]]).rounds = 8 := by decide
  exact ((next_terminates crc32c true _).2 (.of_lt hlt) newSegReader).1 _ (by rw [hcard, List.length_replicate])

/-! ## A ROLL that leads back -/

/-- A reader whose call does not return goes on with every round. -/
theorem turn_of_endless {crc : List UInt8 → UInt32} {netFS : Bool} {v : View} {r : SegReader}
    (h : ∀ n, next crc netFS v (List.replicate n true) r = none) :
    ∃ r', turn crc netFS true v r = (r', .again) ∧ ∀ n, next crc netFS v (List.replicate n true) r' = none := by
  rcases hturn : turn crc netFS true v r with ⟨r', t⟩
  have h1 := h 1
  cases t with
  | again => exact ⟨r', rfl, fun n => by rw [← next_cons hturn, ← List.replicate_succ]; exact h (n + 1)⟩
  | frame | incomplete | notExist | corrupt | badRoll | ioError =>
    simp only [List.replicate_one, next, hturn, reduceCtorEq] at h1

/-- `recvLoop` in such a call never comes out of it. -/
theorem recv_endless {crc : List UInt8 → UInt32} {netFS : Bool} {v : View} : ∀ (n : Nat) (s : Attached),
    s.conn.phase = .up → s.conn.rcv = .next → (∀ n, next crc netFS v (List.replicate n true) s.reader = none) →
    ∃ r', run (Attached.step crc netFS v) s (List.replicate n (.recv (.turn .again 0), true)) = some ⟨s.conn, r'⟩
  | 0, s, _, _, _ => ⟨s.reader, rfl⟩
  | n + 1, s, hup, hn, hend => by
    obtain ⟨r', hturn, hend'⟩ := turn_of_endless hend
    obtain ⟨r'', hrun⟩ := recv_endless n ⟨s.conn, r'⟩ hup hn hend'
    refine ⟨r'', ?_⟩
    rw [List.replicate_succ, run, s.step_turn hup hn hturn 0]
    exact hrun

/-- The peer's direction: its SYN and a ROLL to segment 1, and in segment 1 a ROLL to segment 1. -/
def looped : Files := filesOf [[tiny.syn, rollFrame 1], [rollFrame 1]]

/-- The handshake, the call of `next` that follows the first ROLL, and a `Close` up to its wait. -/
def closing : List (Act × Bool) :=
  [(.hand (.openW true), true), (.hand (.syn true), true), (.hand (.turn .again 0), true),
    (.hand (.turn (.frame tiny.syn) 0), true), (.recv .go, true), (.recv (.turn .again 0), true), (.close .call, true),
    (.close (.go true), true), (.close (.go true), true), (.close (.go true), true)]

/-- **A segment that begins with a ROLL to itself**: a call of `next` that comes to it makes rounds for ever.  When it
is the first segment `waitSYN` does not get to look at its deadline; when the peer rolls to it later, `Close` waits for
a `recvLoop` that is never done. -/
theorem roll_to_itself_loops :
    (∀ netFS n, next crc32c netFS (filesOf [[rollFrame 0]]).toView (List.replicate n true) newSegReader = none ∧
      ∀ late canceled rest,
        waitSYN crc32c netFS (⟨filesOf [[rollFrame 0]], List.replicate n true, late, canceled⟩ :: rest) newSegReader =
          none) ∧
    ∃ s, run (Attached.step crc32c false looped.toView) ⟨{ params := tiny, idleTimeout := 0 }, newSegReader⟩ closing =
      some s ∧ s.conn.clo = .waitRecv ∧ s.conn.closed = true ∧
      ∀ n, ∃ t, run (Attached.step crc32c false looped.toView) s (List.replicate n (.recv (.turn .again 0), true)) =
        some t ∧ t.conn.clo = .waitRecv ∧ t.conn.recvDone = false := by
  constructor
  · have hhop : hop crc32c (filesOf [[rollFrame 0]]).toView 0 = some 0 := by decide +kernel
    have hwalk : walk (hop crc32c (filesOf [[rollFrame 0]]).toView) (0 + 1) 0 = some 0 := by
      rw [walk, hhop]
      rfl
    intro netFS n
    have hnone := next_none_of_walk netFS n newSegReader ⟨rfl, rfl⟩ (Chain.walk_cycle hwalk)
    refine ⟨hnone, fun late canceled rest => ?_⟩
    simp only [waitSYN, hnone]
  · have hrun : (run (Attached.step crc32c false looped.toView) ⟨{ params := tiny, idleTimeout := 0 }, newSegReader⟩
        closing).map (fun s => (s.conn.life, s.conn.closed, s.reader)) =
        some ((.up, .waitRecv, false, .next), true, ⟨1, none, 78, []⟩) := by decide +kernel
    obtain ⟨s, hs, hfacts⟩ := Option.map_eq_some_iff.1 hrun
    simp only [Conn.life, Prod.mk.injEq] at hfacts
    obtain ⟨⟨hup, hclo, hdone, hn⟩, hcl, hr⟩ := hfacts
    have hhop : hop crc32c looped.toView 1 = some 1 := by decide +kernel
    have hwalk : walk (hop crc32c looped.toView) (0 + 1) s.reader.cur = some s.reader.cur := by
      rw [hr, walk, hhop]
      rfl
    refine ⟨s, hs, hclo, hcl, fun n => ?_⟩
    obtain ⟨r', hr'⟩ := recv_endless n s hup hn
      (fun n => next_none_of_walk false n s.reader (by rw [hr]; exact ⟨rfl, rfl⟩) (Chain.walk_cycle hwalk))
    exact ⟨_, hr', hclo, hdone⟩

end Fstun
end Ccb
