import Ccb.Reap
import Ccb.Tail
/-!
# EmitFail — an `emit` that returns an error

`emit` numbers its frame and counts its DATA bytes before `append` writes it (conn.go), and `append` may have written a
ROLL, closed a file and gone on to the next index before the operation that fails (seglog.go).  A `Sender` is the send
side of an endpoint with the files of its direction; its file operations may fail at any point.

Only a refusal by the closed send side leaves the counters as they were.  The files still decode to the frames sent as
long as a write that fails leaves no byte (`Standing`), and the offsets still count the bytes sent as long as no DATA
frame is lost (`Counted`).
-/
namespace Ccb
namespace Fstun

open Machine (run Meets inv_of_meets)

/-! ## Decoding a direction -/

section
variable (crc : List UInt8 → UInt32)

/-- The frames from a place of a file on, and where they end, for a reader that sees every file; `none` is a file that
is not there. -/
def decodeFrom (files : List (List UInt8)) : Nat → Option (List UInt8) → List Frame × Turn
  | _, none         => ([], .notExist)
  | 0, some _       => ([], .again)
  | n + 1, some buf =>
    match decodeFrame crc buf with
    | .error .corrupt    => ([], .corrupt)
    | .error .incomplete => ([], .incomplete)
    | .ok (f, len) =>
      if f.typ = frameROLL then
        match decodeUint32 f.payload with
        | none      => ([], .badRoll)
        | some next => decodeFrom files n files[next.toNat]?
      else Prod.map (f :: ·) id (decodeFrom files n (some (buf.drop len)))

/-- What was ever written to a direction, decoded from its first segment on. -/
def SegDir.decode (d : SegDir) : List Frame × Turn := decodeFrom crc d.files (d.files.flatten.length + 1) d.files[0]?

/-! ## The send side -/

/-- The send side of an endpoint and the files of its direction; `sent` is the frames whose `emit` returned no error. -/
structure Sender where
  conn : Conn
  dir  : SegDir
  sent : List Frame := []

def Sender.emit (s : Sender) (typ : FrameType) (payload : List UInt8) (io : SegIo) : Sender × Bool :=
  match (s.conn.emit typ payload true).2.1 with
  | some (.append f dataEnd _) =>
    let (d, ok) := s.dir.append crc io f dataEnd
    (⟨(s.conn.emit typ payload ok).1, d, if ok then s.sent ++ [f] else s.sent⟩, ok)
  | _ => (⟨(s.conn.emit typ payload false).1, s.dir, s.sent⟩, false)

/-- What happens to the send side: an `emit` and whether it returned no error, the two parts of `Close` that concern it,
and the reap of an ACK. -/
inductive SendOp where
  | emit (typ : FrameType) (payload : List UInt8) (io : SegIo) (ok : Bool)
  | setClosed
  | reap (ack : UInt64)
  | closeW
  deriving DecidableEq

def Sender.step (s : Sender) : SendOp → Option Sender
  | .emit typ payload io ok =>
    let (t, done) := s.emit crc typ payload io
    if done = ok then some t else none
  | .setClosed => some { s with conn := { s.conn with sendClosed := true } }
  | .reap ack  => some { s with dir := s.dir.reap ack }
  | .closeW    => some { s with dir := { s.dir with closed := true } }

end

/-- The closed send side takes a FIN or an ERROR only. -/
def Conn.Refuses (c : Conn) (typ : FrameType) : Prop := c.sendClosed = true ∧ typ ≠ frameFIN ∧ typ ≠ frameError

instance (c : Conn) (typ : FrameType) : Decidable (c.Refuses typ) :=
  inferInstanceAs (Decidable (c.sendClosed = true ∧ typ ≠ frameFIN ∧ typ ≠ frameError))

/-- A write that fails leaves no byte. -/
structure SegIo.Bare (io : SegIo) : Prop where
  roll : ∀ n ∈ io.rollFails, n = 0
  put  : ∀ n ∈ io.fails, n = 0

instance (io : SegIo) : Decidable io.Bare :=
  decidable_of_iff ((∀ n ∈ io.rollFails, n = 0) ∧ ∀ n ∈ io.fails, n = 0)
    ⟨fun ⟨h1, h2⟩ => ⟨h1, h2⟩, fun ⟨h1, h2⟩ => ⟨h1, h2⟩⟩

/-- An `emit` that is not refused has a frame a reader takes, is below the last segment index, and leaves no byte of a
write that fails. -/
def Sender.Bare (crc : List UInt8 → UInt32) (s : Sender) : SendOp → Prop
  | .emit typ payload io ok => ¬s.conn.Refuses typ →
    (typ ≠ frameROLL ∧ payload.length ≤ maxPayload) ∧ s.dir.Fits crc (.append (s.conn.core.frame typ payload) 0 true) ∧
      (ok = false → io.Bare)
  | .setClosed | .reap _ | .closeW => True

/-- An `emit` of a DATA frame succeeds or is refused. -/
def Sender.Keeps (s : Sender) : SendOp → Prop
  | .emit typ _ _ ok => ok = false → typ = frameDATA → s.conn.Refuses typ
  | .setClosed | .reap _ | .closeW => True

instance (crc : List UInt8 → UInt32) (s : Sender) (op : SendOp) : Decidable (s.Bare crc op) :=
  match op with
  | .emit typ payload io ok => inferInstanceAs (Decidable (¬s.conn.Refuses typ →
      (typ ≠ frameROLL ∧ payload.length ≤ maxPayload) ∧
      s.dir.Fits crc (.append (s.conn.core.frame typ payload) 0 true) ∧
        (ok = false → io.Bare)))
  | .setClosed | .reap _ | .closeW => .isTrue trivial

instance (s : Sender) (op : SendOp) : Decidable (s.Keeps op) :=
  match op with
  | .emit typ _ _ ok => inferInstanceAs (Decidable (ok = false → typ = frameDATA → s.conn.Refuses typ))
  | .setClosed | .reap _ | .closeW => .isTrue trivial

variable {crc : List UInt8 → UInt32} {d d' : SegDir} {pre : List (List Frame)} {last log : List Frame} {io : SegIo}

/-! ### What an `emit` comes to -/

variable {s t : Sender} {typ : FrameType} {payload : List UInt8}

theorem Sender.emit_of_refuses (h : s.conn.Refuses typ) : s.emit crc typ payload io = (s, false) := by
  have hc : ∀ ok, s.conn.emit typ payload ok = (s.conn, none, false) := fun ok => if_pos h
  unfold Sender.emit
  rw [hc, hc]

theorem Sender.emit_of_not_refuses (h : ¬s.conn.Refuses typ) :
    s.emit crc typ payload io =
      (⟨s.conn.stamp typ payload,
        (s.dir.append crc io (s.conn.core.frame typ payload) (s.conn.stamp typ payload).sentData).1,
        if (s.dir.append crc io (s.conn.core.frame typ payload) (s.conn.stamp typ payload).sentData).2 then
          s.sent ++ [s.conn.core.frame typ payload] else s.sent⟩,
        (s.dir.append crc io (s.conn.core.frame typ payload) (s.conn.stamp typ payload).sentData).2) := by
  have hc : ∀ ok, s.conn.emit typ payload ok = (s.conn.stamp typ payload,
      some (.append (s.conn.core.frame typ payload) (s.conn.stamp typ payload).sentData ok), ok) := fun ok => if_neg h
  unfold Sender.emit
  rw [hc]
  simp only [hc]

theorem stamp_sendSeq (c : Conn) : (c.stamp typ payload).sendSeq = c.sendSeq + 1 := by
  unfold Conn.stamp
  split <;> rfl

theorem stamp_sentData (c : Conn) :
    (c.stamp typ payload).sentData = c.sentData + .ofNat (c.core.frame typ payload).data.length := by
  unfold Conn.stamp
  split
  · rename_i h
    rw [Frame.data_of_eq (f := c.core.frame typ payload) h]
    rfl
  · rename_i h
    rw [Frame.data_of_ne (f := c.core.frame typ payload) h]
    exact (UInt64.add_zero _).symm

/-- **The next number is as before exactly when the `emit` was refused.** -/
theorem Sender.sendSeq_kept_iff :
    (s.emit crc typ payload io).1.conn.sendSeq = s.conn.sendSeq ↔ s.conn.Refuses typ := by
  constructor
  · intro hseq
    by_contra hr
    rw [emit_of_not_refuses hr] at hseq
    have hne : s.conn.sendSeq + 1 ≠ s.conn.sendSeq := by simp
    exact hne ((stamp_sendSeq s.conn).symm.trans hseq)
  · intro hr
    rw [emit_of_refuses hr]

/-! ## The files -/

/-- A roll whose next segment could not be opened: every segment is closed, and no file is open. -/
structure Stuck (crc : List UInt8 → UInt32) (d : SegDir) (pre : List (List Frame)) : Prop where
  cur    : d.cur.toNat = pre.length
  files  : d.files = (pre.mapIdx (fun k fs => fs ++ [rollFrame (.ofNat (k + 1))])).map (encodes crc)
  f      : d.f = none
  frames : ∀ seg ∈ pre, ∀ f ∈ seg, f.typ ≠ frameROLL ∧ f.payload.length ≤ maxPayload

/-- **The files hold exactly the frames `log`**, and the writer is at their end. -/
def Standing (crc : List UInt8 → UInt32) (d : SegDir) (log : List Frame) : Prop :=
  (∃ pre last, Layout crc d pre last ∧ log = pre.flatten ++ last) ∨ ∃ pre, Stuck crc d pre ∧ log = pre.flatten

/-- A write that fails without a byte. -/
theorem Layout.write_bare (h : Layout crc d pre last) (b : List UInt8) : d.write b (some 0) = (d, false) := by
  have hfiles : d.files.modify pre.length (· ++ b.take 0) = d.files := by
    rw [List.take_zero]
    simp only [List.append_nil]
    exact List.modify_id ..
  unfold SegDir.write
  rw [h.f]
  dsimp only
  rw [hfiles, ← h.f]

theorem Layout.put_bare (h : Layout crc d pre last) {f : Frame} (hio : ∀ n ∈ io.fails, n = 0)
    (hf : f.typ ≠ frameROLL ∧ f.payload.length ≤ maxPayload) :
    Layout crc (d.put crc io f).1 pre (if (d.put crc io f).2 then last ++ [f] else last) := by
  cases hfails : io.fails with
  | none =>
    obtain ⟨hput, hl⟩ := h.put hfails hf
    rw [hput]
    exact hl
  | some n =>
    obtain rfl := hio n hfails
    have hput : d.put crc io f = (d, false) := by
      unfold SegDir.put
      rw [hfails, h.write_bare]
    rw [hput]
    exact h

/-- **A roll comes to the next segment, to nothing, or to no open file.** -/
theorem Layout.roll_bare (h : Layout crc d pre last) (dataEnd : UInt64) (hio : ∀ n ∈ io.rollFails, n = 0)
    (hw : d.cur.toNat + 1 < UInt32.size) :
    (∃ d', d.roll crc io dataEnd = (d', true) ∧ Layout crc d' (pre ++ [last]) []) ∨
      ∃ d', d.roll crc io dataEnd = (d', false) ∧ Standing crc d' (pre.flatten ++ last) := by
  cases hfails : io.rollFails with
  | some n =>
    obtain rfl := hio n hfails
    refine Or.inr ⟨d, ?_, Or.inl ⟨pre, last, h, rfl⟩⟩
    unfold SegDir.roll
    rw [hfails, h.write_bare]
  | none =>
    cases hopen : io.openOk with
    | true =>
      obtain ⟨d', hroll, hl, -⟩ := h.roll dataEnd hfails hopen hw
      exact Or.inl ⟨d', hroll, hl⟩
    | false =>
      have hnext : (d.cur + 1).toNat = pre.length + 1 := by
        rw [UInt32.toNat_add, Nat.mod_eq_of_lt, h.cur]
        · rfl
        · exact hw
      have hroll : rollFrame (d.cur + 1) = rollFrame (.ofNat (pre.length + 1)) := by rw [← hnext, UInt32.ofNat_toNat]
      refine Or.inr ⟨{ d with f := none, reapOff := d.reapOff ++ [⟨d.cur, dataEnd⟩], cur := d.cur + 1,
                              files := (fileFrames pre (last ++ [rollFrame (.ofNat (pre.length + 1))])).map
                                (encodes crc) },
        ?_, Or.inr ⟨pre ++ [last], ⟨?_, ?_, rfl, h.frames⟩, by simp⟩⟩
      · unfold SegDir.roll
        rw [hfails, hroll, h.write]
        dsimp only
        unfold SegDir.openCur
        rw [if_neg (by rw [hopen]; simp)]
      · simpa using hnext
      · show (fileFrames pre (last ++ [rollFrame (.ofNat (pre.length + 1))])).map (encodes crc) = _
        rw [List.mapIdx_concat]
        rfl

/-! An operation that succeeds does so as if none could fail. -/

theorem write_ok {b : List UInt8} {fails : Option Nat} (h : (d.write b fails).2 = true) :
    d.write b fails = d.write b none := by
  unfold SegDir.write at h ⊢
  cases hf : d.f with
  | none => rfl
  | some ino =>
    cases fails with
    | none => rfl
    | some n => rw [hf] at h; cases h

theorem put_ok {f : Frame} (h : (d.put crc io f).2 = true) : d.put crc io f = d.put crc {} f := by
  have hw : (d.write (f.encode crc) io.fails).2 = true := by
    unfold SegDir.put at h
    split at h
    · rename_i heq
      exact congrArg Prod.snd heq
    · cases h
  unfold SegDir.put
  rw [write_ok hw]

theorem roll_ok {e : UInt64} (h : (d.roll crc io e).2 = true) : d.roll crc io e = d.roll crc {} e := by
  unfold SegDir.roll at h ⊢
  split at h
  · cases h
  · rename_i d₁ hw
    have hopen : io.openOk = true := by
      unfold SegDir.openCur at h
      split at h
      · rename_i hok
        exact hok.1
      · cases h
    rw [← write_ok (by rw [hw]), hw, hopen]

theorem append_ok {f : Frame} {e : UInt64} (h : (d.append crc io f e).2 = true) :
    d.append crc io f e = d.append crc {} f e := by
  unfold SegDir.append at h ⊢
  split
  · rfl
  · rename_i hcl
    rw [if_neg hcl] at h
    split
    · rename_i hr
      rw [if_pos hr] at h
      split at h
      · rename_i d₁ hroll
        rw [← roll_ok (by rw [hroll]), hroll]
        exact put_ok h
      · cases h
    · rename_i hr
      rw [if_neg hr] at h
      exact put_ok h

/-- **An append adds its frame to the log or leaves it.** -/
theorem Standing.append (h : Standing crc d log) {f : Frame} (dataEnd : UInt64)
    (hio : (d.append crc io f dataEnd).2 = false → io.Bare) (hf : f.typ ≠ frameROLL ∧ f.payload.length ≤ maxPayload)
    (hfit : d.closed = false → d.rolls crc f = true → d.cur ≠ 4294967295) :
    Standing crc (d.append crc io f dataEnd).1 (if (d.append crc io f dataEnd).2 then log ++ [f] else log) := by
  -- What succeeds needs nothing of the operations it did not make.
  wlog hbare : io.Bare generalizing io
  · have hok : (d.append crc io f dataEnd).2 = true := by
      by_contra hfail
      exact hbare (hio ((Bool.not_eq_true _).mp hfail))
    rw [append_ok hok]
    have hnone : ({} : SegIo).Bare := by decide
    exact this (fun _ => hnone) hnone
  rcases h with ⟨pre, last, hl, rfl⟩ | ⟨pre, hst, rfl⟩
  · have hput : ∀ {d pre last}, Layout crc d pre last →
        Standing crc (d.put crc io f).1
          (if (d.put crc io f).2 then pre.flatten ++ last ++ [f] else pre.flatten ++ last) := by
      intro d pre last hl
      refine Or.inl ⟨pre, _, hl.put_bare hbare.put hf, ?_⟩
      split
      · rw [List.append_assoc]
      · rfl
    unfold SegDir.append
    split
    · exact Or.inl ⟨pre, last, hl, rfl⟩
    · rename_i hcl
      split
      · rename_i hr
        have hw := toNat_succ_lt (hfit ((Bool.not_eq_true _).mp hcl) hr)
        rcases hl.roll_bare dataEnd hbare.roll hw with ⟨d', hroll, hl'⟩ | ⟨d', hroll, hst⟩
        · rw [hroll]
          simpa using hput hl'
        · rw [hroll]
          exact hst
      · exact hput hl
  · rw [SegDir.append_idle f dataEnd (Or.inr hst.f)]
    exact Or.inr ⟨pre, hst, rfl⟩

/-! ## Decoding what stands -/

section
variable {files : List (List UInt8)}

theorem decodeFrom_nil (n : Nat) : decodeFrom crc files (n + 1) (some []) = ([], .incomplete) := rfl

theorem decodeFrom_roll (n : Nat) (i : UInt32) :
    decodeFrom crc files (n + 1) (some ((rollFrame i).encode crc)) = decodeFrom crc files n files[i.toNat]? := by
  rw [decodeFrom, decodeFrame_self _ (rollFrame_payload_le i)]
  dsimp only
  rw [if_pos (show (rollFrame i).typ = frameROLL from rfl), show decodeUint32 (rollFrame i).payload = some i from
    decodeUint32_encode i]

/-- The frames at a place come before what follows them. -/
theorem decodeFrom_encodes (n : Nat) (rest : List UInt8) : ∀ fs : List Frame,
    (∀ f ∈ fs, f.typ ≠ frameROLL ∧ f.payload.length ≤ maxPayload) →
      decodeFrom crc files (fs.length + n) (some (encodes crc fs ++ rest)) =
        Prod.map (fs ++ ·) id (decodeFrom crc files n (some rest))
  | [], _ => by
    rw [List.length_nil, Nat.zero_add]
    rfl
  | f :: fs, h => by
    have ih := decodeFrom_encodes n rest fs (fun g hg => h g (List.mem_cons_of_mem _ hg))
    obtain ⟨hroll, hpay⟩ := h f List.mem_cons_self
    have hcons : encodes crc (f :: fs) ++ rest = f.encode crc ++ (encodes crc fs ++ rest) := by
      rw [← List.singleton_append, encodes_append, encodes_singleton, List.append_assoc]
    rw [hcons, List.length_cons, Nat.add_right_comm, decodeFrom, decodeFrame_encode f _ hpay]
    dsimp only
    rw [if_neg hroll, List.drop_left, ih]
    rfl

/-- **A chain of closed segments decodes to their frames**, and goes on with the file after them. -/
theorem decodeFrom_chain (n : Nat) : ∀ (segs : List (List Frame)) (k : Nat),
    (∀ j seg, segs[j]? = some seg → files[k + j]? = some (encodes crc (seg ++ [rollFrame (.ofNat (k + j + 1))]))) →
      (∀ seg ∈ segs, ∀ f ∈ seg, f.typ ≠ frameROLL ∧ f.payload.length ≤ maxPayload) → k + segs.length < UInt32.size →
        decodeFrom crc files (segs.flatten.length + segs.length + n) files[k]? =
          Prod.map (segs.flatten ++ ·) id (decodeFrom crc files n files[k + segs.length]?)
  | [], k, _, _, _ => by
    simp only [List.flatten_nil, List.length_nil, Nat.zero_add]
    rfl
  | seg :: segs, k, hfiles, hfr, hlt => by
    rw [List.length_cons] at hlt
    have ih := decodeFrom_chain n segs (k + 1)
      (fun j fs hj => by rw [Nat.add_right_comm k 1 j]; exact hfiles (j + 1) fs hj)
      (fun fs hfs => hfr fs (List.mem_cons_of_mem _ hfs)) (by omega)
    have hk : (UInt32.ofNat (k + 1)).toNat = k + 1 := UInt32.toNat_ofNat_of_lt' (by omega)
    have hfuel : (seg :: segs).flatten.length + (seg :: segs).length + n =
        seg.length + ((segs.flatten.length + segs.length + n) + 1) := by
      simp only [List.flatten_cons, List.length_append, List.length_cons]
      omega
    have hhere := hfiles 0 seg rfl
    rw [Nat.add_zero] at hhere
    rw [hhere, hfuel, encodes_append, encodes_singleton, decodeFrom_encodes _ _ _ (hfr seg List.mem_cons_self),
      decodeFrom_roll, hk, ih, List.length_cons, Nat.add_right_comm k 1, List.flatten_cons]
    simp only [Prod.map, id, List.append_assoc, Nat.add_assoc]

theorem length_le_encodes (fs : List Frame) : fs.length ≤ (encodes crc fs).length := by
  induction fs with
  | nil => exact Nat.zero_le _
  | cons f fs ih =>
    rw [← List.singleton_append, encodes_append, encodes_singleton, List.length_append, List.length_append,
      Frame.length_encode]
    simp only [List.length_singleton, headerLen, crcLen]
    omega

theorem length_flatten_le_encodes (L : List (List Frame)) :
    L.flatten.length ≤ (L.map (encodes crc)).flatten.length := by
  induction L with
  | nil => exact Nat.le_refl _
  | cons fs L ih =>
    have := @length_le_encodes crc fs
    simp only [List.map_cons, List.flatten_cons, List.length_append]
    omega

theorem length_flatten_closed (pre : List (List Frame)) :
    (pre.mapIdx (fun k fs => fs ++ [rollFrame (.ofNat (k + 1))])).flatten.length = pre.flatten.length + pre.length := by
  induction pre using List.reverseRecOn with
  | nil => rfl
  | append_singleton pre fs ih =>
    rw [List.mapIdx_concat, List.flatten_append, List.length_append, ih]
    simp
    omega

/-- **The closed segments and the one after them, if it is there.** -/
theorem decode_of_files {t : Option (List Frame)} (hlt : pre.length < UInt32.size)
    (hfiles : d.files =
      (pre.mapIdx (fun k fs => fs ++ [rollFrame (.ofNat (k + 1))]) ++ t.toList).map (encodes crc))
    (hfr : ∀ seg ∈ pre ++ t.toList, ∀ f ∈ seg, f.typ ≠ frameROLL ∧ f.payload.length ≤ maxPayload) :
    d.decode crc = (pre.flatten ++ t.getD [], if t.isSome then .incomplete else .notExist) := by
  have hclosed : ∀ j seg, pre[j]? = some seg →
      d.files[0 + j]? = some (encodes crc (seg ++ [rollFrame (.ofNat (0 + j + 1))])) := by
    intro j seg hj
    have hlen := (List.getElem?_eq_some_iff.1 hj).1
    rw [Nat.zero_add, hfiles, List.getElem?_map, List.getElem?_append_left (by simpa using hlen), List.getElem?_mapIdx,
      hj]
    rfl
  have hafter : d.files[pre.length]? = t.map (encodes crc) := by
    rw [hfiles, List.getElem?_map, List.getElem?_append_right (by simp)]
    cases t <;> simp
  -- Every frame takes a byte of the files at least.
  obtain ⟨m, hm⟩ :
      ∃ m, d.files.flatten.length + 1 = pre.flatten.length + pre.length + ((t.getD []).length + (m + 1)) := by
    have hle := @length_flatten_le_encodes crc
      (pre.mapIdx (fun k fs => fs ++ [rollFrame (.ofNat (k + 1))]) ++ t.toList)
    rw [← hfiles, List.flatten_append, List.length_append, length_flatten_closed] at hle
    have htail : t.toList.flatten.length = (t.getD []).length := by cases t <;> simp
    exact ⟨d.files.flatten.length - (pre.flatten.length + pre.length + (t.getD []).length), by omega⟩
  unfold SegDir.decode
  rw [hm, decodeFrom_chain _ pre 0 hclosed (fun seg hs => hfr seg (List.mem_append_left _ hs)) (by omega), Nat.zero_add,
    hafter]
  cases t with
  | none =>
    rw [Option.map_none, decodeFrom]
    rfl
  | some last =>
    have hlast := @decodeFrom_encodes crc d.files (m + 1) [] last
      (hfr last (List.mem_append_right _ (List.mem_singleton.2 rfl)))
    rw [List.append_nil, decodeFrom_nil] at hlast
    rw [Option.map_some, Option.getD_some, hlast]
    simp [Prod.map]

/-- **Files that hold exactly a log decode to it.** -/
theorem Standing.decode (h : Standing crc d log) :
    (d.decode crc).1 = log ∧ ((d.decode crc).2 = .incomplete ∨ (d.decode crc).2 = .notExist) := by
  rcases h with ⟨pre, last, hl, rfl⟩ | ⟨pre, hst, rfl⟩
  · have hdec := decode_of_files (t := some last) (hl.cur ▸ d.cur.toNat_lt) hl.files hl.frames
    rw [hdec]
    exact ⟨rfl, Or.inl rfl⟩
  · have hfiles : d.files = (pre.mapIdx (fun k fs => fs ++ [rollFrame (.ofNat (k + 1))]) ++
        (none : Option (List Frame)).toList).map (encodes crc) := by
      rw [Option.toList_none, List.append_nil]
      exact hst.files
    have hdec := decode_of_files (hst.cur ▸ d.cur.toNat_lt) hfiles (by simpa using hst.frames)
    rw [hdec]
    exact ⟨List.append_nil _, Or.inr rfl⟩

end

/-! ## The offsets -/

/-- **The counters count the bytes of the frames sent**, at the end and before each of them, and no closed segment waits
for a byte that was not sent. -/
structure Counted (s : Sender) : Prop where
  sentData : s.conn.sentData = .ofNat (dataOf s.sent).length
  dataOff  : ∀ (k : Nat) (f : Frame), s.sent[k]? = some f → f.dataOff = .ofNat (dataOf (s.sent.take k)).length
  ends     : ∀ x ∈ s.dir.reapOff, ∃ n ≤ (dataOf s.sent).length, x.dataEnd = .ofNat n

/-- An append records an end with the offset it was given, or none. -/
theorem append_reapOff (f : Frame) (e : UInt64) :
    ∀ x ∈ (d.append crc io f e).1.reapOff, x ∈ d.reapOff ∨ x.dataEnd = e := by
  intro x hx
  rcases @append_keeps crc io d f e with ⟨hkeep, -⟩ | ⟨hroll, -⟩
  · exact Or.inl (hkeep ▸ hx)
  · rw [hroll] at hx
    rcases List.mem_append.1 hx with hx | hx
    · exact Or.inl hx
    · rw [List.mem_singleton.1 hx]
      exact Or.inr rfl

theorem Counted.emit (h : Counted s)
    (hk : (s.emit crc typ payload io).2 = false → typ = frameDATA → s.conn.Refuses typ) :
    Counted (s.emit crc typ payload io).1 := by
  by_cases hr : s.conn.Refuses typ
  · rw [Sender.emit_of_refuses hr]
    exact h
  · rw [Sender.emit_of_not_refuses hr] at hk ⊢
    have hsent : (s.conn.stamp typ payload).sentData =
        .ofNat ((dataOf s.sent).length + (s.conn.core.frame typ payload).data.length) := by
      rw [stamp_sentData, h.sentData, ← UInt64.ofNat_add]
    have hends := @append_reapOff crc s.dir io (s.conn.core.frame typ payload)
      (s.conn.stamp typ payload).sentData
    cases hok : (s.dir.append crc io (s.conn.core.frame typ payload) (s.conn.stamp typ payload).sentData).2 with
    | true =>
      have hlen : (dataOf (s.sent ++ [s.conn.core.frame typ payload])).length =
          (dataOf s.sent).length + (s.conn.core.frame typ payload).data.length := by
        rw [dataOf_append, dataOf_singleton, List.length_append]
      refine ⟨?_, ?_, ?_⟩
      · rw [if_pos rfl, hlen]
        exact hsent
      · rw [if_pos rfl]
        intro k f hf
        rcases getElem?_concat_some hf with hf | ⟨rfl, rfl⟩
        · rw [List.take_append_of_le_length (Nat.le_of_lt (List.getElem?_eq_some_iff.1 hf).1)]
          exact h.dataOff k f hf
        · rw [List.take_left]
          exact h.sentData
      · rw [if_pos rfl, hlen]
        intro x hx
        rcases hends x hx with hx | hx
        · obtain ⟨n, hn, heq⟩ := h.ends x hx
          exact ⟨n, by omega, heq⟩
        · exact ⟨_, Nat.le_refl _, hx.trans hsent⟩
    | false =>
      -- What is lost carries no data.
      have hdata : (s.conn.core.frame typ payload).data = [] := Frame.data_of_ne fun htyp => hr (hk hok htyp)
      rw [hdata, List.length_nil, Nat.add_zero] at hsent
      rw [if_neg (by simp)]
      refine ⟨hsent, h.dataOff, fun x hx => ?_⟩
      rcases hends x hx with hx | hx
      · exact h.ends x hx
      · exact ⟨_, Nat.le_refl _, hx.trans hsent⟩

/-! ## Runs -/

theorem Sender.step_emit {ok : Bool} (h : s.step crc (.emit typ payload io ok) = some t) :
    (s.emit crc typ payload io).2 = ok ∧ (s.emit crc typ payload io).1 = t := by
  unfold Sender.step at h
  dsimp only at h
  split at h
  · rename_i hok
    exact ⟨hok, Option.some.inj h⟩
  · cases h

theorem Standing.step (h : Standing crc s.dir s.sent) {op : SendOp} (hb : s.Bare crc op) (hs : s.step crc op = some t) :
    Standing crc t.dir t.sent := by
  cases op with
  | emit typ payload io ok =>
    obtain ⟨rfl, rfl⟩ := Sender.step_emit hs
    by_cases hr : s.conn.Refuses typ
    · rw [Sender.emit_of_refuses hr]
      exact h
    · obtain ⟨hf, hfit, hio⟩ := hb hr
      rw [Sender.emit_of_not_refuses hr] at hio ⊢
      exact h.append _ hio hf hfit
  | setClosed =>
    cases hs
    exact h
  | reap ack =>
    cases hs
    rcases h with ⟨pre, last, hl, hlog⟩ | ⟨pre, hst, hlog⟩
    · exact Or.inl ⟨pre, last, hl.reaps ack, hlog⟩
    · exact Or.inr ⟨pre, ⟨hst.cur, hst.files, hst.f, hst.frames⟩, hlog⟩
  | closeW =>
    cases hs
    rcases h with ⟨pre, last, hl, hlog⟩ | ⟨pre, hst, hlog⟩
    · exact Or.inl ⟨pre, last, hl.closeW, hlog⟩
    · exact Or.inr ⟨pre, ⟨hst.cur, hst.files, hst.f, hst.frames⟩, hlog⟩

theorem Counted.step (h : Counted s) {op : SendOp} (hk : s.Keeps op) (hs : s.step crc op = some t) : Counted t := by
  cases op with
  | emit typ payload io ok =>
    obtain ⟨rfl, rfl⟩ := Sender.step_emit hs
    exact h.emit hk
  | setClosed =>
    cases hs
    exact ⟨h.sentData, h.dataOff, h.ends⟩
  | reap ack =>
    cases hs
    exact ⟨h.sentData, h.dataOff, fun x hx => h.ends x (List.mem_filter.1 hx).1⟩
  | closeW =>
    cases hs
    exact ⟨h.sentData, h.dataOff, h.ends⟩

/-- **What a failed `emit` keeps.**  The next number is as before exactly when the send side refused the frame, and then
everything is.  If a write that fails leaves no byte, the files decode to exactly the frames sent, in order; if no DATA
frame is lost either, every offset counts the bytes sent before it. -/
theorem failed_emit_keeps (crc : List UInt8 → UInt32) (s t : Sender) (ops : List SendOp)
    (hlog : Standing crc s.dir s.sent) (hr : run (Sender.step crc) s ops = some t)
    (hb : Meets (Sender.step crc) (Sender.Bare crc) s ops) :
    (∀ (u : Sender) (typ : FrameType) (payload : List UInt8) (io : SegIo),
      ((u.emit crc typ payload io).1.conn.sendSeq = u.conn.sendSeq ↔ u.conn.Refuses typ) ∧
        (u.conn.Refuses typ → u.emit crc typ payload io = (u, false))) ∧
    ((t.dir.decode crc).1 = t.sent ∧ ((t.dir.decode crc).2 = .incomplete ∨ (t.dir.decode crc).2 = .notExist)) ∧
    (Counted s → Meets (Sender.step crc) Sender.Keeps s ops → Counted t) := by
  refine ⟨fun u typ payload io => ⟨Sender.sendSeq_kept_iff, Sender.emit_of_refuses⟩, ?_, fun hc hk => ?_⟩
  · have hstand : Standing crc t.dir t.sent :=
      inv_of_meets (I := fun s => Standing crc s.dir s.sent) (fun _ _ _ h hb hs => h.step hb hs) ops s t hlog hb hr
    exact hstand.decode
  · exact inv_of_meets (I := Counted) (fun _ _ _ h hk hs => h.step hk hs) ops s t hc hk hr

/-- A send side whose first segment has been opened; every frame after the first takes a segment of its own. -/
def opened : Sender :=
  ⟨{ params := tiny, idleTimeout := 0 }, (({ maxSeg := 1, netFS := false } : SegDir).openCur true).1, []⟩

theorem opened_layout (crc : List UInt8 → UInt32) : Layout crc opened.dir [] [] :=
  Fresh.layout ⟨rfl, rfl, rfl, rfl, rfl, fun _ => rfl, rfl, rfl⟩

/-- A DATA frame, a heartbeat that is lost without a byte, and one that is sent. -/
def skipped : List SendOp :=
  [.emit frameDATA [7] {} true, .emit frameHeartbeat [] { fails := some 0 } false, .emit frameHeartbeat [] {} true]

theorem failed_emit_keeps_skipped :
    ∃ t, run (Sender.step crc32c) opened skipped = some t ∧ (t.dir.decode crc32c).1 = t.sent ∧ Counted t := by
  have hb : Meets (Sender.step crc32c) (Sender.Bare crc32c) opened skipped := by decide +kernel
  have hk : Meets (Sender.step crc32c) Sender.Keeps opened skipped := by decide +kernel
  have hc : Counted opened := ⟨rfl, fun k f hf => (by cases hf), fun x hx => (by cases hx)⟩
  have h := failed_emit_keeps crc32c opened _ skipped (Or.inl ⟨[], [], opened_layout crc32c, rfl⟩) rfl hb
  exact ⟨_, rfl, h.2.1.1, h.2.2 hc hk⟩

/-- **A lost DATA frame is counted.**  After a write that fails before its first byte, the heartbeats that follow carry
an offset past what was sent, and the segment they close waits for an ACK of it.  After one that fails behind its first
byte, the heartbeat that follows is sent and the direction is corrupt. -/
theorem lost_data_counts :
    (∃ t, run (Sender.step crc32c) opened
        [.emit frameDATA [7] { fails := some 0 } false, .emit frameHeartbeat [] {} true,
          .emit frameHeartbeat [] {} true] =
          some t ∧
      dataOf t.sent = [] ∧ t.conn.sentData = 1 ∧ t.sent.map Frame.dataOff = [1, 1] ∧ t.dir.reapOff = [⟨0, 1⟩]) ∧
    ∃ t, run (Sender.step crc32c) opened
      [.emit frameDATA [7] { fails := some 1 } false, .emit frameHeartbeat [] {} true] =
        some t ∧ t.sent.length = 1 ∧ t.dir.decode crc32c = ([], .corrupt) := by
  refine ⟨⟨_, rfl, ?_⟩, ⟨_, rfl, ?_⟩⟩
  · decide +kernel
  · decide +kernel

end Fstun
end Ccb
