import Mathlib.Algebra.Order.BigOperators.Group.Finset
import Ccb.SegWrap
import Ccb.Reap
import Ccb.Window
/-!
# Backlog — the segment files that stay on disk

A closed segment is unlinked when an ACK of its DATA bytes is dispatched, and only then.  When everything sent has been
read, acknowledged and heard of, what is left are the segments closed since the last ACK was dispatched, and the current
one.  So a bound on the segments closed between two ACKs is one on the backlog (`backlog_bounded`).  Heartbeats close
segments too, and nothing acknowledges them: a direction that carries nothing else keeps every segment it has had
(`heartbeats_leak`).
-/
namespace Ccb
namespace Fstun

open Machine (run Meets)

/-- The size of the file segment `i` names. -/
def SegDir.sizeOf (d : SegDir) (i : UInt32) : Nat :=
  match d.names i with
  | none     => 0
  | some ino => ((d.files[ino]?).getD []).length

/-- The bytes of all segment files on disk. -/
def SegDir.backlog (d : SegDir) : Nat := ∑ i ∈ Finset.range UInt32.size, d.sizeOf (.ofNat i)

/-- The most a segment holds before its ROLL: its limit, or a single frame past it.  A SYN has 22 bytes of payload. -/
def Params.segCap (p : Params) : Nat := max p.segmentSize.toNat (headerLen + max p.maxFrame.toNat 22 + crcLen)

/-- The bytes of a ROLL. -/
def rollLen : Nat := headerLen + 4 + crcLen

variable {crc : List UInt8 → UInt32} {d d' : SegDir} {pre pre' : List (List Frame)} {last last' : List Frame}
  {e : Fifo} {shut : Bool} {io : SegIo} {cap : Nat}

theorem length_rollFrame (i : UInt32) : ((rollFrame i).encode crc).length = rollLen := by
  rw [Frame.length_encode]
  rfl

/-! ## What a direction holds -/

/-- **The names on disk are those of the current segment and of the records**, and no segment is past the limit. -/
structure Held (crc : List UInt8 → UInt32) (cap : Nat) (d : SegDir) : Prop where
  limit  : d.maxSeg ≤ cap
  named  : ∀ i ino, d.names i = some ino → i = d.cur ∨ ∃ x ∈ d.reapOff, x.idx = i
  closed : ∀ pre last, Layout crc d pre last → ∀ seg ∈ pre, (encodes crc seg).length ≤ cap
  size   : ∀ pre last, Layout crc d pre last → (encodes crc last).length = d.size ∧ d.size ≤ cap

theorem Held.of_layout (hl : Layout crc d pre last) (h1 : d.maxSeg ≤ cap)
    (h2 : ∀ i ino, d.names i = some ino → i = d.cur ∨ ∃ x ∈ d.reapOff, x.idx = i)
    (h3 : ∀ seg ∈ pre, (encodes crc seg).length ≤ cap) (h4 : (encodes crc last).length = d.size) (h5 : d.size ≤ cap) :
    Held crc cap d := by
  refine ⟨h1, h2, fun pre' last' hl' => ?_, fun pre' last' hl' => ?_⟩
  · obtain ⟨rfl, rfl⟩ := hl.unique hl' rfl rfl
    exact h3
  · obtain ⟨rfl, rfl⟩ := hl.unique hl' rfl rfl
    exact ⟨h4, h5⟩

theorem Layout.not_fresh (hl : Layout crc d pre last) (hf : d.files = []) : False := by
  have hlen := congrArg List.length (hl.files.symm.trans hf)
  simp at hlen

/-- A call that writes no frame. -/
theorem Held.keep (h : Held crc cap d) (hd : DirSim crc shut d e) (hmax : d'.maxSeg = d.maxSeg) (hcur : d'.cur = d.cur)
    (hfiles : d'.files = d.files) (hsize : d'.size = d.size)
    (hnamed : ∀ i ino, d'.names i = some ino → i = d'.cur ∨ ∃ x ∈ d'.reapOff, x.idx = i) : Held crc cap d' := by
  have hsame : ∀ pre' last', Layout crc d' pre' last' → Layout crc d pre' last' := by
    intro pre' last' hl'
    rcases hd with ⟨hfr, -⟩ | ⟨pre, last, hl, -⟩
    · exact absurd (hfiles.trans hfr.files) fun hf => hl'.not_fresh hf
    · obtain ⟨rfl, rfl⟩ := hl.unique hl' hcur hfiles
      exact hl
  refine ⟨hmax ▸ h.limit, hnamed, fun pre' last' hl' => h.closed _ _ (hsame _ _ hl'), fun pre' last' hl' => ?_⟩
  rw [hsize]
  exact h.size _ _ (hsame _ _ hl')

theorem openCur_size {ok : Bool} (h : (d.openCur ok).2 = true) : (d.openCur ok).1.size = 0 := by
  unfold SegDir.openCur at h ⊢
  split at h
  · rename_i hok
    rw [if_pos hok]
    split <;> rfl
  · cases h

theorem roll_size {e : UInt64} (h : (d.roll crc io e).2 = true) : (d.roll crc io e).1.size = 0 := by
  unfold SegDir.roll at h ⊢
  split at h
  · cases h
  · exact openCur_size h

/-- The frame goes to the current segment: it fits, or the segment is empty. -/
theorem Held.put (h : Held crc cap d) (hl : Layout crc d pre last) {f : Frame} (hio : io.fails = none)
    (hf : f.typ ≠ frameROLL ∧ f.payload.length ≤ maxPayload) (hlen : (f.encode crc).length ≤ cap)
    (hr : d.rolls crc f = false) : Held crc cap (d.put crc io f).1 := by
  obtain ⟨hput, hl'⟩ := hl.put hio hf
  rw [hput]
  obtain ⟨hsize, -⟩ := h.size pre last hl
  refine .of_layout hl' h.limit h.named (h.closed pre last hl) ?_ ?_
  · show _ = d.size + (f.encode crc).length
    rw [encodes_append, encodes_singleton, List.length_append, hsize]
  · have hlim := h.limit
    have hno : ¬(0 < d.size ∧ d.maxSeg < d.size + (f.encode crc).length) := of_decide_eq_false hr
    show d.size + (f.encode crc).length ≤ cap
    omega

/-- The current segment is closed, under its limit, and the next one is empty. -/
theorem Held.roll (h : Held crc cap d) (hl : Layout crc d pre last) (hio : io.Smooth) (a : UInt64)
    (hw : d.cur.toNat + 1 < UInt32.size) :
    ∃ d', d.roll crc io a = (d', true) ∧ Layout crc d' (pre ++ [last]) [] ∧ Held crc cap d' ∧ d'.size = 0 := by
  obtain ⟨d', hroll, hl', -, -, hnames, hreap, -, -, hmax⟩ := hl.roll a hio.rollFails hio.openOk hw
  have hsize : d'.size = 0 := by
    have hz : (d.roll crc io a).1.size = 0 := roll_size (by rw [hroll])
    rwa [hroll] at hz
  refine ⟨d', hroll, hl', .of_layout hl' (hmax ▸ h.limit) (fun i ino hi => ?_) (fun seg hseg => ?_) (by rw [hsize]; rfl)
    (by rw [hsize]; exact Nat.zero_le _), hsize⟩
  · have hle := (hl'.names i ino hi).2
    rw [List.length_append, List.length_singleton] at hle
    by_cases hi' : i.toNat ≤ pre.length
    · rw [hnames i hi'] at hi
      rw [hreap]
      rcases h.named i ino hi with rfl | ⟨x, hx, rfl⟩
      · exact Or.inr ⟨_, List.mem_append_right _ (List.mem_singleton.2 rfl), rfl⟩
      · exact Or.inr ⟨x, List.mem_append_left _ hx, rfl⟩
    · refine Or.inl (UInt32.toNat_inj.1 ?_)
      have hcur := hl'.cur
      rw [List.length_append, List.length_singleton] at hcur
      omega
  · rcases List.mem_append.1 hseg with hseg | hseg
    · exact h.closed pre last hl seg hseg
    · obtain ⟨h1, h2⟩ := h.size pre last hl
      rw [List.mem_singleton.1 hseg]
      omega

theorem Held.append (h : Held crc cap d) (hl : Layout crc d pre last) {f : Frame} (a : UInt64) (hio : io.Smooth)
    (hf : f.typ ≠ frameROLL ∧ f.payload.length ≤ maxPayload) (hlen : (f.encode crc).length ≤ cap)
    (hcl : d.closed = false)
    (hfit : d.rolls crc f = true → d.cur ≠ 4294967295) : Held crc cap (d.append crc io f a).1 := by
  unfold SegDir.append
  rw [if_neg (by rw [hcl]; exact Bool.false_ne_true)]
  cases hr : d.rolls crc f with
  | false =>
    rw [if_neg Bool.false_ne_true]
    exact h.put hl hio.fails hf hlen hr
  | true =>
    obtain ⟨d', hroll, hl', hh, hsize⟩ := h.roll hl hio a (toNat_succ_lt (hfit hr))
    rw [if_pos rfl, hroll]
    refine hh.put hl' hio.fails hf hlen ?_
    simp [SegDir.rolls, hsize]

theorem Held.openFirst (h : Held crc cap d) (hfr : Fresh d) (ok : Bool) : Held crc cap (d.openCur ok).1 := by
  cases ok with
  | false => exact h
  | true =>
    have hl : Layout crc (d.openCur true).1 [] [] := hfr.layout
    have hmax : (d.openCur true).1.maxSeg = d.maxSeg := by
      unfold SegDir.openCur
      split
      · split <;> rfl
      · rfl
    have hsize : (d.openCur true).1.size = 0 := openCur_size (by
      unfold SegDir.openCur
      rw [if_pos ⟨rfl, hfr.here⟩, hfr.names])
    refine .of_layout hl (hmax ▸ h.limit) (fun i ino hi => Or.inl (UInt32.toNat_inj.1 ?_))
      (fun seg hseg => by cases hseg) (by rw [hsize]; rfl) (by rw [hsize]; exact Nat.zero_le _)
    have hle := (hl.names i ino hi).2
    have hcur := hl.cur
    rw [List.length_nil] at hle hcur
    omega

/-- A name a reap leaves is of a record it leaves. -/
theorem Held.reap_named (h : Held crc cap d) (acked : UInt64) :
    ∀ i ino, (d.reap acked).names i = some ino → i = d.cur ∨ ∃ x ∈ (d.reap acked).reapOff, x.idx = i := by
  intro i ino hi
  rcases reap_names d acked i with hn | hn
  · rw [hn] at hi
    cases hi
  · rcases h.named i ino (hn ▸ hi) with hcur | ⟨x, hx, rfl⟩
    · exact Or.inl hcur
    · refine Or.inr ⟨x, List.mem_filter.2 ⟨hx, ?_⟩, rfl⟩
      cases hle : decide (x.dataEnd ≤ acked) with
      | false => rfl
      | true =>
        have hany : (d.reaped acked).any (fun s => s.idx == x.idx) = true :=
          List.any_eq_true.2 ⟨x, List.mem_filter.2 ⟨hx, hle⟩, beq_self_eq_true _⟩
        have hnone : (d.reap acked).names x.idx = none := if_pos hany
        rw [hnone] at hi
        cases hi

/-- **One call keeps it.** -/
theorem Held.call {x : Call} (h : Held crc cap d) (hd : DirSim crc shut d e) (hio : io.Smooth) (hfit : d.Fits crc x)
    (hf : ∀ f a ok, x = .append f a ok →
      (f.typ ≠ frameROLL ∧ f.payload.length ≤ maxPayload) ∧ (f.encode crc).length ≤ cap)
    (ho : ∀ ok, x = .openW ok → ∀ i, d.names i = none) (hp : d.perform crc io x = some d') : Held crc cap d' := by
  cases SegDir.perform_some hp with
  | openW =>
    rcases hd with ⟨hfr, -⟩ | ⟨pre, last, hl, -⟩
    · exact h.openFirst hfr _
    · have hlive := hl.live
      rw [ho _ rfl] at hlive
      cases hlive
  | append f a =>
    obtain ⟨hfr, hlen⟩ := hf f a _ rfl
    cases hcl : d.closed with
    | true =>
      rw [SegDir.append_idle f a (Or.inl hcl)]
      exact h
    | false =>
      rcases hd with ⟨hfresh, -⟩ | ⟨pre, last, hl, -⟩
      · rw [SegDir.append_idle f a (Or.inr hfresh.f)]
        exact h
      · exact h.append hl a hio hfr hlen hcl (hfit hcl)
  | reap acked => exact h.keep hd rfl rfl rfl rfl (h.reap_named acked)
  | closeW => exact h.keep hd rfl rfl rfl rfl h.named
  | next => exact h.keep hd rfl rfl rfl rfl h.named
  | closeR => exact h.keep hd rfl rfl rfl rfl h.named

/-! ## Its bytes -/

theorem Held.sizeOf_le (h : Held crc cap d) (hl : Layout crc d pre last) (i : UInt32) : d.sizeOf i ≤ cap + rollLen := by
  unfold SegDir.sizeOf
  split
  · exact Nat.zero_le _
  · rename_i ino hi
    obtain ⟨rfl, hle⟩ := hl.names i ino hi
    rw [hl.files, List.getElem?_map]
    rcases Nat.lt_or_eq_of_le hle with hlt | heq
    · obtain ⟨seg, hseg⟩ : ∃ seg, pre[i.toNat]? = some seg := ⟨_, List.getElem?_eq_getElem hlt⟩
      have hcap := h.closed pre last hl seg (List.mem_of_getElem? hseg)
      rw [fileFrames_closed last hseg, Option.map_some, Option.getD_some, encodes_append, encodes_singleton,
        List.length_append, length_rollFrame]
      omega
    · obtain ⟨h1, h2⟩ := h.size pre last hl
      rw [heq, fileFrames_last, Option.map_some, Option.getD_some]
      omega

/-- **The bytes on disk are those of the current segment and of the records.** -/
theorem Held.backlog_le (h : Held crc cap d) (hd : DirSim crc shut d e) :
    d.backlog ≤ (d.reapOff.length + 1) * (cap + rollLen) := by
  rcases hd with ⟨hfr, -⟩ | ⟨pre, last, hl, -⟩
  · have hzero : d.backlog = 0 := by
      refine Finset.sum_eq_zero fun i _ => ?_
      unfold SegDir.sizeOf
      rw [hfr.names]
    rw [hzero]
    exact Nat.zero_le _
  · have hsub : d.backlog ≤ ∑ i ∈ insert d.cur.toNat (d.reapOff.map (fun x => x.idx.toNat)).toFinset,
        d.sizeOf (.ofNat i) := by
      refine Finset.sum_le_sum_of_ne_zero fun i hi hne => ?_
      have hlt : (UInt32.ofNat i).toNat = i := UInt32.toNat_ofNat_of_lt' (Finset.mem_range.1 hi)
      unfold SegDir.sizeOf at hne
      split at hne
      · exact absurd rfl hne
      · rename_i ino hname
        rcases h.named _ ino hname with hcur | ⟨x, hx, hidx⟩
        · rw [← hcur, hlt]
          exact Finset.mem_insert_self _ _
        · refine Finset.mem_insert_of_mem (List.mem_toFinset.2 (List.mem_map.2 ⟨x, hx, ?_⟩))
          rw [hidx, hlt]
    have hcard : (insert d.cur.toNat (d.reapOff.map (fun x => x.idx.toNat)).toFinset).card ≤ d.reapOff.length + 1 := by
      refine (Finset.card_insert_le _ _).trans (Nat.add_le_add_right ?_ 1)
      exact (List.toFinset_card_le _).trans (by rw [List.length_map])
    calc d.backlog ≤ _ := hsub
      _ ≤ _ * (cap + rollLen) := Finset.sum_le_card_nsmul _ _ _ fun i _ => h.sizeOf_le hl _
      _ ≤ (d.reapOff.length + 1) * (cap + rollLen) := Nat.mul_le_mul_right _ hcard

/-! ## Steps of an endpoint -/

section
variable {k k' : Core} {call : Option Call} {c c' : Conn} {a : Act}

/-- No frame is longer than a segment may be. -/
theorem Core.Step.length_encode_le {f : Frame} {a : UInt64} {ok : Bool} (h : Core.Step k (some (.append f a ok)) k') :
    (f.encode crc).length ≤ k.params.segCap := by
  have hpay : f.payload.length ≤ max k.params.maxFrame.toNat 22 := by
    cases h with
    | phase _ _ _ _ _ hpl => cases hpl _ rfl
    | closeLate _ _ _ _ _ hpl => cases hpl _ rfl
    | syn => exact le_trans (by simp [Params.syn, SynParams.encode]) (Nat.le_max_right _ _)
    | sendAck v => exact le_trans (by simp [Core.frame, encodeUint64]) (Nat.le_max_right _ _)
    | sendBeat v => exact le_trans (by simp [Core.frame, encodeUint64]) (Nat.le_max_right _ _)
    | sendFin => exact Nat.zero_le _
    | sendData sent rest room =>
      have hchunk := (chunkLen_le rest.length room k.params.maxFrame).2.2
      refine le_trans ?_ (Nat.le_max_left _ _)
      show (k.chunk rest room).length ≤ _
      rw [Core.chunk, List.length_take]
      omega
  rw [Frame.length_encode]
  unfold Params.segCap
  omega

/-- **`peerAck` changes only on the way to a reap**, and a reap that is due stays due until it is made. -/
theorem Core.Step.reaped_or_kept (h : Core.Step k call k') (hn : k'.reaping = none) :
    (∃ v, call = some (.reap v)) ∨ k.reaping = none ∧ k'.peerAck = k.peerAck := by
  cases h with
  | ack => cases hn
  | reap v => exact Or.inl ⟨v, rfl⟩
  | _ => exact Or.inr ⟨hn, rfl⟩

theorem Core.Step.reap_peerAck {v : UInt64} (h : Core.Step k (some (.reap v)) k') : k'.peerAck = k.peerAck := by
  cases h with
  | phase _ _ _ _ _ hpl => cases hpl _ rfl
  | closeLate _ _ _ _ _ hpl => cases hpl _ rfl
  | reap => rfl

/-- An endpoint that is up stays up, and does not open its writer. -/
theorem step_of_up (hup : c.phase = .up) (h : c.step a = some (c', call)) :
    c'.phase = .up ∧ ∀ ok, call ≠ some (.openW ok) := by
  constructor
  · exact (step_core h).up hup
  · rintro ok rfl
    have hsends : ¬ Sends (some (.openW ok)) := by
      intro hl
      obtain ⟨f, e, o, hx⟩ := hl _ rfl
      cases hx
    cases Conn.step_some h with
    | hand hs => exact (Conn.handStep_some hs).not_up hup
    | read _ hs => exact hsends (readStep_life hs).sends
    | write _ hs => exact hsends (writeStep_life hs).sends
    | close _ hs =>
      generalize hcall : some (Call.openW ok) = call at hs
      cases Conn.closeStep_some hs with
      | fin b => exact hsends (hcall ▸ emit_sends frameFIN [] b)
      | _ => cases hcall
    | recv _ hs => cases Conn.recvStep_some hs
    | maint _ hs => exact hsends (maintStep_life hs).sends
    | deadline _ hs => exact hsends (deadlineStep_life hs).sends

/-- No step leads back to before the handshake, and the writer is opened in the first one. -/
theorem step_down (h : c.step a = some (c', call)) :
    c'.phase ≠ .down ∧ ∀ ok, call = some (.openW ok) → c.phase = .down := by
  by_cases hup : c.phase = .up
  · obtain ⟨h1, h2⟩ := step_of_up hup h
    exact ⟨by rw [h1]; exact (fun h => by cases h), fun ok hcall => absurd hcall (h2 ok)⟩
  · obtain ⟨b, hs⟩ := Conn.step_not_up h hup
    cases hs with
    | openW ok hp =>
      refine ⟨?_, fun _ _ => hp⟩
      show (if ok then Phase.opened else .failed) ≠ _
      split <;> exact fun h => by cases h
    | syn ok hp =>
      refine ⟨?_, fun _ hc => by cases hc⟩
      split <;> exact fun h => by cases h
    | turn t now hp =>
      refine ⟨?_, fun _ hc => by cases hc⟩
      unfold Conn.waitSYN
      (repeat' split) <;> (try rw [hp]) <;> exact fun h => by cases h
    | giveUp | closeW | closeR => exact ⟨(fun h => by cases h), fun _ hc => by cases hc⟩

end

/-! ## Calls on a direction -/

/-- A call that closes at most one segment and drops no record. -/
def Records (d d' : SegDir) : Prop := (d'.reapOff = d.reapOff ∧ d'.cur = d.cur) ∨ ∃ a, Rolled d a d'

theorem perform_records {x : Call} (hx : ∀ v, x ≠ .reap v) (hp : d.perform crc io x = some d') : Records d d' := by
  cases SegDir.perform_some hp with
  | openW =>
    obtain ⟨hcur, -, hreap, -⟩ := openCur_keeps d io.openOk
    exact Or.inl ⟨hreap, hcur⟩
  | append f a => exact (append_keeps d f a).imp id fun hr => ⟨a, hr⟩
  | reap v => exact absurd rfl (hx v)
  | closeW => exact Or.inl ⟨rfl, rfl⟩
  | next => exact Or.inl ⟨rfl, rfl⟩
  | closeR => exact Or.inl ⟨rfl, rfl⟩

/-- The reader's calls change what it has read, and what it is shown. -/
theorem perform_reads {x : Call} (hx : x.reads = true) (hp : d.perform crc io x = some d') :
    ∃ sh r, d' = { d with shown := sh, r := r } := by
  cases SegDir.perform_some hp with
  | next => exact ⟨_, _, rfl⟩
  | closeR => exact ⟨_, _, rfl⟩
  | openW => cases hx
  | append f a => cases hx
  | reap v => cases hx
  | closeW => cases hx

theorem Records.reaped_le (h : Records d d') (v : UInt64) :
    (d'.reaped v).length ≤ (d.reaped v).length + if d'.cur = d.cur then 0 else 1 := by
  unfold SegDir.reaped
  rcases h with ⟨hr, -⟩ | ⟨a, hr, hcur⟩
  · rw [hr]
    exact Nat.le_add_right _ _
  · have hne : d'.cur ≠ d.cur := by
      rw [hcur]
      simp
    rw [hr, List.filter_append, List.length_append, if_neg hne]
    exact Nat.add_le_add_left (List.length_filter_le _ _) _

theorem reaped_reap (d : SegDir) (v : UInt64) : (d.reap v).reaped v = [] := by
  show (d.reapOff.filter _).filter _ = []
  rw [List.filter_filter]
  exact List.filter_eq_nil_iff.2 fun x _ => by simp

/-! ## Runs -/

/-- A step of the pipe that also counts the segments `r` has closed since it last reaped. -/
def Pipe.tally (r : Role) (x : Pipe (segFiles crc) × Nat) (l : Label (segFiles crc)) :
    Option (Pipe (segFiles crc) × Nat) :=
  (x.1.step l).map fun t =>
    (t, if l.role = r ∧ (x.1.reaps l).isSome = true then 0
        else x.2 + if SegDir.cur (t.dir r) = SegDir.cur (x.1.dir r) then 0 else 1)

/-- The step leaves at most `N` segments closed since `r` last dispatched an ACK. -/
def Pipe.Prompt (N : Nat) (r : Role) (x : Pipe (segFiles crc) × Nat) (l : Label (segFiles crc)) : Prop :=
  ∀ y ∈ Pipe.tally r x l, y.2 ≤ N

instance Pipe.decidablePrompt (N : Nat) (r : Role) (x : Pipe (segFiles crc) × Nat) (l : Label (segFiles crc)) :
    Decidable (Pipe.Prompt N r x l) :=
  inferInstanceAs (Decidable (∀ y ∈ Pipe.tally r x l, y.2 ≤ N))

theorem Pipe.tally_some {r : Role} {x y : Pipe (segFiles crc) × Nat} {l : Label (segFiles crc)}
    (h : Pipe.tally r x l = some y) :
    x.1.step l = some y.1 ∧ y.2 = if l.role = r ∧ (x.1.reaps l).isSome = true then 0
      else x.2 + if SegDir.cur (y.1.dir r) = SegDir.cur (x.1.dir r) then 0 else 1 := by
  obtain ⟨t, ht, rfl⟩ := Option.map_eq_some_iff.1 h
  exact ⟨ht, rfl⟩

theorem meets_tally {r : Role} {G : Pipe (segFiles crc) → Label (segFiles crc) → Prop} :
    ∀ (ls : List (Label (segFiles crc))) (x : Pipe (segFiles crc) × Nat), Meets Pipe.step G x.1 ls →
      Meets (Pipe.tally r) (fun x l => G x.1 l) x ls
  | [], _, _ => trivial
  | l :: ls, x, hm => by
    intro y hy
    obtain ⟨hg, hm⟩ := hm y.1 (Pipe.tally_some hy).1
    exact ⟨hg, meets_tally ls y hm⟩

/-- Every run has a count. -/
theorem run_tally {r : Role} :
    ∀ (ls : List (Label (segFiles crc))) (x : Pipe (segFiles crc) × Nat) {s : Pipe (segFiles crc)},
    run Pipe.step x.1 ls = some s → ∃ n, run (Pipe.tally r) x ls = some (s, n)
  | [], x, s, hr => by
    cases hr
    exact ⟨x.2, rfl⟩
  | l :: ls, x, s, hr => by
    obtain ⟨t, ht, hr⟩ := Machine.run_cons hr
    obtain ⟨y, hy, rfl⟩ : ∃ y, Pipe.tally r x l = some y ∧ y.1 = t := ⟨_, by rw [Pipe.tally, ht]; rfl, rfl⟩
    obtain ⟨n, hn⟩ := run_tally ls y hr
    exact ⟨n, by rw [run, hy]; exact hn⟩

/-- **What holds of every run**, `n` segments having been closed since the last reap: once no reap is due, no more
records than that are of acknowledged bytes. -/
structure BacklogInv (r : Role) (p : Params) (x : Pipe (segFiles crc) × Nat) : Prop where
  inv   : ∃ u, ReapInv x.1 u
  par   : (x.1.conn r).params = p
  fresh : (x.1.conn r).phase = .down → ∀ i, SegDir.names (x.1.dir r) i = none
  held  : Held crc p.segCap (x.1.dir r)
  count : (x.1.conn r).rcv.reaping = none → (SegDir.reaped (x.1.dir r) (x.1.conn r).peerAck).length ≤ x.2

theorem BacklogInv.start (p : Role → Params) (idle : Role → Nat) (netFS : Role → Bool) (r : Role) :
    BacklogInv r (p r) (Pipe.startFiles crc p idle netFS, 0) := by
  refine ⟨⟨_, .start p idle netFS⟩, rfl, fun _ _ => rfl, ⟨Nat.le_max_left _ _, (fun i ino hi => by cases hi), ?_, ?_⟩,
    fun _ => Nat.le_refl _⟩
  · exact fun pre last hl => (hl.not_fresh rfl).elim
  · exact fun pre last hl => (hl.not_fresh rfl).elim

section
variable {r : Role} {p : Params} {s t : Pipe (segFiles crc)} {n : Nat} {l : Label (segFiles crc)}

theorem Pipe.reaps_some {c : Conn} {call : Option Call} {v : UInt64}
    (hc : (s.conn l.role).step l.act = some (c, call)) :
    s.reaps l = some v ↔ call = some (.reap v) := by
  unfold Pipe.reaps
  rw [hc]
  constructor
  · intro h
    split at h
    · rename_i heq
      cases heq
      rw [Option.some.inj h]
    · cases h
  · rintro rfl
    rfl

/-- A step of the peer, which may read what `r` writes. -/
theorem BacklogInv.peer {u : Pipe fifo} (h : BacklogInv r p (s, n)) (hu : ReapInv t u) (hconn : t.conn r = s.conn r)
    (hdir : t.dir r = s.dir r ∨ ∃ x, x.reads = true ∧ SegDir.perform crc (s.dir r) l.io x = some (t.dir r)) :
    SegDir.cur (t.dir r) = SegDir.cur (s.dir r) ∧ BacklogInv r p (t, n) := by
  obtain ⟨sh, rd, hd⟩ : ∃ sh rd, t.dir r = ({ s.dir r with shown := sh, r := rd } : SegDir) := by
    rcases hdir with hdir | ⟨x, hx, hp⟩
    · exact ⟨_, _, hdir⟩
    · exact perform_reads hx hp
  obtain ⟨u₀, hu₀⟩ := h.inv
  refine ⟨by rw [hd], ⟨u, hu⟩, ?_, ?_, ?_, ?_⟩
  · rw [hconn]
    exact h.par
  · show (t.conn r).phase = .down → ∀ i, SegDir.names (t.dir r) i = none
    rw [hconn, hd]
    exact h.fresh
  · show Held crc p.segCap (t.dir r)
    rw [hd]
    exact h.held.keep (hu₀.sim.dirs r) rfl rfl rfl rfl h.held.named
  · show (t.conn r).rcv.reaping = none → (SegDir.reaped (t.dir r) (t.conn r).peerAck).length ≤ n
    rw [hconn, hd]
    exact h.count

/-- **The count of a step of `r`**: a reap drops every record it can, and any other call adds one at most. -/
theorem BacklogInv.count_own {call : Option Call} (h : BacklogInv l.role p (s, n))
    (hc : (s.conn l.role).step l.act = some (t.conn l.role, call))
    (hdir : (∀ x, call = some x → x.reads = true) ∧ t.dir l.role = s.dir l.role ∨
      ∃ x, call = some x ∧ x.reads = false ∧ SegDir.perform crc (s.dir l.role) l.io x = some (t.dir l.role))
    (hn : (t.conn l.role).rcv.reaping = none) :
    (SegDir.reaped (t.dir l.role) (t.conn l.role).peerAck).length ≤ if (s.reaps l).isSome = true then 0
      else n + if SegDir.cur (t.dir l.role) = SegDir.cur (s.dir l.role) then 0 else 1 := by
  obtain ⟨u, hu⟩ := h.inv
  have hcore := step_core hc
  cases hrp : s.reaps l with
  | some v =>
    obtain rfl := (Pipe.reaps_some hc).1 hrp
    have hv : v = (t.conn l.role).peerAck := by
      have hflow := (hu.inv l.role).flow.reaping v
      rw [hu.sim.conn] at hflow
      exact (hflow hcore.reaps).trans hcore.reap_peerAck.symm
    rcases hdir with ⟨hrd, -⟩ | ⟨x, hx, -, hp⟩
    · cases hrd _ rfl
    · cases hx
      rw [← hv, ← Option.some.inj hp, reaped_reap]
      exact Nat.zero_le _
  | none =>
    have hno : ∀ v, call ≠ some (.reap v) := fun v hv => by
      rw [(Pipe.reaps_some hc).2 hv] at hrp
      cases hrp
    obtain ⟨hn', hack⟩ := (hcore.reaped_or_kept hn).resolve_left fun ⟨v, hv⟩ => hno v hv
    have hack' : (t.conn l.role).peerAck = (s.conn l.role).peerAck := hack
    have hrec : Records (s.dir l.role) (t.dir l.role) := by
      rcases hdir with ⟨-, hdir⟩ | ⟨x, rfl, -, hp⟩
      · exact Or.inl (by rw [hdir]; exact ⟨rfl, rfl⟩)
      · exact perform_records (fun v hv => hno v (hv ▸ rfl)) hp
    rw [hack']
    exact (hrec.reaped_le _).trans (Nat.add_le_add_right (h.count hn') _)

end

theorem BacklogInv.step {r : Role} {p : Params} {x y : Pipe (segFiles crc) × Nat} {l : Label (segFiles crc)}
    (h : BacklogInv r p x) (hio : SegIo.Smooth l.io) (hw : NoWrap x.1 l) (hs : Pipe.tally r x l = some y) :
    BacklogInv r p y := by
  obtain ⟨s, n⟩ := x
  obtain ⟨t, m⟩ := y
  obtain ⟨hstep, hm⟩ := Pipe.tally_some hs
  dsimp only at hstep hm
  obtain ⟨u, hu⟩ := h.inv
  obtain ⟨u', -, hu'⟩ := hu.step hio hw hstep
  rcases Pipe.step_at hstep r with ⟨rfl, call, hc, hdir⟩ | ⟨hr, hconn, hdir⟩
  · have hcore := step_core hc
    refine ⟨⟨u', hu'⟩, hcore.params.trans h.par, fun hdown => absurd hdown (step_down hc).1, ?_, fun hn => ?_⟩
    · rcases hdir with ⟨-, hdir⟩ | ⟨x, rfl, hx, hp⟩
      · exact hdir ▸ h.held
      · have hdo : x.dirOf l.role = l.role := if_neg (by rw [hx]; exact Bool.false_ne_true)
        have hpar : (s.conn l.role).params = p := h.par
        refine h.held.call (hu.sim.dirs l.role) hio ?_ ?_ ?_ hp
        · unfold NoWrap at hw
          rw [hc] at hw
          exact hdo ▸ hw
        · rintro f a ok rfl
          exact ⟨hcore.sends, hpar ▸ hcore.length_encode_le⟩
        · rintro ok rfl
          exact h.fresh ((step_down hc).2 ok rfl)
    · have hcount := h.count_own hc hdir hn
      rw [hm]
      simpa using hcount
  · obtain ⟨hcur, h'⟩ := h.peer hu' hconn hdir
    rw [if_neg (fun h => hr h.1), if_pos hcur] at hm
    exact hm ▸ h'

/-- **Everything `r` has sent has been read and acknowledged, and the acknowledgements dispatched.** -/
structure Drained (s : Pipe (segFiles crc)) (r : Role) : Prop where
  read  : (s.conn r.peer).recvBuf = [] ∧ (s.conn r.peer).recvData = (s.conn r).sentData
  acked : (s.conn r.peer).lastAckSent = (s.conn r.peer).recvData
  heard : (s.conn r.peer).lastAckSent ≤ (s.conn r).peerAck ∧ (s.conn r).rcv.reaping = none

/-- Every record is of acknowledged bytes. -/
theorem Drained.reaped_eq {s : Pipe (segFiles crc)} {u : Pipe fifo} {r : Role} (h : Drained s r) (hu : ReapInv s u)
    (hsize : (s.conn r).sentTotal < UInt64.size) :
    SegDir.reaped (s.dir r) (s.conn r).peerAck = SegDir.reapOff (s.dir r) := by
  refine List.filter_eq_self.2 fun x hx => decide_eq_true ?_
  have hsent : (s.conn r).sentData.toNat = (s.conn r).sentTotal := by
    have hflow : (u.conn r).core.sentData = .ofNat (u.conn r).core.sentTotal := (hu.inv r).flow.sentData
    rw [hu.sim.conn] at hflow
    have hdata : (s.conn r).sentData = .ofNat (s.conn r).sentTotal := hflow
    rw [hdata, UInt64.toNat_ofNat_of_lt' hsize]
  have hack : (s.conn r).sentData ≤ (s.conn r).peerAck := by
    rw [← h.read.2, ← h.acked]
    exact h.heard.1
  rcases hu.sim.dirs r with ⟨hfr, -⟩ | ⟨pre, last, hl, -⟩
  · rw [hfr.reapOff] at hx
    cases hx
  · obtain ⟨n, -, -, hend, hn, -⟩ := (hu.ends r).recorded pre last hl x hx
    rw [hend, UInt64.le_iff_toNat_le, UInt64.toNat_ofNat_of_lt' (by omega)]
    rw [UInt64.le_iff_toNat_le] at hack
    omega

/-- **The backlog of a drained direction is the segments closed since its last ACK was dispatched, and the current
one.** -/
theorem BacklogInv.drained {r : Role} {p : Params} {s : Pipe (segFiles crc)} {n : Nat} (h : BacklogInv r p (s, n))
    (hsize : (s.conn r).sentTotal < UInt64.size) (hq : Drained s r) :
    SegDir.backlog (s.dir r) ≤ (n + 1) * (p.segCap + rollLen) := by
  obtain ⟨u, hu⟩ := h.inv
  have hcount : (SegDir.reapOff (s.dir r)).length ≤ n := by
    rw [← hq.reaped_eq hu hsize]
    exact h.count hq.heard.2
  calc SegDir.backlog (s.dir r) ≤ _ := h.held.backlog_le (hu.sim.dirs r)
    _ ≤ (n + 1) * (p.segCap + rollLen) := Nat.mul_le_mul_right _ (Nat.add_le_add_right hcount 1)

/-- **A bound on the segments closed between two ACKs is one on the backlog of every drained state**, whatever the
length of the run. -/
theorem backlog_bounded (crc : List UInt8 → UInt32) (p : Role → Params) (idle : Role → Nat) (netFS : Role → Bool)
    (r : Role) (N : Nat) (ls : List (Label (segFiles crc))) (s : Pipe (segFiles crc))
    (hio : ∀ l ∈ ls, SegIo.Smooth l.io) (hw : Meets Pipe.step NoWrap (Pipe.startFiles crc p idle netFS) ls)
    (hN : Meets (Pipe.tally r) (Pipe.Prompt N r) (Pipe.startFiles crc p idle netFS, 0) ls)
    (hr : run Pipe.step (Pipe.startFiles crc p idle netFS) ls = some s)
    (hsize : (s.conn r).sentTotal < UInt64.size) (hq : Drained s r) :
    SegDir.backlog (s.dir r) ≤ (N + 1) * ((p r).segCap + rollLen) := by
  obtain ⟨n, hn⟩ := run_tally (r := r) ls (Pipe.startFiles crc p idle netFS, 0) hr
  have hinv : BacklogInv r (p r) (s, n) :=
    Machine.inv_of_meets (fun _ _ _ h hg hs => h.step hg.1 hg.2 hs) ls _ _ (.start p idle netFS r)
      ((meets_tally ls (Pipe.startFiles crc p idle netFS, 0) hw).and_labels ls _ hio) hn
  have hle : n ≤ N :=
    Machine.inv_of_meets (I := fun x => x.2 ≤ N) (fun _ _ _ _ hg hs => hg _ hs) ls _ _ (Nat.zero_le N) hN hn
  exact (hinv.drained hsize hq).trans (Nat.mul_le_mul_right _ (Nat.add_le_add_right hle 1))

/-- A byte is delivered and acknowledged, and its segment reaped. -/
def settledDelivery : List Step :=
  greeting ++ delivery ++ acknowledgement ++ [.acceptor (.maint (.go true 0)) [], .initiator (.recv .go) []]

theorem backlog_bounded_delivery :
    ∃ s, run Pipe.step (tinyStart true) settledDelivery = some s ∧
      SegDir.backlog (s.dir .initiator) ≤ (1 + 1) * (tiny.segCap + rollLen) := by
  have hio : ∀ l ∈ settledDelivery, SegIo.Smooth l.io := by decide +kernel
  have hw : Meets Pipe.step NoWrap (tinyStart true) settledDelivery := by decide +kernel
  have hN : Meets (Pipe.tally .initiator) (Pipe.Prompt 1 .initiator) (tinyStart true, 0) settledDelivery := by
    decide +kernel
  have hwriter : (run Pipe.step (tinyStart true) settledDelivery).map (fun s =>
      ((s.conn .initiator).sentTotal, (s.conn .initiator).sentData, (s.conn .initiator).peerAck,
      (s.conn .initiator).rcv)) = some (1, 1, 1, .sigFlow) := by decide +kernel
  have hreader : (run Pipe.step (tinyStart true) settledDelivery).map (fun s =>
      ((s.conn .acceptor).recvBuf, (s.conn .acceptor).recvData, (s.conn .acceptor).lastAckSent)) =
        some ([], 1, 1) := by decide +kernel
  obtain ⟨s, hr, hs⟩ := Option.map_eq_some_iff.1 hwriter
  rw [hr, Option.map_some, Option.some.injEq] at hreader
  simp only [Prod.mk.injEq] at hs hreader
  obtain ⟨htotal, hsent, hack, hrcv⟩ := hs
  obtain ⟨hbuf, hrecv, hlast⟩ := hreader
  have hq : Drained s .initiator :=
    ⟨⟨hbuf, hrecv.trans hsent.symm⟩, hlast.trans hrecv.symm, UInt64.le_of_eq (hlast.trans hack.symm), by rw [hrcv]; rfl⟩
  exact ⟨s, hr, backlog_bounded (fun _ => 0) (fun _ => tiny) (fun _ => 0) (fun _ => true) .initiator 1
    settledDelivery s hio hw hN hr (by rw [htotal]; decide) hq⟩

/-! ## Heartbeats

With segments of one byte every heartbeat takes a segment of its own. -/

/-- The reader stands at the end of the current segment. -/
structure SegDir.Consumed (d : SegDir) : Prop where
  cur : d.r.cur = d.cur
  buf : d.r.buf = []
  off : ∃ ino, d.r.f = some ino ∧ d.names d.cur = some ino ∧ d.r.off = ((d.files[ino]?).getD []).length

theorem Lap.consumed {zero one : List UInt8} (h : Lap crc zero one d pre last) : d.Consumed := by
  refine ⟨h.rcur, h.rbuf, pre.length, h.rf, h.layout.live, ?_⟩
  rw [h.layout.file_last]
  exact h.roff

/-- **The pipe after `n` rolls of the initiator's direction**, with everything read and nothing to acknowledge. -/
structure Beating (zero one : List UInt8) (s : Pipe (segFiles crc)) (n : Nat) : Prop where
  idles   : (s.conn .initiator).Idles
  listens : (s.conn .acceptor).Listens
  drained : Drained s .initiator
  lap     : ∃ pre last, pre.length = n ∧ Lap crc zero one (s.dir .initiator) pre last
  names   : ∀ i : UInt32, i.toNat ≤ n → SegDir.names (s.dir .initiator) i = some i.toNat
  back    : SegDir.Consumed (s.dir .acceptor)

section
variable {zero one : List UInt8} {s : Pipe (segFiles crc)} {n : Nat}

/-- Every segment but the current one has its ROLL on disk. -/
theorem Beating.backlog_ge (h : Beating zero one s n) (hn : n ≤ UInt32.size) :
    n * rollLen ≤ SegDir.backlog (s.dir .initiator) := by
  obtain ⟨pre, last, rfl, hlap⟩ := h.lap
  have hge : ∀ i ∈ Finset.range pre.length, rollLen ≤ SegDir.sizeOf (s.dir .initiator) (.ofNat i) := by
    intro i hi
    have hlt := Finset.mem_range.1 hi
    have hi' : (UInt32.ofNat i).toNat = i := UInt32.toNat_ofNat_of_lt' (by omega)
    unfold SegDir.sizeOf
    rw [h.names _ (by omega), hi']
    dsimp only
    rw [hlap.layout.file_closed (List.getElem?_eq_getElem hlt), Option.getD_some, encodes_append, encodes_singleton,
      List.length_append, length_rollFrame]
    exact Nat.le_add_left _ _
  calc pre.length * rollLen = (Finset.range pre.length).card * rollLen := by rw [Finset.card_range]
    _ ≤ ∑ i ∈ Finset.range pre.length, SegDir.sizeOf (s.dir .initiator) (.ofNat i) := Finset.card_nsmul_le_sum _ _ _ hge
    _ ≤ _ := Finset.sum_le_sum_of_subset (Finset.range_subset_range.2 hn)

/-- One more heartbeat, and one more segment. -/
theorem Beating.next (h : Beating zero one s n) (hn : n + 1 < UInt32.size) :
    ∃ t, Machine.Reaches Pipe.step SmoothLabel s t ∧ Beating zero one t (n + 1) := by
  obtain ⟨pre, last, rfl, hlap⟩ := h.lap
  obtain ⟨t, ht, hinit, hacc, hback, hlap', hnames⟩ := Lap.round h.idles h.listens hlap hn
  refine ⟨t, ht, ⟨?_, hacc ▸ h.listens, ?_, ⟨_, _, List.length_append, hlap'⟩, fun i hi => ?_, hback ▸ h.back⟩⟩
  · rw [hinit]
    exact ⟨h.idles.up, h.idles.mnt, h.idles.acked, h.idles.opened⟩
  · have hacc' : t.conn Role.initiator.peer = s.conn .acceptor := hacc
    refine ⟨?_, ?_, ?_⟩
    · rw [hinit, hacc']
      exact h.drained.read
    · rw [hacc']
      exact h.drained.acked
    · rw [hinit, hacc']
      exact h.drained.heard
  · by_cases hle : i.toNat ≤ pre.length
    · rw [hnames i hle]
      exact h.names i hle
    · have hcur := hlap'.layout.cur
      rw [List.length_append, List.length_singleton] at hcur
      obtain rfl : i = SegDir.cur (t.dir .initiator) := UInt32.toNat_inj.1 (by omega)
      rw [hlap'.layout.live, hlap'.layout.cur]

theorem Beating.rounds (h : Beating zero one s n) :
    ∀ k, n + k < UInt32.size → ∃ t, Machine.Reaches Pipe.step SmoothLabel s t ∧ Beating zero one t (n + k)
  | 0, _ => ⟨s, .refl _ _ _, h⟩
  | k + 1, hk => by
    obtain ⟨t, ht, hbeat⟩ := h.rounds k (by omega)
    obtain ⟨u, hu, hbeat'⟩ := hbeat.next hk
    exact ⟨u, ht.trans hu, hbeat'⟩

end

/-- Segments, window and frames of one byte. -/
def narrowStart : Pipe (segFiles (fun _ => 0)) :=
  Pipe.startFiles (fun _ => 0) (fun _ => narrow) (fun _ => 0) (fun _ => false)

/-- Both handshakes, and the acceptor waiting for a frame. -/
def meeting : List Step :=
  [.initiator (.hand (.openW true)) [], .initiator (.hand (.syn true)) [], .acceptor (.hand (.openW true)) [],
   .acceptor (.hand (.syn true)) [], .acceptor (.hand (.turn .again 0)) [(0, 1000)],
   .acceptor (.hand (.turn (.frame narrow.syn) 0)) [], .initiator (.hand (.turn .again 0)) [(0, 1000)],
   .initiator (.hand (.turn (.frame narrow.syn) 0)) [], .acceptor (.recv .go) []]

/-- A heartbeat of the initiator to segment `k`, and the acceptor's read of it. -/
def pulseTo (k : Nat) : List Step :=
  [.initiator (.maint (.tick 0)) [], .initiator (.maint (.go true 0)) [], .initiator (.maint (.go true 0)) [],
   .initiator (.maint (.go true 0)) [], .acceptor (.recv (.turn .again 0)) [], .acceptor (.recv (.turn .again 0)) [],
   .acceptor (.recv (.turn .again 0)) [(k, 1000)],
   .acceptor (.recv (.turn (.frame ⟨frameHeartbeat, 0, .ofNat k, 0, encodeUint64 0⟩) 0)) [], .acceptor (.recv .go) [],
   .acceptor (.recv .go) []]

def twoPulses : List Step := meeting ++ pulseTo 1 ++ pulseTo 2

theorem twoPulses_conns : (run Pipe.step narrowStart twoPulses).map (fun s => (s.conn .initiator, s.conn .acceptor)) =
    some ({ params := narrow, idleTimeout := 0, phase := .up, sendSeq := 3 },
      { params := narrow, idleTimeout := 0, phase := .up, rcv := .next }) := by decide +kernel

theorem twoPulses_writer : (run Pipe.step narrowStart twoPulses).map (fun s =>
    let d : SegDir := s.dir .initiator
    (d.maxSeg, d.netFS, d.closed, d.size, d.cur)) = some (1, false, false, 34, 2) := by decide +kernel

theorem twoPulses_names : (run Pipe.step narrowStart twoPulses).map (fun s =>
    let d : SegDir := s.dir .initiator
    (d.names 0, d.names 1, d.names 2)) = some (some 0, some 1, some 2) := by decide +kernel

theorem twoPulses_reader : (run Pipe.step narrowStart twoPulses).map (fun s =>
    let d : SegDir := s.dir .initiator
    (d.files.map List.length, d.shown 0, d.shown 1, d.shown 2, d.r)) =
      some ([78, 64, 34], some 1000, some 1000, some 1000, ⟨2, some 2, 34, []⟩) := by decide +kernel

theorem twoPulses_back : (run Pipe.step narrowStart twoPulses).map (fun s =>
    let d : SegDir := s.dir .acceptor
    (d.files.map List.length, d.cur, d.names 0, d.r)) = some ([48], 0, some 0, ⟨0, some 0, 48, []⟩) := by decide +kernel

theorem twoPulses_beating : ∃ zero one s, Machine.Reaches Pipe.step SmoothLabel narrowStart s ∧
    Beating zero one s 2 := by
  have hsm : ∀ l ∈ twoPulses, SegIo.Smooth l.io := by decide +kernel
  obtain ⟨s, hs⟩ : ∃ s, run Pipe.step narrowStart twoPulses = some s := Option.isSome_iff_exists.1 (by decide +kernel)
  have hconns := twoPulses_conns
  have hwriter := twoPulses_writer
  have hnames := twoPulses_names
  have hreader := twoPulses_reader
  have hback := twoPulses_back
  rw [hs] at hconns hwriter hnames hreader hback
  simp only [Option.map_some, Option.some.injEq, Prod.mk.injEq] at hconns hwriter hnames hreader hback
  obtain ⟨hinit, hacc⟩ := hconns
  obtain ⟨hmax, hnet, hcl, hsize, hcur⟩ := hwriter
  obtain ⟨hn0, hn1, hn2⟩ := hnames
  obtain ⟨hfiles, hs0, hs1, hs2, hr⟩ := hreader
  obtain ⟨hfiles', hcur', hn', hr'⟩ := hback
  obtain ⟨zero, one, two, hfs, hlen⟩ : ∃ zero one two, SegDir.files (s.dir .initiator) = [zero, one, two] ∧
      two.length = 34 := by
    match hf : SegDir.files (s.dir .initiator) with
    | [zero, one, two] =>
      rw [hf] at hfiles
      simp only [List.map_cons, List.cons.injEq] at hfiles
      exact ⟨zero, one, two, rfl, hfiles.2.2.1⟩
    | [] | [_] | [_, _] | _ :: _ :: _ :: _ :: _ =>
      rw [hf] at hfiles
      simp at hfiles
  obtain ⟨u, hsim, -⟩ := fileSim_of_run hsm (by decide +kernel) hs
  refine ⟨zero, one, s, ⟨_, hsm, hs⟩, ⟨?_, ?_, ⟨?_, ?_, ?_⟩, ?_, fun i hi => ?_, ?_⟩⟩
  · rw [hinit]; exact ⟨rfl, rfl, rfl, rfl⟩
  · rw [hacc]; exact ⟨rfl, rfl, rfl, rfl⟩
  · rw [hinit, show s.conn Role.initiator.peer = _ from hacc]; exact ⟨rfl, rfl⟩
  · rw [show s.conn Role.initiator.peer = _ from hacc]
  · rw [hinit, show s.conn Role.initiator.peer = _ from hacc]; exact ⟨Nat.le_refl 0, rfl⟩
  · rcases hsim.dirs .initiator with ⟨hfresh, -⟩ | ⟨pre, last, hl, -⟩
    · rw [hfresh.files] at hfs
      cases hfs
    · obtain ⟨hpre, hlap⟩ := hl.lap hcur ⟨hmax, hnet, hcl⟩ (by omega) ⟨hn0, hn1⟩ hfs (by omega) ⟨hs0, hs1, hs2⟩
        (by rw [hr, hlen])
      exact ⟨pre, last, hpre, hlap⟩
  · obtain rfl | rfl | rfl : i = 0 ∨ i = 1 ∨ i = 2 := by
      simp only [← UInt32.toNat_inj, UInt32.toNat_ofNat]
      omega
    · exact hn0
    · exact hn1
    · exact hn2
  · refine ⟨by rw [hr', hcur'], by rw [hr'], 0, by rw [hr'], by rw [hcur']; exact hn', ?_⟩
    match hf : SegDir.files (s.dir .acceptor) with
    | [syn] =>
      rw [hf] at hfiles'
      rw [hr']
      exact (List.cons.inj hfiles').1.symm
    | [] | _ :: _ :: _ =>
      rw [hf] at hfiles'
      simp at hfiles'

/-- **Heartbeats alone fill the directory.** Of all that is in it the reader has read every byte, and no bound below
`2 ^ 36` holds. -/
theorem heartbeats_leak : ¬ ∃ B < 2 ^ 36, ∀ (ls : List Step) (s : Pipe (segFiles (fun _ => 0))),
    (∀ l ∈ ls, SegIo.Smooth l.io) → run Pipe.step narrowStart ls = some s → Drained s .initiator →
      SegDir.Consumed (s.dir .initiator) → SegDir.Consumed (s.dir .acceptor) →
        SegDir.backlog (s.dir .initiator) ≤ B := by
  rintro ⟨B, hB, hall⟩
  have hn : 2 + B / rollLen < UInt32.size := by
    show 2 + B / 30 < 4294967296
    omega
  obtain ⟨zero, one, s, hs, hbeat⟩ := twoPulses_beating
  obtain ⟨t, ht, hbeat'⟩ := hbeat.rounds (B / rollLen) hn
  obtain ⟨ls, hls, hrun⟩ := hs.trans ht
  obtain ⟨pre, last, -, hlap⟩ := hbeat'.lap
  have hle := hall ls t hls hrun hbeat'.drained hlap.consumed hbeat'.back
  have hge := hbeat'.backlog_ge hn.le
  have hdiv : B < (2 + B / rollLen) * rollLen := by
    show B < (2 + B / 30) * 30
    omega
  omega

end Fstun
end Ccb
