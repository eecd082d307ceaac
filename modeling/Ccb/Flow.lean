import Ccb.Stream
/-!
# Flow — the send window

`Flow` is the invariant of one direction's counters over `Fifo`: `sentData` and `recvData` are the totals modulo `2 ^
64`, every acknowledgement anywhere is at most what the receiver's Reads have taken, and what is sent stays within the
window past the last acknowledgement processed, a `Write` between its window check and its `emit` included.
-/
namespace Ccb
namespace Fstun

/-- The room a `Write` has measured. -/
def WritePc.room : WritePc → Option Int64
  | .errCheck _ _ _ room | .emit _ _ room => some room
  | _ => none

theorem WritePc.room_of_waits {p : WritePc} (h : p.waits = true) : p.room = none := by
  cases p <;> first | rfl | cases h

structure Flow (S R : Core) (D E : Fifo) : Prop where
  sentData : S.sentData = .ofNat S.sentTotal
  recvData : R.recvData = .ofNat R.taken.length
  log_le   : (dataOf D.log).length ≤ S.sentTotal
  acks     : ∀ v ∈ R.acks, v.toNat ≤ R.taken.length
  acked    : ∀ f ∈ E.log, f.typ = frameACK → ∀ v, decodeUint64 f.payload = some v → v.toNat ≤ R.taken.length
  hand     : ∀ f ∈ S.hand, f ∈ E.log
  peerAck  : S.peerAck.toNat ≤ R.taken.length
  reaping  : ∀ v ∈ S.reaping, v = S.peerAck
  window   : S.sentTotal ≤ S.peerAck.toNat + S.params.window.toNat
  room     : ∀ room ∈ S.wr.room, S.sentTotal + room.toInt.toNat ≤ S.peerAck.toNat + S.params.window.toNat
  rest     : S.wr.rest ≠ some []
  passed   : ∀ sent rest room, S.wr = .emit sent rest room → 0 < room
  chunks   : ∀ f ∈ D.log, f.typ = frameDATA → 1 ≤ f.payload.length ∧ f.payload.length ≤ S.params.maxFrame.toNat

/-! ## Arithmetic -/

theorem toNat_ofNat_sub {n : Nat} {a : UInt64} (h : a.toNat ≤ n) (hlt : n - a.toNat < UInt64.size) :
    (UInt64.ofNat n - a).toNat = n - a.toNat := by
  have ha : a = UInt64.ofNat a.toNat := by simp
  rw [ha, ← UInt64.ofNat_sub h, UInt64.toNat_ofNat_of_lt' hlt]
  simp

theorem toInt_toInt64 {a : UInt64} (h : a.toNat < 9223372036854775808) : a.toInt64.toInt = a.toNat := by
  show a.toBitVec.toInt = _
  have hlt : 2 * a.toBitVec.toNat < 2 ^ 64 := by
    show 2 * a.toNat < 18446744073709551616
    omega
  rw [BitVec.toInt_eq_toNat_of_lt hlt]
  rfl

/-- **The room is what the window leaves**, when what is outstanding is within it. -/
theorem room_eq {total : Nat} {w ack : UInt64} (hw : w.toNat < 9223372036854775808) (hle : ack.toNat ≤ total)
    (hwin : total ≤ ack.toNat + w.toNat) :
    (w.toInt64 - (UInt64.ofNat total - ack).toInt64).toInt = (w.toNat : Int) - (total - ack.toNat : Nat) := by
  have hsub : (UInt64.ofNat total - ack).toNat = total - ack.toNat :=
    toNat_ofNat_sub hle (by unfold UInt64.size; omega)
  rw [Int64.toInt_sub, toInt_toInt64 hw, toInt_toInt64 (by omega), hsub]
  rw [Int.bmod_eq_of_le] <;> omega

theorem chunkLen_le (len : Nat) (room : Int64) (mf : UInt32) :
    chunkLen len room mf ≤ len ∧ chunkLen len room mf ≤ room.toInt.toNat ∧ chunkLen len room mf ≤ mf.toNat := by
  unfold chunkLen
  dsimp only
  split <;> split <;> omega

/-! ## The sender's moves -/

variable {S R S' R' : Core} {D E D' E' : Fifo} {call : Option Call}

/-- The sender's side, when the counters stay. -/
theorem Flow.keep (h : Flow S R D E) (hD : (dataOf D'.log).length ≤ S.sentTotal)
    (hch : ∀ f ∈ D'.log, f.typ = frameDATA → 1 ≤ f.payload.length ∧ f.payload.length ≤ S.params.maxFrame.toNat)
    (hE : E'.log = E.log) (hd : S'.sentData = S.sentData) (ht : S'.sentTotal = S.sentTotal)
    (ha : S'.peerAck = S.peerAck) (hp : S'.params = S.params) (hh : ∀ f ∈ S'.hand, f ∈ E.log)
    (hr : ∀ v ∈ S'.reaping, v = S.peerAck)
    (hroom : ∀ room ∈ S'.wr.room, S.sentTotal + room.toInt.toNat ≤ S.peerAck.toNat + S.params.window.toNat)
    (hrest : S'.wr.rest ≠ some []) (hpass : ∀ sent rest room, S'.wr = .emit sent rest room → 0 < room) :
    Flow S' R D' E' where
  sentData := by rw [hd, ht]; exact h.sentData
  recvData := h.recvData
  log_le   := by rw [ht]; exact hD
  acks     := h.acks
  acked    := by rw [hE]; exact h.acked
  hand     := by rw [hE]; exact hh
  peerAck  := by rw [ha]; exact h.peerAck
  reaping  := by rw [ha]; exact hr
  window   := by rw [ht, ha, hp]; exact h.window
  room     := by rw [ht, ha, hp]; exact hroom
  rest     := hrest
  passed   := hpass
  chunks   := by rw [hp]; exact hch

/-- A control frame leaves the bytes and the chunks of the log. -/
theorem Flow.ctl (h : Flow S R D E) {f : Frame} (hf : f.typ ≠ frameDATA) (ok : Bool) :
    (dataOf (if ok then { D with log := D.log ++ [f] } else D : Fifo).log).length ≤ S.sentTotal ∧
      ∀ g ∈ (if ok then { D with log := D.log ++ [f] } else D : Fifo).log, g.typ = frameDATA →
        1 ≤ g.payload.length ∧ g.payload.length ≤ S.params.maxFrame.toNat := by
  cases ok with
  | false => exact ⟨h.log_le, h.chunks⟩
  | true =>
    constructor
    · show (dataOf (D.log ++ [f])).length ≤ _
      rw [dataOf_append, dataOf_singleton, Frame.data_of_ne hf, List.append_nil]
      exact h.log_le
    · intro g hg ht
      rcases List.mem_append.1 hg with hg | hg
      · exact h.chunks g hg ht
      · rw [List.mem_singleton.1 hg] at ht
        exact absurd ht hf

theorem Flow.taken_le (h : Flow S R D E) (hst : Stream S R D) : R.taken.length ≤ S.sentTotal := by
  have h1 := hst.begins.length_le
  rw [← hst.sent] at h1
  exact le_trans h1 h.log_le

/-- The chunk a `Write` past its checks sends. -/
theorem Flow.chunk (h : Flow S R D E) {sent rest : List UInt8} {room : Int64} (hwr : S.wr = .emit sent rest room) :
    1 ≤ (S.chunk rest room).length ∧ (S.chunk rest room).length ≤ S.params.maxFrame.toNat ∧
      (S.chunk rest room).length ≤ room.toInt.toNat := by
  have hroom : 0 < room.toInt := by
    have := Int64.lt_iff_toInt_lt.1 (h.passed sent rest room hwr)
    simpa using this
  have hne : rest ≠ [] := by
    rintro rfl
    exact h.rest (by rw [hwr]; rfl)
  have hpos := List.length_pos_iff.2 hne
  have hmf := S.params.frame_pos
  obtain ⟨h1, h2, h3⟩ := chunkLen_le rest.length room S.params.maxFrame
  have hlen : (S.chunk rest room).length = chunkLen rest.length room S.params.maxFrame := by
    rw [Core.chunk, List.length_take]
    omega
  rw [hlen]
  refine ⟨?_, h3, h2⟩
  unfold chunkLen
  dsimp only
  split <;> split <;> omega

theorem Flow.sendData (h : Flow S R D E) {sent rest : List UInt8} {room : Int64} (ok : Bool) {wr : WritePc}
    (hwr : S.wr = .emit sent rest room) (hw : wr.waits = true) (hrest : wr.rest ≠ some []) :
    Flow { S with sendSeq := S.sendSeq + 1, sentData := S.sentData + .ofNat (S.chunk rest room).length,
                  sentTotal := S.sentTotal + (S.chunk rest room).length,
                  written := if ok then S.written ++ S.chunk rest room else S.written, wr := wr } R
      (if ok then { D with log := D.log ++ [S.frame frameDATA (S.chunk rest room)] } else D) E := by
  obtain ⟨h1, h2, h3⟩ := h.chunk hwr
  have hroom := h.room room (by rw [hwr]; rfl)
  refine ⟨?_, h.recvData, ?_, h.acks, h.acked, h.hand, h.peerAck, h.reaping, ?_, ?_, hrest, ?_, ?_⟩
  · show S.sentData + _ = _
    rw [h.sentData, ← UInt64.ofNat_add]
  · show _ ≤ S.sentTotal + (S.chunk rest room).length
    have := h.log_le
    cases ok with
    | false => exact le_trans this (Nat.le_add_right _ _)
    | true =>
      show (dataOf (D.log ++ [_])).length ≤ _
      rw [dataOf_append, dataOf_singleton, Frame.data_of_eq rfl, List.length_append]
      exact Nat.add_le_add_right this _
  · show S.sentTotal + (S.chunk rest room).length ≤ S.peerAck.toNat + S.params.window.toNat
    omega
  · intro r hr
    change r ∈ wr.room at hr
    rw [wr.room_of_waits hw] at hr
    cases hr
  · rintro s r m rfl
    cases hw
  · cases ok with
    | false => exact h.chunks
    | true =>
      intro f hf ht
      rcases List.mem_append.1 hf with hf | hf
      · exact h.chunks f hf ht
      · rw [List.mem_singleton.1 hf]
        exact ⟨h1, h2⟩

/-- The window check: the room is what the last acknowledgement leaves. -/
theorem Flow.measured (h : Flow S R D E) (hst : Stream S R D) :
    S.sentTotal + S.room.toInt.toNat ≤ S.peerAck.toNat + S.params.window.toNat := by
  have hack : S.peerAck.toNat ≤ S.sentTotal := le_trans h.peerAck (h.taken_le hst)
  have hwin := h.window
  have hroom : S.room.toInt = (S.params.window.toNat : Int) - (S.sentTotal - S.peerAck.toNat : Nat) := by
    unfold Core.room
    rw [h.sentData]
    exact room_eq S.params.window_lt hack hwin
  omega

theorem Flow.ack (h : Flow S R D E) {f : Frame} {v : UInt64} (hf : S.hand = some f) (ht : f.typ = frameACK)
    (hv : decodeUint64 f.payload = some v) :
    Flow { S with peerAck := if S.peerAck < v then v else S.peerAck, hand := none,
                  reaping := some (if S.peerAck < v then v else S.peerAck) } R D E := by
  have hv' := h.acked f (h.hand f hf) ht v hv
  have hmax : S.peerAck.toNat ≤ (if S.peerAck < v then v else S.peerAck).toNat ∧
      (if S.peerAck < v then v else S.peerAck).toNat ≤ R.taken.length := by
    split
    · rename_i hlt
      have := UInt64.lt_iff_toNat_lt.1 hlt
      exact ⟨by omega, hv'⟩
    · exact ⟨Nat.le_refl _, h.peerAck⟩
  refine ⟨h.sentData, h.recvData, h.log_le, h.acks, h.acked, (fun g hg => by cases hg), hmax.2, ?_, ?_, ?_, h.rest,
    h.passed, h.chunks⟩
  · intro w hw
    exact (Option.some.inj hw).symm
  · exact le_trans h.window (Nat.add_le_add_right hmax.1 _)
  · intro room hr
    exact le_trans (h.room room hr) (Nat.add_le_add_right hmax.1 _)

theorem Flow.sender (h : Flow S R D E) (hst : Stream S R D) (hs : Core.Step S call S')
    (hm : Fifo.Moved D E call D' E') : Flow S' R D' E' := by
  have hctl : ∀ {S' : Core} {f : Frame} {e : UInt64} {ok : Bool}, f.typ ≠ frameDATA → S'.sentData = S.sentData →
      S'.sentTotal = S.sentTotal → S'.peerAck = S.peerAck → S'.params = S.params → S'.hand = S.hand →
      S'.reaping = S.reaping → S'.wr = S.wr → Fifo.Moved D E (some (.append f e ok)) D' E' → Flow S' R D' E' := by
    intro S' f e ok hf h1 h2 h3 h4 h5 h6 h7 hm
    obtain ⟨rfl, rfl⟩ := hm.append
    obtain ⟨hD, hch⟩ := h.ctl hf ok
    exact h.keep hD hch rfl h1 h2 h3 h4 (by rw [h5]; exact h.hand) (by rw [h6]; exact h.reaping)
      (by rw [h7]; exact h.room) (by rw [h7]; exact h.rest) (by rw [h7]; exact h.passed)
  cases hs with
  | syn ok hp => exact hctl (by show frameSYN ≠ _; decide) rfl rfl rfl rfl rfl rfl rfl hm
  | sendAck v ok l => exact hctl (by show frameACK ≠ _; decide) rfl rfl rfl rfl rfl rfl rfl hm
  | sendBeat v ok => exact hctl (by show frameHeartbeat ≠ _; decide) rfl rfl rfl rfl rfl rfl rfl hm
  | sendFin ok => exact hctl (by show frameFIN ≠ _; decide) rfl rfl rfl rfl rfl rfl rfl hm
  | sendData sent rest room ok wr _ _ hwr hw hrest =>
    obtain ⟨rfl, rfl⟩ := hm.append
    exact h.sendData ok hwr hw hrest
  | hello f | refuse f =>
    obtain ⟨rfl, -, rfl⟩ := hm.frame
    exact h.keep h.log_le h.chunks rfl rfl rfl rfl rfl h.hand h.reaping h.room h.rest h.passed
  | frame f =>
    obtain ⟨rfl, hat, rfl⟩ := hm.frame
    refine h.keep h.log_le h.chunks rfl rfl rfl rfl rfl (fun g hg => ?_) h.reaping h.room h.rest h.passed
    cases hg
    exact List.mem_of_getElem? hat
  | phase _ _ _ _ _ hpl | closeLate _ _ _ _ _ hpl =>
    obtain ⟨rfl, rfl⟩ := hm.still (fun x hx => Or.inl (hpl x hx))
    exact h.keep h.log_le h.chunks rfl rfl rfl rfl rfl h.hand h.reaping h.room h.rest h.passed
  | next t _ hpl =>
    obtain ⟨rfl, rfl⟩ := hm.still (fun x hx => by cases hx; exact Or.inl hpl)
    exact h
  | reap v =>
    obtain ⟨rfl, rfl⟩ := hm.still (fun x hx => by cases hx; exact Or.inr ⟨v, rfl⟩)
    exact h.keep h.log_le h.chunks rfl rfl rfl rfl rfl h.hand (fun v hv => by cases hv) h.room h.rest h.passed
  | write wr _ _ hw hrest =>
    obtain ⟨rfl, rfl⟩ := hm.still (fun x hx => by cases hx)
    refine h.keep h.log_le h.chunks rfl rfl rfl rfl rfl h.hand h.reaping (fun r hr => ?_) ?_ ?_
    · change r ∈ wr.room at hr
      rw [wr.room_of_waits hw] at hr
      cases hr
    · rcases hrest with hrest | hrest
      · show wr.rest ≠ _
        rw [hrest]; exact h.rest
      · exact hrest
    · rintro s r m rfl
      cases hw
  | writeCall wr _ _ hw hrest =>
    obtain ⟨rfl, rfl⟩ := hm.still (fun x hx => by cases hx)
    refine h.keep h.log_le h.chunks rfl rfl rfl rfl rfl h.hand h.reaping (fun r hr => ?_) hrest ?_
    · change r ∈ wr.room at hr
      rw [wr.room_of_waits hw] at hr
      cases hr
    · rintro s r m rfl
      cases hw
  | measure sent rest _ hwr =>
    obtain ⟨rfl, rfl⟩ := hm.still (fun x hx => by cases hx)
    refine h.keep h.log_le h.chunks rfl rfl rfl rfl rfl h.hand h.reaping (fun r hr => ?_) ?_
      (fun s r m he => by cases he)
    · cases hr
      exact h.measured hst
    · intro hr
      exact h.rest (by rw [hwr]; exact hr)
  | pass sent rest room _ hwr hpos =>
    obtain ⟨rfl, rfl⟩ := hm.still (fun x hx => by cases hx)
    refine h.keep h.log_le h.chunks rfl rfl rfl rfl rfl h.hand h.reaping (fun r hr => ?_) ?_ (fun s r m he => ?_)
    · cases hr
      exact h.room _ (by rw [hwr]; rfl)
    · intro hr
      exact h.rest (by rw [hwr]; exact hr)
    · cases he
      exact hpos
  | ack f v _ hf ht hv =>
    obtain ⟨rfl, rfl⟩ := hm.still (fun x hx => by cases hx)
    exact h.ack hf ht hv
  | data | fin | other =>
    obtain ⟨rfl, rfl⟩ := hm.still (fun x hx => by cases hx)
    exact h.keep h.log_le h.chunks rfl rfl rfl rfl rfl (fun f hf => by cases hf) h.reaping h.room h.rest h.passed
  | quiet | take | eof | acks | close | closeSet =>
    obtain ⟨rfl, rfl⟩ := hm.still (fun x hx => by cases hx)
    exact h.keep h.log_le h.chunks rfl rfl rfl rfl rfl h.hand h.reaping h.room h.rest h.passed

/-! ## The receiver's moves -/

/-- The receiver's side: what it has taken grows, and the acknowledgements it holds or sends stay behind. -/
theorem Flow.grow (h : Flow S R D E) (hD : D'.log = D.log) (ht : R.taken.length ≤ R'.taken.length)
    (hd : R'.recvData = .ofNat R'.taken.length) (ha : ∀ v ∈ R'.acks, v.toNat ≤ R'.taken.length)
    (hE : ∀ f ∈ E'.log, f ∈ E.log ∨ (f.typ = frameACK → ∀ v, decodeUint64 f.payload = some v → v ∈ R.acks))
    (hE' : ∀ f ∈ E.log, f ∈ E'.log) : Flow S R' D' E' where
  sentData := h.sentData
  recvData := hd
  log_le   := by rw [hD]; exact h.log_le
  acks     := ha
  acked    := by
    intro f hf hty v hv
    rcases hE f hf with hold | hnew
    · exact le_trans (h.acked f hold hty v hv) ht
    · exact le_trans (h.acks v (hnew hty v hv)) ht
  hand     := fun f hf => hE' f (h.hand f hf)
  peerAck  := le_trans h.peerAck ht
  reaping  := h.reaping
  window   := h.window
  room     := h.room
  rest     := h.rest
  passed   := h.passed
  chunks   := by rw [hD]; exact h.chunks

theorem Flow.receiver (h : Flow S R D E) (hs : Core.Step R call R') (hm : Fifo.Moved E D call E' D') :
    Flow S R' D' E' := by
  have hsame : ∀ {R' : Core} {D' : Fifo}, D'.log = D.log → R'.taken = R.taken → R'.recvData = R.recvData →
      R'.acks = R.acks → Flow S R' D' E := by
    intro R' D' hD ht hd ha
    refine h.grow hD (by rw [ht]) (by rw [hd, ht]; exact h.recvData) (by rw [ha, ht]; exact h.acks)
      (fun f hf => Or.inl hf) (fun f hf => hf)
  -- A frame the receiver sends: an acknowledgement it held, or no acknowledgement.
  have hsend : ∀ {R' : Core} {f : Frame} {e : UInt64} {ok : Bool},
      (f.typ = frameACK → ∀ v, decodeUint64 f.payload = some v → v ∈ R.acks) → R'.taken = R.taken →
      R'.recvData = R.recvData → R'.acks ⊆ R.acks → Fifo.Moved E D (some (.append f e ok)) E' D' →
      Flow S R' D' E' := by
    intro R' f e ok hf ht hd ha hm
    obtain ⟨rfl, rfl⟩ := hm.append
    refine h.grow rfl (by rw [ht]) (by rw [hd, ht]; exact h.recvData)
      (fun v hv => by rw [ht]; exact h.acks v (ha hv)) ?_ ?_
    · cases ok with
      | false => exact fun g hg => Or.inl hg
      | true =>
        intro g hg
        rcases List.mem_append.1 hg with hg | hg
        · exact Or.inl hg
        · rw [List.mem_singleton.1 hg]; exact Or.inr hf
    · cases ok with
      | false => exact fun g hg => hg
      | true => exact fun g hg => List.mem_append_left _ hg
  cases hs with
  | syn ok hp =>
    exact hsend (fun ht => absurd ht (by show frameSYN ≠ _; decide)) rfl rfl (List.Subset.refl _) hm
  | sendAck v ok l _ _ _ hv hl =>
    refine hsend (fun _ w hw => ?_) rfl rfl hl hm
    rw [show (R.frame frameACK (encodeUint64 v)).payload = encodeUint64 v from rfl, decodeUint64_encode] at hw
    cases hw
    exact hv
  | sendBeat v ok =>
    exact hsend (fun ht => absurd ht (by show frameHeartbeat ≠ _; decide)) rfl rfl (List.Subset.refl _) hm
  | sendFin ok => exact hsend (fun ht => absurd ht (by show frameFIN ≠ _; decide)) rfl rfl (List.Subset.refl _) hm
  | sendData => exact hsend (fun ht => absurd ht (by show frameDATA ≠ _; decide)) rfl rfl (List.Subset.refl _) hm
  | take n =>
    obtain ⟨rfl, rfl⟩ := hm.still (fun x hx => by cases hx)
    have hlen : (R.taken ++ R.recvBuf.take n).length = R.taken.length + (R.recvBuf.take n).length :=
      List.length_append
    refine h.grow rfl (by rw [hlen]; omega) ?_ (fun v hv => ?_) (fun f hf => Or.inl hf) (fun f hf => hf)
    · show R.recvData + _ = .ofNat (R.taken ++ R.recvBuf.take n).length
      rw [hlen, UInt64.ofNat_add, h.recvData]
    · show _ ≤ (R.taken ++ R.recvBuf.take n).length
      exact le_trans (h.acks v hv) (by rw [hlen]; omega)
  | acks l _ _ hl =>
    obtain ⟨rfl, rfl⟩ := hm.still (fun x hx => by cases hx)
    refine h.grow rfl (Nat.le_refl _) h.recvData (fun v hv => ?_) (fun f hf => Or.inl hf) (fun f hf => hf)
    rcases List.mem_cons.1 (hl hv) with rfl | hv
    · rw [h.recvData, UInt64.toNat_ofNat']
      exact Nat.mod_le _ _
    · exact h.acks v hv
  | hello f | refuse f | frame f =>
    obtain ⟨rfl, -, rfl⟩ := hm.frame
    exact hsame rfl rfl rfl rfl
  | phase _ _ _ _ _ hpl | closeLate _ _ _ _ _ hpl =>
    obtain ⟨rfl, rfl⟩ := hm.still (fun x hx => Or.inl (hpl x hx))
    exact hsame rfl rfl rfl rfl
  | next t _ hpl =>
    obtain ⟨rfl, rfl⟩ := hm.still (fun x hx => by cases hx; exact Or.inl hpl)
    exact h
  | reap v =>
    obtain ⟨rfl, rfl⟩ := hm.still (fun x hx => by cases hx; exact Or.inr ⟨v, rfl⟩)
    exact hsame rfl rfl rfl rfl
  | quiet | eof | write | writeCall | measure | pass | close | closeSet | data | ack | fin | other =>
    obtain ⟨rfl, rfl⟩ := hm.still (fun x hx => by cases hx)
    exact hsame rfl rfl rfl rfl

/-! ## Runs -/

/-- **Both directions of a pipe over `Fifo`, in every state**: the stream, its end and its window. -/
structure PipeInv (S R : Core) (D E : Fifo) : Prop where
  stream : Stream S R D
  ended  : Ended S R D
  flow   : Flow S R D E

theorem PipeInv.sender (h : PipeInv S R D E) (hs : Core.Step S call S') (hm : Fifo.Moved D E call D' E') :
    PipeInv S' R D' E' :=
  ⟨h.stream.sender hs hm, h.ended.sender h.stream.pos_le hs hm, h.flow.sender h.stream hs hm⟩

theorem PipeInv.receiver (h : PipeInv S R D E) (hs : Core.Step R call R') (hm : Fifo.Moved E D call E' D') :
    PipeInv S R' D' E' :=
  ⟨h.stream.receiver hs hm, h.ended.receiver h.stream hs hm, h.flow.receiver hs hm⟩

theorem PipeInv.step (s : Pipe fifo) (l : Label fifo) (t : Pipe fifo)
    (h : ∀ r, PipeInv (s.conn r).core (s.conn r.peer).core (s.dir r) (s.dir r.peer)) (hs : s.step l = some t) :
    ∀ r, PipeInv (t.conn r).core (t.conn r.peer).core (t.dir r) (t.dir r.peer) := by
  refine Pipe.inv_fifo (I := fun S R D E => PipeInv S.core R.core D E) (G := fun _ _ => True) ?_ ?_ s l t h trivial hs
  · exact fun h _ hs hm => h.sender (step_core hs) hm
  · exact fun h _ hs hm => h.receiver (step_core hs) hm

theorem PipeInv.start (p : Role → Params) (idle : Role → Nat) (r : Role) :
    PipeInv ((Pipe.start p idle).conn r).core ((Pipe.start p idle).conn r.peer).core ((Pipe.start p idle).dir r)
      ((Pipe.start p idle).dir r.peer) where
  stream := ⟨Nat.le_refl _, rfl, fun _ => rfl, fun _ => ⟨rfl, rfl, rfl⟩⟩
  ended  := by
    refine ⟨?_, (fun h => by cases h), (fun _ _ => rfl), (fun _ n => ?_), (fun f hf => by cases hf),
      (fun h => by cases h), (fun h => by cases h)⟩
    · rintro ⟨f, hf, -⟩
      cases hf
    · intro _
      show dataOf (([] : List Frame).drop n) = []
      rw [List.drop_nil]; rfl
  flow   := by
    refine ⟨rfl, rfl, Nat.le_refl _, (fun v hv => by cases hv), (fun f hf => by cases hf), (fun f hf => by cases hf),
      Nat.zero_le _, (fun v hv => by cases hv), Nat.zero_le _, (fun r hr => by cases hr), (fun h => by cases h),
      (fun _ _ _ h => by cases h), (fun f hf => by cases hf)⟩

theorem pipeInv_of_run {p : Role → Params} {idle : Role → Nat} {ls : List (Label fifo)} {s : Pipe fifo}
    (h : Machine.run Pipe.step (Pipe.start p idle) ls = some s) (r : Role) :
    PipeInv (s.conn r).core (s.conn r.peer).core (s.dir r) (s.dir r.peer) :=
  Machine.inv_of_step (I := fun s => ∀ r, PipeInv (s.conn r).core (s.conn r.peer).core (s.dir r) (s.dir r.peer))
    PipeInv.step ls _ s (PipeInv.start p idle) h r

end Fstun
end Ccb
