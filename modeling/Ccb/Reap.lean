import Ccb.Fidelity
/-!
# Reap — which segments an ACK unlinks

A closed segment is recorded with the DATA offset at its roll, and an ACK unlinks it when that offset has been
acknowledged.  A roll for a DATA frame records the offset after that frame, which only a reader past the segment can
acknowledge; a roll for another frame records the offset before it, which a reader still inside the segment can.
-/
namespace Ccb
namespace Fstun

variable {crc : List UInt8 → UInt32} {d d' : SegDir} {pre pre' : List (List Frame)} {last last' : List Frame}

/-! ## The files determine the segments -/

theorem encode_ne_nil (f : Frame) : f.encode crc ≠ [] := by
  have : (f.encode crc).length = headerLen + f.payload.length + crcLen := Frame.length_encode f
  intro h
  rw [h, headerLen] at this
  simp at this
  omega

theorem encodes_inj : ∀ {l l' : List Frame}, (∀ f ∈ l, f.payload.length ≤ maxPayload) →
    (∀ f ∈ l', f.payload.length ≤ maxPayload) → encodes crc l = encodes crc l' → l = l'
  | [], [], _, _, _ => rfl
  | [], g :: l', _, _, h => by simp [encodes, encode_ne_nil] at h
  | f :: l, [], _, _, h => by simp [encodes, encode_ne_nil] at h
  | f :: l, g :: l', hl, hl', h => by
    have h' : f.encode crc ++ encodes crc l = g.encode crc ++ encodes crc l' := h
    have hf : decodeFrame crc (f.encode crc ++ encodes crc l) = .ok (f, (f.encode crc).length) :=
      decodeFrame_encode f _ (hl f List.mem_cons_self)
    have hg : decodeFrame crc (g.encode crc ++ encodes crc l') = .ok (g, (g.encode crc).length) :=
      decodeFrame_encode g _ (hl' g List.mem_cons_self)
    rw [h', hg] at hf
    obtain rfl : g = f := (Prod.mk.inj (Except.ok.inj hf)).1
    rw [encodes_inj (fun x hx => hl x (List.mem_cons_of_mem _ hx)) (fun x hx => hl' x (List.mem_cons_of_mem _ hx))
      (List.append_cancel_left h')]

theorem Layout.unique (h : Layout crc d pre last) (h' : Layout crc d' pre' last') (hcur : d'.cur = d.cur)
    (hf : d'.files = d.files) : pre' = pre ∧ last' = last := by
  have hlen : pre'.length = pre.length := by rw [← h.cur, ← h'.cur, hcur]
  have hfiles : fileFrames pre' last' = fileFrames pre last := by
    apply List.ext_getElem?
    intro k
    have hk : ((fileFrames pre' last')[k]?).map (encodes crc) = ((fileFrames pre last)[k]?).map (encodes crc) := by
      rw [← List.getElem?_map, ← List.getElem?_map, ← h.files, ← h'.files, hf]
    cases hx : (fileFrames pre' last')[k]? with
    | none =>
      cases hy : (fileFrames pre last)[k]? with
      | none => rfl
      | some fs => simp [hx, hy] at hk
    | some fs' =>
      cases hy : (fileFrames pre last)[k]? with
      | none => simp [hx, hy] at hk
      | some fs =>
        simp only [hx, hy, Option.map_some, Option.some.injEq] at hk
        rw [encodes_inj (h'.payload_le hx) (h.payload_le hy) hk]
  obtain ⟨hpre, hlast⟩ := List.append_inj hfiles (by simp [hlen])
  refine ⟨?_, by simpa using hlast⟩
  apply List.ext_getElem?
  intro k
  have hk := congrArg (fun l => l[k]?) hpre
  simp only [List.getElem?_mapIdx] at hk
  exact Option.map_injective (fun a b hab => List.append_cancel_right hab) hk

/-! ## What is recorded of a closed segment -/

/-- The DATA bytes up to the end of segment `k`. -/
def dataTo (pre : List (List Frame)) (last : List Frame) (k : Nat) : Nat :=
  (dataOf ((pre ++ [last]).take (k + 1)).flatten).length

/-- **A segment's recorded end** counts every DATA byte up to the frame that closed it, that frame included; it is the
first of the next segment. -/
def Recorded (pre : List (List Frame)) (last : List Frame) (total : Nat) (x : SegEnd) : Prop :=
  ∃ n g rest, x.dataEnd = .ofNat n ∧ n ≤ total ∧ (pre ++ [last])[x.idx.toNat + 1]? = some (g :: rest) ∧
    dataTo pre last x.idx.toNat + g.data.length ≤ n

/-- **The records of a direction and the place of its reader**, for the segments its files are. -/
structure Ends (crc : List UInt8 → UInt32) (d : SegDir) (e : Fifo) (total : Nat) : Prop where
  behind   : ∀ pre last, Layout crc d pre last → e.pos ≤ ((pre ++ [last]).take (d.r.cur.toNat + 1)).flatten.length
  recorded : ∀ pre last, Layout crc d pre last → ∀ x ∈ d.reapOff, Recorded pre last total x

section
variable {e e' : Fifo} {shut : Bool} {io : SegIo} {total total' : Nat}

theorem Recorded.mono {x : SegEnd} (h : Recorded pre last total x) (ht : total ≤ total') :
    Recorded pre last total' x := by
  obtain ⟨n, g, rest, h1, h2, h3, h4⟩ := h
  exact ⟨n, g, rest, h1, le_trans h2 ht, h3, h4⟩

theorem Ends.mono (h : Ends crc d e total) (ht : total ≤ total') : Ends crc d e total' :=
  ⟨h.behind, fun pre last hl x hx => (h.recorded pre last hl x hx).mono ht⟩

theorem Ends.fresh (hp : e.pos = 0) (hr : d.reapOff = []) : Ends crc d e total :=
  ⟨fun _ _ _ => by omega, fun _ _ _ x hx => by rw [hr] at hx; cases hx⟩

theorem Ends.of_layout (hl : Layout crc d pre last)
    (hb : e.pos ≤ ((pre ++ [last]).take (d.r.cur.toNat + 1)).flatten.length)
    (hr : ∀ x ∈ d.reapOff, Recorded pre last total x) : Ends crc d e total := by
  refine ⟨fun pre' last' hl' => ?_, fun pre' last' hl' => ?_⟩
  · obtain ⟨rfl, rfl⟩ := hl.unique hl' rfl rfl
    exact hb
  · obtain ⟨rfl, rfl⟩ := hl.unique hl' rfl rfl
    exact hr

/-- An operation that writes no frame and does not move the reader to another segment. -/
theorem Ends.keep (h : Ends crc d e total) (hd : DirSim crc shut d e) (hcur : d'.cur = d.cur) (hf : d'.files = d.files)
    (hr : d'.r.cur = d.r.cur) (hx : ∀ x ∈ d'.reapOff, x ∈ d.reapOff) (ht : total ≤ total') : Ends crc d' e total' := by
  rcases hd with ⟨hfr, -, hp⟩ | ⟨pre, last, hl, -⟩
  · refine .fresh hp (List.eq_nil_iff_forall_not_mem.2 fun x hx' => ?_)
    have := hx x hx'
    rw [hfr.reapOff] at this
    cases this
  · refine ⟨fun pre' last' hl' => ?_, fun pre' last' hl' x hx' => ?_⟩
    · obtain ⟨rfl, rfl⟩ := hl.unique hl' hcur hf
      rw [hr]
      exact h.behind _ _ hl
    · obtain ⟨rfl, rfl⟩ := hl.unique hl' hcur hf
      exact (h.recorded _ _ hl x (hx x hx')).mono ht

/-- Segments gone on with hold no fewer frames. -/
theorem length_take_flatten_le {α : Type} {L L' : List (List α)}
    (h : ∀ (k : Nat) (fs : List α), L[k]? = some fs → ∃ ext, L'[k]? = some (fs ++ ext)) :
    ∀ n, (L.take n).flatten.length ≤ (L'.take n).flatten.length
  | 0 => by simp
  | n + 1 => by
    have ih := length_take_flatten_le h n
    rw [List.take_add_one, List.take_add_one, List.flatten_append, List.flatten_append, List.length_append,
      List.length_append]
    cases hn : L[n]? with
    | none =>
      simp only [Option.toList_none, List.flatten_nil, List.length_nil]
      omega
    | some fs =>
      obtain ⟨ext, hext⟩ := h n fs hn
      simp only [hext, Option.toList_some, List.flatten_cons, List.flatten_nil, List.append_nil, List.length_append]
      omega

theorem Extends.length_le (h : Extends pre last pre' last') : pre.length ≤ pre'.length := by
  have := congrArg List.length (h.take pre.length (Nat.le_refl _))
  simp at this
  omega

theorem Extends.dataTo_eq (h : Extends pre last pre' last') {k : Nat} (hk : k < pre.length) :
    dataTo pre' last' k = dataTo pre last k := by
  have := h.length_le
  unfold dataTo
  rw [List.take_append_of_le_length (by omega), List.take_append_of_le_length (by omega), h.take (k + 1) (by omega)]

theorem Recorded.extend {x : SegEnd} (h : Recorded pre last total x) (hx : Extends pre last pre' last')
    (hk : x.idx.toNat < pre.length) (ht : total ≤ total') : Recorded pre' last' total' x := by
  obtain ⟨n, g, rest, h1, h2, h3, h4⟩ := h
  obtain ⟨ext, hext⟩ := hx.segs _ _ h3
  exact ⟨n, g, rest ++ ext, h1, le_trans h2 ht, hext, by rw [hx.dataTo_eq hk]; exact h4⟩

/-- The record a roll for the frame `f` makes. -/
theorem Recorded.of_roll {f : Frame} {i : UInt32} (hi : i.toNat = pre.length)
    (hle : (dataOf (pre.flatten ++ last)).length + f.data.length ≤ total) :
    Recorded (pre ++ [last]) [f] total ⟨i, .ofNat total⟩ := by
  refine ⟨total, f, [], rfl, Nat.le_refl _, ?_, ?_⟩
  · simp [hi]
  · have htake : ((pre ++ [last]) ++ [[f]]).take (pre.length + 1) = pre ++ [last] := by
      rw [List.take_append_of_le_length (by simp), List.take_of_length_le (by simp)]
    unfold dataTo
    rw [hi, htake]
    simpa using hle

theorem Ends.append {f : Frame} {ok : Bool} (h : Ends crc d e total) (hd : DirSim crc shut d e) (hio : io.Smooth)
    (hf : f.typ ≠ frameROLL ∧ f.payload.length ≤ maxPayload) (hfit : d.Fits crc (.append f (.ofNat total') ok))
    (hp : d.perform crc io (.append f (.ofNat total') ok) = some d')
    (he : e.perform (.append f (.ofNat total') ok) = some e')
    (hle : (dataOf e.log).length + f.data.length ≤ total') (ht : total ≤ total') : Ends crc d' e' total' := by
  have hpos : e'.pos = e.pos := by
    cases he
    split <;> rfl
  -- An append that does not come to a write changes nothing.
  have hsame : Ends crc d e' total' := by
    have := h.keep hd rfl rfl rfl (fun x hx => hx) ht
    exact ⟨fun pre last hl => hpos ▸ this.behind pre last hl, this.recorded⟩
  cases SegDir.perform_some hp
  cases hcl : d.closed with
  | true =>
    rw [SegDir.append_idle f _ (Or.inl hcl)]
    exact hsame
  | false =>
    rcases hd with ⟨hfr, -⟩ | ⟨pre, last, hl, hlog, -⟩
    · rw [SegDir.append_idle f _ (Or.inr hfr.f)]
      exact hsame
    · obtain ⟨d₁, pre', last', happ, hl', -, hx, h1, -, -, hreap⟩ := hl.append (.ofNat total') hio hf hcl (hfit hcl)
      rw [happ]
      refine .of_layout hl' ?_ fun x hx' => ?_
      · rw [hpos, h1]
        exact le_trans (h.behind pre last hl) (length_take_flatten_le hx.segs _)
      · have hold : ∀ x ∈ d.reapOff, Recorded pre' last' total' x := fun x hx' =>
          (h.recorded pre last hl x hx').extend hx (hl.reap x hx') ht
        rcases hreap with hreap | ⟨hreap, rfl, rfl⟩
        · exact hold x (hreap ▸ hx')
        · rw [hreap] at hx'
          rcases List.mem_append.1 hx' with hx' | hx'
          · exact hold x hx'
          · rw [List.mem_singleton.1 hx']
            exact .of_roll hl.cur (hlog ▸ hle)

/-- A reader has returned no frame past its segment. -/
theorem Reading.behind {k j pos : Nat} (h : Reading crc d pre last k j pos) :
    pos ≤ ((pre ++ [last]).take (d.r.cur.toNat + 1)).flatten.length := by
  obtain ⟨fs, hfs, hj⟩ := h.le
  have hk := h.cur_le
  rw [h.seg] at hk ⊢
  rw [List.take_add_one, hfs, List.flatten_append, List.length_append, List.take_append_of_le_length hk, h.pos]
  simpa using hj

theorem Ends.next {t : Turn} (h : Ends crc d e total) (hd : DirSim crc false d e) (hio : io.reopen = true)
    (hp : d.perform crc io (.next t) = some d') (he : e.perform (.next t) = some e') : Ends crc d' e' total := by
  obtain ⟨e'', he', hd'⟩ := hd.next hio hp
  obtain rfl : e'' = e' := Option.some.inj (he'.symm.trans he)
  obtain ⟨hcur, hf, hr⟩ : d'.cur = d.cur ∧ d'.files = d.files ∧ d'.reapOff = d.reapOff := by
    cases SegDir.perform_some hp
    exact ⟨rfl, rfl, rfl⟩
  rcases hd' with ⟨hfr, -, hp⟩ | ⟨pre', last', hl', -, hsh | ⟨k, j, hrd⟩⟩
  · exact .fresh hp hfr.reapOff
  · cases hsh
  · refine .of_layout hl' hrd.behind fun x hx => ?_
    rw [hr] at hx
    rcases hd with ⟨hfr, -⟩ | ⟨pre, last, hl, -⟩
    · rw [hfr.reapOff] at hx
      cases hx
    · obtain ⟨rfl, rfl⟩ := hl.unique hl' hcur hf
      exact h.recorded _ _ hl x hx

theorem write_keeps (d : SegDir) (b : List UInt8) (fails : Option Nat) :
    (d.write b fails).1.reapOff = d.reapOff ∧ (d.write b fails).1.cur = d.cur := by
  unfold SegDir.write
  split
  · exact ⟨rfl, rfl⟩
  · split <;> exact ⟨rfl, rfl⟩

theorem put_keeps (d : SegDir) (f : Frame) :
    (d.put crc io f).1.reapOff = d.reapOff ∧ (d.put crc io f).1.cur = d.cur := by
  have hw := write_keeps d (f.encode crc) io.fails
  unfold SegDir.put
  split
  · rename_i heq
    rw [heq] at hw
    exact hw
  · rename_i heq
    rw [heq] at hw
    exact hw

/-- What a closed segment leaves: its record, with the offset the append was given. -/
def Rolled (d : SegDir) (e : UInt64) (d' : SegDir) : Prop := d'.reapOff = d.reapOff ++ [⟨d.cur, e⟩] ∧ d'.cur = d.cur + 1

theorem roll_keeps (d : SegDir) (e : UInt64) :
    ((d.roll crc io e).1.reapOff = d.reapOff ∧ (d.roll crc io e).1.cur = d.cur) ∨ Rolled d e (d.roll crc io e).1 := by
  have hw := write_keeps d ((rollFrame (d.cur + 1)).encode crc) io.rollFails
  unfold SegDir.roll
  split
  · rename_i heq
    rw [heq] at hw
    exact Or.inl hw
  · rename_i d₁ heq
    rw [heq] at hw
    obtain ⟨hcur, -, hreap, -⟩ := openCur_keeps
      { d₁ with f := none, reapOff := d₁.reapOff ++ [⟨d₁.cur, e⟩], cur := d₁.cur + 1 } io.openOk
    refine Or.inr ⟨hreap.trans ?_, hcur.trans ?_⟩
    · show d₁.reapOff ++ [⟨d₁.cur, e⟩] = _
      rw [hw.1, hw.2]
    · show d₁.cur + 1 = _
      rw [hw.2]

/-- **An append closes one segment or none**, whatever the file operations find. -/
theorem append_keeps (d : SegDir) (f : Frame) (e : UInt64) :
    ((d.append crc io f e).1.reapOff = d.reapOff ∧ (d.append crc io f e).1.cur = d.cur) ∨
      Rolled d e (d.append crc io f e).1 := by
  unfold SegDir.append
  split
  · exact Or.inl ⟨rfl, rfl⟩
  · split
    · have hroll := @roll_keeps crc io d e
      split
      · rename_i d₁ heq
        rw [heq] at hroll
        have hput := @put_keeps crc io d₁ f
        unfold Rolled
        rw [hput.1, hput.2]
        exact hroll
      · rename_i heq
        rw [heq] at hroll
        exact hroll
    · exact Or.inl (put_keeps d f)

/-- One call; an append names the total after its frame. -/
theorem Ends.call {x : Call} (h : Ends crc d e total) (hd : DirSim crc shut d e) (hio : io.Smooth) (hfit : d.Fits crc x)
    (hf : ∀ f a ok, x = .append f a ok → f.typ ≠ frameROLL ∧ f.payload.length ≤ maxPayload)
    (hn : ∀ t, x = .next t → shut = false) (hp : d.perform crc io x = some d') (he : e.perform x = some e')
    (ha : ∀ f a ok, x = .append f a ok → a = .ofNat total' ∧ (dataOf e.log).length + f.data.length ≤ total')
    (ht : total ≤ total') : Ends crc d' e' total' := by
  cases x with
  | openW ok =>
    cases he
    cases SegDir.perform_some hp
    obtain ⟨hcur, hr, hx, hfiles⟩ := openCur_keeps d io.openOk
    rcases hd with ⟨hfr, -, hpos⟩ | ⟨pre, last, hl, hrest⟩
    · exact .fresh hpos (hx.trans hfr.reapOff)
    · have hsim : DirSim crc shut d e := Or.inr ⟨pre, last, hl, hrest⟩
      exact h.keep hsim hcur (hfiles (by rw [hl.live]; rfl)) (by rw [hr]) (fun x h => hx ▸ h) ht
  | append f a ok =>
    obtain ⟨rfl, hle⟩ := ha f a ok rfl
    exact h.append hd hio (hf f _ ok rfl) hfit hp he hle ht
  | reap ack =>
    cases hp
    cases he
    exact h.keep hd rfl rfl rfl (fun x hx => (List.mem_filter.1 hx).1) ht
  | closeW =>
    cases hp
    cases he
    exact h.keep hd rfl rfl rfl (fun x hx => hx) ht
  | next t =>
    obtain rfl := hn t rfl
    exact (h.next hd hio.reopen hp he).mono ht
  | closeR =>
    cases hp
    cases he
    exact h.keep hd rfl rfl rfl (fun x hx => hx) ht

end

/-! ## The total an endpoint has sent -/

section
variable {k k' : Core} {call : Option Call}

/-- Nothing has been sent before the handshake is over. -/
theorem Core.Step.early (h : Core.Step k call k') (he : k.phase ≠ .up → k.sentTotal = 0) :
    k'.phase ≠ .up → k'.sentTotal = 0 := by
  cases h with
  | phase _ _ hp => exact fun _ => he hp
  | syn _ hp => exact fun _ => he (by rw [hp]; exact fun h => by cases h)
  | hello => exact fun h => absurd rfl h
  | refuse _ hp => exact fun _ => he (by rw [hp]; exact fun h => by cases h)
  | sendData _ _ _ _ _ hp => exact fun h => absurd hp h
  | _ => exact he

theorem Core.Step.reaps {v : UInt64} (h : Core.Step k (some (.reap v)) k') : k.reaping = some v := by
  cases h with
  | phase _ _ _ _ _ hpl => cases hpl _ rfl
  | closeLate _ _ _ _ _ hpl => cases hpl _ rfl
  | reap _ _ hr => exact hr

/-- **The offset an append is given is the total with its frame.** -/
theorem Core.Step.dataEnd {f : Frame} {a : UInt64} {ok : Bool} (h : Core.Step k (some (.append f a ok)) k')
    (he : k.phase ≠ .up → k.sentTotal = 0) (hs : k.sentData = .ofNat k.sentTotal) :
    a = .ofNat k'.sentTotal ∧ k.sentTotal + f.data.length = k'.sentTotal := by
  cases h with
  | phase _ _ _ _ _ hpl => cases hpl _ rfl
  | closeLate _ _ _ _ _ hpl => cases hpl _ rfl
  | syn _ hp =>
    have h0 : k.sentTotal = 0 := he (by rw [hp]; exact fun h => by cases h)
    exact ⟨by rw [h0]; rfl, rfl⟩
  | sendAck => exact ⟨hs, rfl⟩
  | sendBeat => exact ⟨hs, rfl⟩
  | sendFin => exact ⟨hs, rfl⟩
  | sendData sent rest room =>
    refine ⟨?_, rfl⟩
    rw [hs, ← UInt64.ofNat_add]

end

/-! ## Runs -/

/-- **What holds of every run over segment files**, with the run over logs beside it. -/
structure ReapInv (s : Pipe (segFiles crc)) (u : Pipe fifo) : Prop where
  sim   : FileSim s u
  inv   : ∀ r, PipeInv (u.conn r).core (u.conn r.peer).core (u.dir r) (u.dir r.peer)
  early : ∀ r, (s.conn r).phase ≠ .up → (s.conn r).sentTotal = 0
  ends  : ∀ r, Ends crc (s.dir r) (u.dir r) (s.conn r).sentTotal

theorem ReapInv.start (p : Role → Params) (idle : Role → Nat) (netFS : Role → Bool) :
    ReapInv (Pipe.startFiles crc p idle netFS) (Pipe.start p idle) :=
  ⟨.start p idle netFS, PipeInv.start p idle, fun _ _ => rfl, fun _ => .fresh rfl rfl⟩

theorem ReapInv.step {s t : Pipe (segFiles crc)} {u : Pipe fifo} {l : Label (segFiles crc)} (h : ReapInv s u)
    (hio : SegIo.Smooth l.io) (hw : NoWrap s l) (hs : s.step l = some t) :
    ∃ u', u.step ⟨l.role, l.act, ()⟩ = some u' ∧ ReapInv t u' := by
  obtain ⟨u', hu, hsim'⟩ := h.sim.step hio hw hs
  obtain ⟨c, call, hc, hconn, hcall⟩ := Pipe.step_some hs
  have hstep := step_core hc
  have hcu : (u.conn l.role).step l.act = some (c, call) := by rw [h.sim.conn]; exact hc
  have hearly : ∀ r, (t.conn r).phase ≠ .up → (t.conn r).sentTotal = 0 := by
    intro r
    rw [hconn]
    rcases Role.eq_or_peer r l.role with rfl | rfl
    · rw [upd_self]; exact hstep.early (h.early l.role)
    · rw [upd_peer]; exact h.early _
  have hle : ∀ r, (s.conn r).sentTotal ≤ (t.conn r).sentTotal := by
    intro r
    rw [hconn]
    rcases Role.eq_or_peer r l.role with rfl | rfl
    · rw [upd_self]; exact hstep.sentTotal_le
    · rw [upd_peer]
  refine ⟨u', hu, hsim', PipeInv.step u _ u' h.inv hu, hearly, fun r => ?_⟩
  rcases hcall with ⟨rfl, hdir⟩ | ⟨x, d, rfl, hp, hdir⟩
  · rw [Pipe.step_local hcu] at hu
    cases hu
    rw [hdir]
    exact (h.ends r).mono (hle r)
  · obtain ⟨e', he, hdir'⟩ : ∃ e', (u.dir (x.dirOf l.role)).perform x = some e' ∧
        u'.dir = upd u.dir (x.dirOf l.role) e' := by
      obtain ⟨c', call', hc', -, hcall'⟩ := Pipe.step_some hu
      obtain ⟨-, rfl⟩ := Prod.mk.inj (Option.some.inj (hcu.symm.trans hc'))
      rcases hcall' with ⟨hx, -⟩ | ⟨y, e', hy, he, hdir'⟩
      · cases hx
      · cases hy
        exact ⟨e', he, hdir'⟩
    rw [hdir, hdir']
    by_cases hr : r = x.dirOf l.role
    · subst hr
      rw [upd_self, show upd u.dir (x.dirOf l.role) e' (x.dirOf l.role) = e' from upd_self ..]
      refine (h.ends _).call (h.sim.dirs _) hio ?_ ?_ ?_ hp he ?_ (hle _)
      · unfold NoWrap at hw
        rw [hc] at hw
        exact hw
      · rintro f a ok rfl
        exact hstep.sends
      · rintro y rfl
        rw [show Call.dirOf l.role (.next y) = l.role.peer from rfl, Role.peer_peer]
        exact ((h.sim.settled l.role).step hc).next y rfl
      · rintro f a ok rfl
        have hinv := h.inv l.role
        rw [h.sim.conn] at hinv
        obtain ⟨ha, htot⟩ := hstep.dataEnd (h.early l.role) hinv.flow.sentData
        have hlog := hinv.flow.log_le
        rw [show Call.dirOf l.role (.append f a ok) = l.role from rfl, hconn, upd_self]
        exact ⟨ha, by rw [← show _ = c.sentTotal from htot]; exact Nat.add_le_add_right hlog _⟩
    · rw [upd_of_ne _ _ hr, upd_of_ne _ _ hr]
      exact (h.ends r).mono (hle r)

/-! ## Reap safety -/

/-- The offset a step reaps up to, when it is a `reap`. -/
def Pipe.reaps (s : Pipe (segFiles crc)) (l : Label (segFiles crc)) : Option UInt64 :=
  match (s.conn l.role).step l.act with
  | some (_, some (.reap v)) => some v
  | _ => none

/-- Segment `i` is there and starts with a DATA frame. -/
def SegDir.startsWithData (crc : List UInt8 → UInt32) (d : SegDir) (i : UInt32) : Bool :=
  match d.names i with
  | none     => false
  | some ino =>
    match decodeFrame crc ((d.files[ino]?).getD []) with
    | .ok (f, _) => decide (f.typ = frameDATA)
    | .error _   => false

/-- Before a `reap`: the total has not wrapped, and a closed segment whose recorded end is just what is acknowledged
was closed by a DATA frame, if the reader has not left it. -/
def ReapDue (s : Pipe (segFiles crc)) (l : Label (segFiles crc)) : Prop :=
  ∀ v ∈ s.reaps l, (s.conn l.role).sentTotal < UInt64.size ∧
    ∀ x ∈ SegDir.reapOff (s.dir l.role), x.dataEnd = v → (SegDir.r (s.dir l.role)).cur ≤ x.idx →
      SegDir.startsWithData crc (s.dir l.role) (x.idx + 1) = true

instance (s : Pipe (segFiles crc)) (l : Label (segFiles crc)) : Decidable (ReapDue s l) :=
  Option.decidableForallMem (s.reaps l)

/-- **Every segment the step unlinks has been left behind by the reader.** -/
def ReapSafe (s : Pipe (segFiles crc)) (l : Label (segFiles crc)) : Prop :=
  ∀ v ∈ s.reaps l, ∀ x ∈ SegDir.reaped (s.dir l.role) v, x.idx < (SegDir.r (s.dir l.role)).cur

instance (s : Pipe (segFiles crc)) (l : Label (segFiles crc)) : Decidable (ReapSafe s l) :=
  Option.decidableForallMem (s.reaps l)

theorem length_dataOf_le {l l' : List Frame} (h : l <+: l') : (dataOf l).length ≤ (dataOf l').length := by
  obtain ⟨rest, rfl⟩ := h
  rw [dataOf_append, List.length_append]
  exact Nat.le_add_right _ _

/-- What Reads have taken is in the frames returned. -/
theorem Stream.taken_le {S R : Core} {D : Fifo} (h : Stream S R D) :
    R.taken.length ≤ (dataOf (D.log.take D.pos)).length := by
  by_cases hf : R.phase.failing = true
  · have := (h.before (fun hup => by rw [hup] at hf; cases hf)).1
    simp [this]
  · rw [h.got (by simpa using hf), List.length_append]
    exact Nat.le_add_right _ _

/-- **A reader that has not left segment `k` has returned no DATA byte after it.** -/
theorem Ends.taken_le {S R : Core} {e : Fifo} {total k : Nat} (h : Ends crc d e total) (hst : Stream S R e)
    (hl : Layout crc d pre last) (hlog : e.log = pre.flatten ++ last) (hk : d.r.cur.toNat ≤ k) :
    R.taken.length ≤ dataTo pre last k := by
  have hflat : e.log = (pre ++ [last]).flatten := by simpa using hlog
  have hle : ((pre ++ [last]).take (d.r.cur.toNat + 1)).flatten <+: ((pre ++ [last]).take (k + 1)).flatten := by
    have hsplit := List.take_append_drop (d.r.cur.toNat + 1) ((pre ++ [last]).take (k + 1))
    rw [List.take_take, Nat.min_eq_left (by omega)] at hsplit
    exact ⟨_, by rw [← List.flatten_append, hsplit]⟩
  have hpos : e.log.take e.pos <+: ((pre ++ [last]).take (k + 1)).flatten := by
    have hpre : ((pre ++ [last]).take (k + 1)).flatten <+: e.log :=
      ⟨_, by rw [hflat, ← List.flatten_append, List.take_append_drop]⟩
    refine List.prefix_of_prefix_length_le (List.take_prefix _ _) hpre ?_
    rw [List.length_take]
    exact le_trans (Nat.min_le_left _ _) (le_trans (h.behind pre last hl) hle.length_le)
  exact le_trans hst.taken_le (length_dataOf_le hpos)

/-- The first frame of a segment is what its file decodes to. -/
theorem Layout.startsWithData (h : Layout crc d pre last) {i : UInt32} {g : Frame} {rest : List Frame}
    (hg : (pre ++ [last])[i.toNat]? = some (g :: rest)) (hd : d.startsWithData crc i = true) : g.typ = frameDATA := by
  unfold SegDir.startsWithData at hd
  split at hd
  · cases hd
  · rename_i ino hn
    obtain ⟨rfl, -⟩ := h.names i ino hn
    obtain ⟨ext, hfs⟩ : ∃ ext, (fileFrames pre last)[i.toNat]? = some ((g :: rest) ++ ext) := by
      rcases fileFrames_of_segs hg with ⟨-, hff⟩ | ⟨-, -, hff⟩
      · exact ⟨_, hff⟩
      · exact ⟨[], by rw [List.append_nil]; exact hff⟩
    have hfile : d.files[i.toNat]? = some (g.encode crc ++ encodes crc (rest ++ ext)) := by
      rw [h.files, List.getElem?_map, hfs]
      rfl
    have hpay := (h.frames _ (List.mem_of_getElem? hg) g List.mem_cons_self).2
    rw [hfile, Option.getD_some, decodeFrame_encode g _ hpay] at hd
    exact of_decide_eq_true hd

theorem ReapInv.safe {s : Pipe (segFiles crc)} {u : Pipe fifo} {l : Label (segFiles crc)} (h : ReapInv s u)
    (hdue : ReapDue s l) : ReapSafe s l := by
  intro v hv x hx
  obtain ⟨hsize, hdata⟩ := hdue v hv
  obtain ⟨hmem, hle⟩ := List.mem_filter.1 hx
  have hle : x.dataEnd.toNat ≤ v.toNat := UInt64.le_iff_toNat_le.1 (of_decide_eq_true hle)
  have hinv := h.inv l.role
  rw [h.sim.conn] at hinv
  -- What is reaped up to is the highest acknowledgement.
  have hack : v = (s.conn l.role).peerAck := by
    unfold Pipe.reaps at hv
    split at hv
    · rename_i c w hc
      cases hv
      exact hinv.flow.reaping v (step_core hc).reaps
    · cases hv
  rcases h.sim.dirs l.role with ⟨hfr, -⟩ | ⟨pre, last, hl, hlog, -⟩
  · rw [hfr.reapOff] at hmem
    cases hmem
  · rw [UInt32.lt_iff_toNat_lt]
    refine Nat.lt_of_not_le fun hcur => ?_
    obtain ⟨n, g, rest, hend, hn, hseg, hto⟩ := (h.ends l.role).recorded pre last hl x hmem
    have htaken := (h.ends l.role).taken_le hinv.stream hl hlog hcur
    have hpeer : (s.conn l.role).peerAck.toNat ≤ _ := hinv.flow.peerAck
    have hendn : x.dataEnd.toNat = n := by rw [hend, UInt64.toNat_ofNat_of_lt' (by omega)]
    rw [hack] at hle
    -- The record is just what is acknowledged, and the frame after it has no bytes.
    have heq : x.dataEnd = v := by
      rw [hack]
      exact UInt64.toNat_inj.1 (by omega)
    have hidx : (x.idx + 1).toNat = x.idx.toNat + 1 := by
      have := hl.reap x hmem
      have hlt := (SegDir.cur (s.dir l.role)).toNat_lt
      rw [hl.cur] at hlt
      rw [UInt32.toNat_add]
      exact Nat.mod_eq_of_lt (by show x.idx.toNat + 1 < _; omega)
    have htyp : g.typ = frameDATA :=
      hl.startsWithData (by rw [hidx]; exact hseg) (hdata x hmem heq (UInt32.le_iff_toNat_le.2 hcur))
    have hlogged : g ∈ (u.dir l.role).log := by
      rw [hlog, show pre.flatten ++ last = (pre ++ [last]).flatten by simp]
      exact List.mem_flatten.2 ⟨_, List.mem_of_getElem? hseg, List.mem_cons_self⟩
    have hpos := (hinv.flow.chunks g hlogged htyp).1
    rw [Frame.data_of_eq htyp] at hto
    omega

/-- **Reap safety.** -/
theorem reap_safe (crc : List UInt8 → UInt32) (p : Role → Params) (idle : Role → Nat) (netFS : Role → Bool)
    (ls : List (Label (segFiles crc))) (hio : ∀ l ∈ ls, SegIo.Smooth l.io)
    (hw : Machine.Meets Pipe.step (fun s l => NoWrap s l ∧ ReapDue s l) (Pipe.startFiles crc p idle netFS) ls) :
    Machine.Meets Pipe.step ReapSafe (Pipe.startFiles crc p idle netFS) ls := by
  refine Machine.Meets.of_inv (I := fun s => ∃ u, ReapInv s u) ?_ ?_ ls _ ⟨_, .start p idle netFS⟩
    (hw.and_labels ls _ hio)
  · rintro s l t ⟨u, hu⟩ ⟨hl, hwrap, -⟩ hs
    obtain ⟨u', -, hu'⟩ := hu.step hl hwrap hs
    exact ⟨u', hu'⟩
  · rintro s l t ⟨u, hu⟩ ⟨-, -, hdue⟩ -
    exact hu.safe hdue

/-! ## Two runs -/

/-- The acceptor's tick acknowledges the byte it has read; the initiator dispatches the ACK and is about to reap. -/
def acknowledgement : List Step :=
  [.acceptor (.maint (.tick 0)) [], .acceptor (.maint (.go true 0)) [], .acceptor (.maint (.go true 0)) [],
   .acceptor (.maint (.go true 0)) [], .initiator (.recv .go) [], .initiator (.recv (.turn .again 0)) [],
   .initiator (.recv (.turn .again 0)) [], .initiator (.recv (.turn .again 0)) [(1, 1000)],
   .initiator (.recv (.turn (.frame ⟨frameACK, 0, 1, 0, encodeUint64 1⟩) 0)) [], .initiator (.recv .go) []]

/-- A heartbeat that closes the segment of the byte. -/
def heartbeatRoll : List Step :=
  [.initiator (.maint (.tick 0)) [], .initiator (.maint (.go true 0)) [], .initiator (.maint (.go true 0)) [],
   .initiator (.maint (.go true 0)) []]

theorem reap_safe_delivery :
    (Machine.run Pipe.step (tinyStart true) (greeting ++ delivery ++ acknowledgement)).map
        (fun s => (s.reaps (Step.initiator (.recv .go) []), SegDir.reaped (s.dir .initiator) 1)) = some
        (some 1, [⟨0, 1⟩]) ∧
      Machine.Meets Pipe.step ReapSafe (tinyStart true)
        (greeting ++ delivery ++ acknowledgement ++ [.initiator (.recv .go) []]) :=
  ⟨by decide +kernel, reap_safe _ _ _ _ _ (by decide +kernel) (by decide +kernel)⟩

/-- **A segment closed by a heartbeat is unlinked while the reader is still in it.** -/
theorem heartbeat_roll_reaped_early :
    (Machine.run Pipe.step (tinyStart false) (greeting ++ delivery ++ heartbeatRoll ++ acknowledgement)).map
        (fun s => (s.reaps (Step.initiator (.recv .go) []), SegDir.reaped (s.dir .initiator) 1,
          (SegDir.r (s.dir .initiator)).cur)) = some (some 1, [⟨0, 1⟩, ⟨1, 1⟩], 1) ∧
      ¬ Machine.Meets Pipe.step ReapSafe (tinyStart false)
        (greeting ++ delivery ++ heartbeatRoll ++ acknowledgement ++ [.initiator (.recv .go) []]) := by
  constructor <;> decide +kernel

end Fstun
end Ccb
