import Ccb.Machine
import Ccb.ConnCore
/-!
# Pipe — two endpoints over a transport

A transport is what one direction's log, its writer and its reader make of a call.  A pipe runs two endpoints over two
directions, each named by the role that writes it.  `Fifo` is the transport the endpoints are written for: a log of
frames, and how many of them the reader has returned.  The segment files are another one (`Ccb.SegLog`).
-/
namespace Ccb
namespace Fstun

inductive Role where
  | initiator
  | acceptor
  deriving DecidableEq, Repr

def Role.peer : Role → Role
  | .initiator => .acceptor
  | .acceptor  => .initiator

@[simp] theorem Role.peer_peer (r : Role) : r.peer.peer = r := by cases r <;> rfl

theorem Role.peer_ne (r : Role) : r.peer ≠ r := by cases r <;> exact fun h => by cases h

theorem Role.eq_or_peer (q r : Role) : q = r ∨ q = r.peer := by
  cases q <;> cases r
  · exact Or.inl rfl
  · exact Or.inr rfl
  · exact Or.inr rfl
  · exact Or.inl rfl

def upd {α : Type} (f : Role → α) (r : Role) (x : α) : Role → α := fun q => if q = r then x else f q

@[simp] theorem upd_self {α : Type} (f : Role → α) (r : Role) (x : α) : upd f r x r = x := if_pos rfl

theorem upd_of_ne {α : Type} (f : Role → α) {q r : Role} (x : α) (h : q ≠ r) : upd f r x q = f q := if_neg h

@[simp] theorem upd_peer {α : Type} (f : Role → α) (r : Role) (x : α) : upd f r x r.peer = f r.peer :=
  upd_of_ne f x r.peer_ne

@[simp] theorem upd_peer_self {α : Type} (f : Role → α) (r : Role) (x : α) : upd f r.peer x r = f r :=
  upd_of_ne f x (fun h => r.peer_ne h.symm)

theorem upd_upd {α : Type} (f : Role → α) (r : Role) (x y : α) : upd (upd f r x) r y = upd f r y := by
  funext q
  by_cases hq : q = r
  · rw [hq, upd_self, upd_self]
  · rw [upd_of_ne _ _ hq, upd_of_ne _ _ hq, upd_of_ne _ _ hq]

theorem upd_eq_self {α : Type} {f : Role → α} {r : Role} {x : α} (h : f r = x) : upd f r x = f := by
  funext q
  by_cases hq : q = r
  · rw [hq, upd_self, h]
  · exact upd_of_ne f x hq

/-- `perform` is a call with the answer it got, when `Io` is what the file operations in it find; no state is an answer
they cannot give. -/
structure Transport where
  Dir     : Type
  Io      : Type
  perform : Dir → Io → Call → Option Dir

structure Pipe (T : Transport) where
  conn : Role → Conn
  dir  : Role → T.Dir

structure Label (T : Transport) where
  role : Role
  act  : Act
  io   : T.Io

/-- A call of the reader. -/
def Call.reads : Call → Bool
  | .next _ | .closeR => true
  | _ => false

/-- The direction a call of `r` is about: the one it writes, or the one it reads. -/
def Call.dirOf (r : Role) (x : Call) : Role := if x.reads then r.peer else r

section
variable {T : Transport}

def Pipe.step (s : Pipe T) (l : Label T) : Option (Pipe T) :=
  match (s.conn l.role).step l.act with
  | none              => none
  | some (c, none)    => some { s with conn := upd s.conn l.role c }
  | some (c, some call) =>
    match T.perform (s.dir (call.dirOf l.role)) l.io call with
    | none   => none
    | some d => some ⟨upd s.conn l.role c, upd s.dir (call.dirOf l.role) d⟩

theorem Pipe.step_local {s : Pipe T} {r : Role} {a : Act} {io : T.Io} {c : Conn}
    (hc : (s.conn r).step a = some (c, none)) : s.step ⟨r, a, io⟩ = some { s with conn := upd s.conn r c } := by
  unfold Pipe.step
  rw [hc]

theorem Pipe.step_call {s : Pipe T} {r : Role} {a : Act} {io : T.Io} {c : Conn} {x : Call} {d : T.Dir}
    (hc : (s.conn r).step a = some (c, some x)) (hd : T.perform (s.dir (x.dirOf r)) io x = some d) :
    s.step ⟨r, a, io⟩ = some ⟨upd s.conn r c, upd s.dir (x.dirOf r) d⟩ := by
  unfold Pipe.step
  rw [hc]
  dsimp only
  rw [hd]

theorem Pipe.step_upd_call {conn : Role → Conn} {dir : Role → T.Dir} {r : Role} {a : Act} {io : T.Io} {c c' : Conn}
    {x : Call} {d : T.Dir} (hc : c.step a = some (c', some x)) (hd : T.perform (dir (x.dirOf r)) io x = some d) :
    Pipe.step ⟨upd conn r c, dir⟩ ⟨r, a, io⟩ = some ⟨upd conn r c', upd dir (x.dirOf r) d⟩ := by
  have hself : (upd conn r c r).step a = some (c', some x) := by rw [upd_self]; exact hc
  rw [Pipe.step_call hself hd, upd_upd]

/-- The steps of an endpoint that make no call. -/
def Conn.runLocal (c : Conn) : List Act → Option Conn
  | [] => some c
  | a :: as =>
    match c.step a with
    | some (c', none) => c'.runLocal as
    | _ => none

theorem Pipe.reaches_local {r : Role} {P : Label T → Prop} {io : T.Io} (hP : ∀ a, P ⟨r, a, io⟩) :
    ∀ {as : List Act} {s : Pipe T} {c c' : Conn}, s.conn r = c → c.runLocal as = some c' →
      Machine.Reaches Pipe.step P s ⟨upd s.conn r c', s.dir⟩
  | [], s, c, c', hc, h => by
    cases h
    rw [upd_eq_self hc]
    exact .refl _ _ _
  | a :: as, s, c, c', hc, h => by
    unfold Conn.runLocal at h
    split at h
    · rename_i c₁ hstep
      have h1 : s.step ⟨r, a, io⟩ = some ⟨upd s.conn r c₁, s.dir⟩ := Pipe.step_local (by rw [hc]; exact hstep)
      have h2 := Pipe.reaches_local hP (s := ⟨upd s.conn r c₁, s.dir⟩) (upd_self s.conn r c₁) h
      rw [upd_upd] at h2
      exact (Machine.Reaches.step (.refl _ _ _) (hP a) h1).trans h2
    · cases h

/-- What one step does to a pipe: an endpoint moves, and its call is performed. -/
theorem Pipe.step_some {s t : Pipe T} {l : Label T} (h : s.step l = some t) :
    ∃ c call, (s.conn l.role).step l.act = some (c, call) ∧ t.conn = upd s.conn l.role c ∧
      ((call = none ∧ t.dir = s.dir) ∨ ∃ x d, call = some x ∧ T.perform (s.dir (x.dirOf l.role)) l.io x = some d ∧
        t.dir = upd s.dir (x.dirOf l.role) d) := by
  unfold Pipe.step at h
  split at h
  · cases h
  · rename_i c hc
    cases h
    exact ⟨c, none, hc, rfl, Or.inl ⟨rfl, rfl⟩⟩
  · rename_i c call hc
    split at h
    · cases h
    · rename_i d hd
      cases h
      exact ⟨c, some call, hc, rfl, Or.inr ⟨call, d, rfl, hd, rfl⟩⟩

/-- **A step as the endpoint `r` has it**: its own, with a call on the direction it writes or none, or the peer's, which
may read that direction. -/
theorem Pipe.step_at {s t : Pipe T} {l : Label T} (h : s.step l = some t) (r : Role) :
    (l.role = r ∧ ∃ call, (s.conn r).step l.act = some (t.conn r, call) ∧
      ((∀ x, call = some x → x.reads = true) ∧ t.dir r = s.dir r ∨
        ∃ x, call = some x ∧ x.reads = false ∧ T.perform (s.dir r) l.io x = some (t.dir r))) ∨
    (l.role ≠ r ∧ t.conn r = s.conn r ∧
      (t.dir r = s.dir r ∨ ∃ x, x.reads = true ∧ T.perform (s.dir r) l.io x = some (t.dir r))) := by
  obtain ⟨c, call, hc, hconn, hcall⟩ := Pipe.step_some h
  by_cases hr : l.role = r
  · subst hr
    refine Or.inl ⟨rfl, call, by rw [hconn, upd_self]; exact hc, ?_⟩
    rcases hcall with ⟨rfl, hdir⟩ | ⟨x, d, rfl, hp, hdir⟩
    · exact Or.inl ⟨(fun x hx => by cases hx), by rw [hdir]⟩
    · rw [hdir]
      cases hx : x.reads with
      | true =>
        rw [show x.dirOf l.role = l.role.peer from if_pos hx, upd_peer_self]
        exact Or.inl ⟨fun y hy => Option.some.inj hy ▸ hx, rfl⟩
      | false =>
        have hdo : x.dirOf l.role = l.role := if_neg (by rw [hx]; exact Bool.false_ne_true)
        rw [hdo] at hp ⊢
        exact Or.inr ⟨x, rfl, hx, by rw [upd_self]; exact hp⟩
  · refine Or.inr ⟨hr, by rw [hconn, upd_of_ne _ _ (Ne.symm hr)], ?_⟩
    rcases hcall with ⟨-, hdir⟩ | ⟨x, d, -, hp, hdir⟩
    · exact Or.inl (by rw [hdir])
    · rw [hdir]
      cases hx : x.reads with
      | true =>
        obtain rfl : r = x.dirOf l.role := by
          rw [show x.dirOf l.role = l.role.peer from if_pos hx]
          exact (Role.eq_or_peer r l.role).resolve_left (Ne.symm hr)
        exact Or.inr ⟨x, hx, by rw [upd_self]; exact hp⟩
      | false =>
        rw [show x.dirOf l.role = l.role from if_neg (by rw [hx]; exact Bool.false_ne_true), upd_of_ne _ _ (Ne.symm hr)]
        exact Or.inl rfl

end

/-! ## The order-preserving transport -/

/-- The frames appended, and how many of them the reader has returned. -/
structure Fifo where
  log : List Frame
  pos : Nat
  deriving DecidableEq, Repr

/-- An append that fails leaves nothing; the reader waits as it likes, returns the next frame, and meets no other. -/
def Fifo.perform (d : Fifo) (x : Call) : Option Fifo :=
  match x with
  | .append f _ ok   => some (if ok then { d with log := d.log ++ [f] } else d)
  | .next (.frame f) => if d.log[d.pos]? = some f then some { d with pos := d.pos + 1 } else none
  | .next .corrupt | .next .badRoll => none
  | _ => some d

abbrev fifo : Transport := ⟨Fifo, Unit, fun d _ x => d.perform x⟩

/-- The state both endpoints start from, with the parameters each has chosen. -/
def Pipe.start (p : Role → Params) (idle : Role → Nat) : Pipe fifo :=
  ⟨fun r => { params := p r, idleTimeout := idle r }, fun _ => ⟨[], 0⟩⟩

/-- A call of an endpoint, performed on the direction it writes and the one it reads. -/
inductive Fifo.Moved (out inp : Fifo) : Option Call → Fifo → Fifo → Prop
  | none : Moved out inp none out inp
  | plain (x : Call) : (x.plain = true ∨ ∃ v, x = .reap v) → Moved out inp (some x) out inp
  | sent (f : Frame) (e : UInt64) : Moved out inp (some (.append f e true)) { out with log := out.log ++ [f] } inp
  | lost (f : Frame) (e : UInt64) : Moved out inp (some (.append f e false)) out inp
  | got (f : Frame) : inp.log[inp.pos]? = some f →
      Moved out inp (some (.next (.frame f))) out { inp with pos := inp.pos + 1 }

section
variable {out inp out' inp' : Fifo}

theorem Fifo.Moved.append {f : Frame} {e : UInt64} {ok : Bool} (h : Moved out inp (some (.append f e ok)) out' inp') :
    out' = (if ok then { out with log := out.log ++ [f] } else out) ∧ inp' = inp := by
  cases h with
  | plain _ hx => rcases hx with hx | ⟨v, hx⟩ <;> cases hx
  | sent => exact ⟨rfl, rfl⟩
  | lost => exact ⟨rfl, rfl⟩

theorem Fifo.Moved.frame {f : Frame} (h : Moved out inp (some (.next (.frame f))) out' inp') :
    out' = out ∧ inp.log[inp.pos]? = some f ∧ inp' = { inp with pos := inp.pos + 1 } := by
  cases h with
  | plain _ hx => rcases hx with hx | ⟨v, hx⟩ <;> cases hx
  | got _ hf => exact ⟨rfl, hf, rfl⟩

theorem Fifo.Moved.still {call : Option Call} (h : Moved out inp call out' inp')
    (hx : ∀ x ∈ call, x.plain = true ∨ ∃ v, x = .reap v) : out' = out ∧ inp' = inp := by
  cases h with
  | none => exact ⟨rfl, rfl⟩
  | plain _ _ => exact ⟨rfl, rfl⟩
  | sent f e => rcases hx _ rfl with hx | ⟨v, hx⟩ <;> cases hx
  | lost f e => exact ⟨rfl, rfl⟩
  | got f => rcases hx _ rfl with hx | ⟨v, hx⟩ <;> cases hx

end

/-- **A step of a pipe over `Fifo`**: one endpoint moves, and its call is performed. -/
theorem Pipe.step_fifo {s t : Pipe fifo} {l : Label fifo} (h : s.step l = some t) :
    ∃ c call, (s.conn l.role).step l.act = some (c, call) ∧ t.conn = upd s.conn l.role c ∧
      Fifo.Moved (s.dir l.role) (s.dir l.role.peer) call (t.dir l.role) (t.dir l.role.peer) := by
  obtain ⟨c, call, hc, hconn, hcall⟩ := Pipe.step_some h
  refine ⟨c, call, hc, hconn, ?_⟩
  rcases hcall with ⟨rfl, hdir⟩ | ⟨x, d, rfl, hp, hdir⟩
  · rw [hdir]; exact .none
  · rw [hdir]
    change Fifo.perform _ x = some d at hp
    cases x with
    | openW ok =>
      cases hp
      rw [show Call.dirOf l.role (.openW ok) = l.role from rfl, upd_self, upd_peer]
      exact .plain _ (Or.inl rfl)
    | append f e ok =>
      rw [show Call.dirOf l.role (.append f e ok) = l.role from rfl] at hp ⊢
      rw [upd_self, upd_peer]
      cases ok <;> cases hp
      · exact .lost f e
      · exact .sent f e
    | reap v =>
      cases hp
      rw [show Call.dirOf l.role (.reap v) = l.role from rfl, upd_self, upd_peer]
      exact .plain _ (Or.inr ⟨v, rfl⟩)
    | closeW =>
      cases hp
      rw [show Call.dirOf l.role .closeW = l.role from rfl, upd_self, upd_peer]
      exact .plain _ (Or.inl rfl)
    | closeR =>
      cases hp
      rw [show Call.dirOf l.role .closeR = l.role.peer from rfl, upd_self, upd_peer_self]
      exact .plain _ (Or.inl rfl)
    | next t =>
      rw [show Call.dirOf l.role (.next t) = l.role.peer from rfl] at hp ⊢
      rw [upd_self, upd_peer_self]
      cases t with
      | again | incomplete | notExist | ioError => cases hp; exact .plain _ (Or.inl rfl)
      | corrupt | badRoll => cases hp
      | frame f =>
        simp only [Fifo.perform] at hp
        split at hp <;> cases hp
        rename_i hf
        exact .got f hf

/-- **An invariant of one direction**: kept by the moves of its sender and by those of its receiver that meet `G`. -/
theorem Pipe.inv_fifo {I : Conn → Conn → Fifo → Fifo → Prop} {G : Conn → Act → Prop}
    (hS : ∀ {S R S' : Conn} {D E D' E' : Fifo} {a : Act} {call : Option Call}, I S R D E → G S a →
      S.step a = some (S', call) → Fifo.Moved D E call D' E' → I S' R D' E')
    (hR : ∀ {S R R' : Conn} {D E D' E' : Fifo} {a : Act} {call : Option Call}, I S R D E → G R a →
      R.step a = some (R', call) → Fifo.Moved E D call E' D' → I S R' D' E')
    (s : Pipe fifo) (l : Label fifo) (t : Pipe fifo) (h : ∀ r, I (s.conn r) (s.conn r.peer) (s.dir r) (s.dir r.peer))
    (hg : G (s.conn l.role) l.act) (hs : s.step l = some t) :
    ∀ r, I (t.conn r) (t.conn r.peer) (t.dir r) (t.dir r.peer) := by
  obtain ⟨c, call, hstep, hconn, hmove⟩ := Pipe.step_fifo hs
  intro r
  rw [hconn]
  rcases Role.eq_or_peer r l.role with rfl | rfl
  · rw [upd_self, upd_peer]
    exact hS (h l.role) hg hstep hmove
  · rw [Role.peer_peer, upd_self, upd_peer]
    have := h l.role.peer
    rw [Role.peer_peer] at this
    exact hR this hg hstep hmove

end Fstun
end Ccb
