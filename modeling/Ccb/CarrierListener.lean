import Ccb.Machine
import Ccb.Text
/-!
# CarrierListener — the outside CCB's end of a carrier

`startCarrierListener` (carrier.go) builds the listener of `Config.CarrierListen` and puts a `MuxListener` (mux.go) on
it. A WebSocket listener (ws.go) runs one `handle` per HTTP request: it reads the bearer token, asks the verifier,
upgrades the request, offers the pipe on `l.conns` and holds on until the pipe is closed or the listener is.
`acceptPipes` takes the pipes, one after the other, and puts a yamux session on each; a goroutine per session takes the
streams the peer opens and offers them on `l.streams`, where the calls of `Accept` wait.

Both channels are without a buffer, so a value changes hands in one step of two goroutines.  Each `select` is a choice
of the run: a case that is ready may be taken, also when the context is done.  `Close` cancels the context of the
`MuxListener`, then that of the inner listener, and then closes the HTTP server.
-/
namespace Ccb
namespace CarrierListener

/-! ## Addresses -/

inductive CarrierRef where
  | fs (path : String)
  | ws (url : String) (tls : Bool)
  deriving DecidableEq, Repr

/-- What follows `p` in the characters of a text, if it begins with `p`. -/
def cutPrefixOf (p : String) (cs : List Char) : Option (List Char) :=
  if p.toList.isPrefixOf cs then some (cs.drop p.toList.length) else none

def parseCarrierRef (addr : String) : Option CarrierRef :=
  let cs := (trimSpace addr).toList
  match cutPrefixOf "fs:" cs with
  | some path => some (.fs (String.ofList path))
  | none =>
    if (cutPrefixOf "wss://" cs).isSome then some (.ws (trimSpace addr) true)
    else if (cutPrefixOf "ws://" cs).isSome then some (.ws (trimSpace addr) false)
    else none

/-- The fields of `Config` the listener is built from: the address, and whether there is a verifier and a TLS
configuration. -/
structure Config where
  carrierListen      : String
  carrierTokenVerify : Bool
  carrierTLS         : Bool
  deriving DecidableEq, Repr

/-- A listener that has been opened. -/
inductive Inner where
  | fs (root : String)
  | ws (addr path : String) (tls : Bool)
  deriving DecidableEq, Repr

def Inner.isWs : Inner → Bool
  | .fs _     => false
  | .ws _ _ _ => true

def defaultPath : String := "/ccb/tunnel"

/-- `wscarrier.Listen` on a configuration. -/
def listen (addr path : String) (tls verify : Bool) : Except String Inner :=
  if verify then .ok (.ws addr (if path = "" then defaultPath else path) tls)
  else .error "wscarrier: ListenConfig.Verify is required"

/-- `url.Parse`, to the host and the path, and the verb `%q`. -/
structure Ext where
  parseURL : String → Except String (String × String)
  quote    : String → String

def carrierNetListener (x : Ext) (cfg : Config) : CarrierRef → Except String Inner
  | .fs path    => .ok (.fs path)
  | .ws url tls =>
    if cfg.carrierTokenVerify = false then
      .error "ccbserver: a WebSocket CarrierListen requires CarrierTokenVerify"
    else
      match x.parseURL url with
      | .error e => .error ("ccbserver: bad carrier URL " ++ x.quote url ++ ": " ++ e)
      | .ok (host, path) =>
        if tls ∧ cfg.carrierTLS = false then .error "ccbserver: a wss:// CarrierListen requires CarrierTLS"
        else listen host path cfg.carrierTLS cfg.carrierTokenVerify

/-! ## State -/

/-- `bearerToken` of the `Authorization` header, which is empty if there is none.  `strings.EqualFold` on these seven
characters ignores the case of ASCII letters. -/
def bearerToken (header : String) : String :=
  let cs := header.toList
  if 7 < cs.length ∧ (cs.take 7).map Char.toLower = "bearer ".toList then trimSpace (String.ofList (cs.drop 7)) else ""

/-- `handle`: before the token is read, with the token at the verifier, before the upgrade, offering its pipe, and
holding on to it. -/
inductive HandlerPc where
  | token
  | verify (token : String)
  | upgrade
  | send (p : Nat)
  | hold (p : Nat)
  | returned
  deriving DecidableEq, Repr

/-- A request at `handle`, and the text of its 401. -/
structure Handler where
  header : String
  pc     : HandlerPc := .token
  reply  : Option String := none
  deriving DecidableEq, Repr

/-- A byte pipe: the request it came from, if it is a WebSocket, whether it is up and whether it has been closed on this
side (`connWrap.done`). -/
structure Pipe where
  origin : Option Nat
  up     : Bool
  done   : Bool
  deriving DecidableEq, Repr

/-- `acceptPipes`. -/
inductive PipesPc where
  | accept
  | server (p : Nat)
  | closing (p : Nat)
  | returned
  deriving DecidableEq, Repr

/-- `acceptStreams`. -/
inductive SessionPc where
  | accept
  | send (st : Nat)
  | closeStream (st : Nat)
  | close
  | returned
  deriving DecidableEq, Repr

structure Session where
  pipe : Nat
  dead : Bool
  pc   : SessionPc
  deriving DecidableEq, Repr

structure Stream where
  sess   : Nat
  closed : Bool
  deriving DecidableEq, Repr

/-- `Accept`: what it returns is a stream or `net.ErrClosed`. -/
inductive CallPc where
  | select
  | returned (r : Option Nat)
  deriving DecidableEq, Repr

/-- `MuxListener.Close`: not called, before `inner.Close`, within it before `srv.Close`, and returned. -/
inductive ClosePc where
  | idle
  | inner
  | srv
  | done
  deriving DecidableEq, Repr

/-- The context of the `MuxListener` is done. -/
def ClosePc.muxDone (p : ClosePc) : Bool := decide (p ≠ .idle)

/-- The context of the inner listener is done. -/
def ClosePc.innerDone (p : ClosePc) : Bool := decide (p = .srv ∨ p = .done)

/-- `verdicts` is what the verifier has said, of which request and token. -/
structure State where
  inner    : Inner
  handlers : List Handler
  verdicts : List (Nat × String × Bool)
  pipes    : List Pipe
  acceptor : PipesPc
  sessions : List Session
  streams  : List Stream
  calls    : List CallPc
  closer   : ClosePc
  deriving DecidableEq, Repr

def State.start (inner : Inner) : State := ⟨inner, [], [], [], .accept, [], [], [], .idle⟩

def startCarrierListener (x : Ext) (cfg : Config) : Except String State :=
  match parseCarrierRef cfg.carrierListen with
  | none     => .error "CarrierListen is not a recognized carrier address"
  | some ref => (carrierNetListener x cfg ref).map State.start

/-! ## Steps -/

/-- What happens outside: a request, a pipe of the `fs` listener, a pipe that is lost, a stream the peer opens, one that
is closed by who has it, a call of `Accept` and `Close`.  The other labels are steps of the goroutines; `leave` is
`handle`'s last `select`, or its one before when the listener is closing. -/
inductive Label where
  | request (header : String)
  | arrive
  | lost (p : Nat)
  | stream (n : Nat)
  | hangUp (st : Nat)
  | accept
  | close
  | handle (h : Nat)
  | verified (h : Nat) (ok : Bool)
  | upgraded (h : Nat) (ok : Bool)
  | handOver (h : Nat)
  | leave (h : Nat) (closing : Bool)
  | acceptErr
  | served (ok : Bool)
  | closePipe
  | die (n : Nat)
  | sessionErr (n : Nat)
  | deliver (n k : Nat)
  | giveUp (n : Nat)
  | closeStream (n : Nat)
  | closeSession (n : Nat)
  | refuse (k : Nat)
  | closeInner
  | closeSrv
  deriving DecidableEq, Repr

section
variable (s : State)

def State.setHandler (h : Nat) (x : Handler) : State := { s with handlers := s.handlers.set h x }

def State.setSession (n : Nat) (x : Session) : State := { s with sessions := s.sessions.set n x }

/-- The pipe goes down; `done` says that this side closed it. -/
def State.dropPipe (p : Nat) (done : Bool) : State :=
  { s with pipes := s.pipes.modify p (fun x => { x with up := false, done := x.done || done }) }

def State.closeStreams (f : Stream → Bool) : State :=
  { s with streams := s.streams.map (fun x => if f x then { x with closed := true } else x) }

/-- A session goes down, with its streams and its pipe, and its goroutine is at `pc`. -/
def State.shutdown (n : Nat) (x : Session) (pc : SessionPc) : State :=
  ((s.setSession n { x with dead := true, pc := pc }).closeStreams (fun st => st.sess == n)).dropPipe x.pipe true

def handle (h : Nat) (x : Handler) : State :=
  if bearerToken x.header = "" then s.setHandler h { x with pc := .returned, reply := some "missing bearer token" }
  else s.setHandler h { x with pc := .verify (bearerToken x.header) }

def verified (h : Nat) (x : Handler) (token : String) (ok : Bool) : State :=
  { s.setHandler h
    (if ok then { x with pc := .upgrade } else { x with pc := .returned, reply := some "unauthorized" }) with
      verdicts := s.verdicts ++ [(h, token, ok)] }

def upgraded (h : Nat) (x : Handler) (ok : Bool) : State :=
  if ok then
    { s.setHandler h { x with pc := .send s.pipes.length } with pipes := s.pipes ++ [⟨some h, true, false⟩] }
  else s.setHandler h { x with pc := .returned }

def leave (h : Nat) (x : Handler) (closing : Bool) : Option State :=
  match x.pc, closing with
  | .send p, true | .hold p, true =>
    if s.closer.innerDone then some ((s.setHandler h { x with pc := .returned }).dropPipe p false) else none
  | .hold p, false =>
    if (s.pipes[p]?.map Pipe.done).getD false then some (s.setHandler h { x with pc := .returned }) else none
  | _, _ => none

def served (p : Nat) (ok : Bool) : State :=
  if ok then { s with acceptor := .accept, sessions := s.sessions ++ [⟨p, false, .accept⟩] }
  else { s with acceptor := .closing p }

def step : Label → Option State
  | .request header =>
    if s.inner.isWs ∧ s.closer ≠ .done then some { s with handlers := s.handlers ++ [{ header := header }] } else none
  | .arrive =>
    if s.inner.isWs = false ∧ s.acceptor = .accept then
      some { s with acceptor := .server s.pipes.length, pipes := s.pipes ++ [⟨none, true, false⟩] }
    else none
  | .lost p => some (s.dropPipe p false)
  | .stream n =>
    (s.sessions[n]?).bind (fun x =>
      if x.pc = .accept ∧ x.dead = false then
        some { s.setSession n { x with pc := .send s.streams.length } with streams := s.streams ++ [⟨n, false⟩] }
      else none)
  | .hangUp st => some { s with streams := s.streams.modify st (fun x => { x with closed := true }) }
  | .accept => some { s with calls := s.calls ++ [.select] }
  | .close => if s.closer = .idle then some { s with closer := .inner } else none
  | .handle h => (s.handlers[h]?).bind (fun x => if x.pc = .token then some (handle s h x) else none)
  | .verified h ok =>
    (s.handlers[h]?).bind (fun x => match x.pc with | .verify token => some (verified s h x token ok) | _ => none)
  | .upgraded h ok => (s.handlers[h]?).bind (fun x => if x.pc = .upgrade then some (upgraded s h x ok) else none)
  | .handOver h =>
    (s.handlers[h]?).bind (fun x =>
      match x.pc with
      | .send p =>
        if s.acceptor = .accept then
          some { s.setHandler h { x with pc := .hold p } with acceptor := .server p }
        else none
      | _ => none)
  | .leave h closing => (s.handlers[h]?).bind (fun x => leave s h x closing)
  | .acceptErr => if s.acceptor = .accept ∧ s.closer.innerDone then some { s with acceptor := .returned } else none
  | .served ok => match s.acceptor with | .server p => some (served s p ok) | _ => none
  | .closePipe => match s.acceptor with | .closing p => some { s.dropPipe p true with acceptor := .accept } | _ => none
  | .die n =>
    (s.sessions[n]?).bind (fun x =>
      if x.dead = false ∧ (s.pipes[x.pipe]?.map Pipe.up).getD false = false then some (s.shutdown n x x.pc) else none)
  | .sessionErr n =>
    (s.sessions[n]?).bind (fun x =>
      if x.pc = .accept ∧ x.dead then some (s.setSession n { x with pc := .close }) else none)
  | .deliver n k =>
    (s.sessions[n]?).bind (fun x =>
      match x.pc with
      | .send st =>
        if s.calls[k]? = some .select then
          some { s.setSession n { x with pc := .accept } with calls := s.calls.set k (.returned (some st)) }
        else none
      | _ => none)
  | .giveUp n =>
    (s.sessions[n]?).bind (fun x =>
      match x.pc with
      | .send st => if s.closer.muxDone then some (s.setSession n { x with pc := .closeStream st }) else none
      | _ => none)
  | .closeStream n =>
    (s.sessions[n]?).bind (fun x =>
      match x.pc with
      | .closeStream st =>
        some { s.setSession n { x with pc := .close } with
          streams := s.streams.modify st (fun y => { y with closed := true }) }
      | _ => none)
  | .closeSession n =>
    (s.sessions[n]?).bind (fun x => if x.pc = .close then some (s.shutdown n x .returned) else none)
  | .refuse k =>
    if s.calls[k]? = some .select ∧ s.closer.muxDone then
      some { s with calls := s.calls.set k (.returned none) }
    else none
  | .closeInner => if s.closer = .inner then some { s with closer := if s.inner.isWs then .srv else .done } else none
  | .closeSrv => if s.closer = .srv then some { s with closer := .done } else none

end

/-! ## What a step does -/

/-- A step of the listener, with what it found. -/
inductive Stepped (s : State) : Label → State → Prop
  | request (header : String) : s.inner.isWs = true → s.closer ≠ .done →
      Stepped s (.request header) { s with handlers := s.handlers ++ [{ header := header }] }
  | arrive : s.inner.isWs = false → s.acceptor = .accept →
      Stepped s .arrive { s with acceptor := .server s.pipes.length, pipes := s.pipes ++ [⟨none, true, false⟩] }
  | lost (p : Nat) : Stepped s (.lost p) (s.dropPipe p false)
  | stream (n : Nat) (x : Session) : s.sessions[n]? = some x → x.pc = .accept → x.dead = false →
      Stepped s (.stream n)
        { s.setSession n { x with pc := .send s.streams.length } with streams := s.streams ++ [⟨n, false⟩] }
  | hangUp (st : Nat) :
      Stepped s (.hangUp st) { s with streams := s.streams.modify st (fun x => { x with closed := true }) }
  | accept : Stepped s .accept { s with calls := s.calls ++ [.select] }
  | close : s.closer = .idle → Stepped s .close { s with closer := .inner }
  | handle (h : Nat) (x : Handler) : s.handlers[h]? = some x → x.pc = .token → Stepped s (.handle h) (handle s h x)
  | verified (h : Nat) (x : Handler) (token : String) (ok : Bool) : s.handlers[h]? = some x → x.pc = .verify token →
      Stepped s (.verified h ok) (verified s h x token ok)
  | upgraded (h : Nat) (x : Handler) (ok : Bool) : s.handlers[h]? = some x → x.pc = .upgrade →
      Stepped s (.upgraded h ok) (upgraded s h x ok)
  | handOver (h : Nat) (x : Handler) (p : Nat) : s.handlers[h]? = some x → x.pc = .send p → s.acceptor = .accept →
      Stepped s (.handOver h) { s.setHandler h { x with pc := .hold p } with acceptor := .server p }
  | leave (h : Nat) (x : Handler) (p : Nat) : s.handlers[h]? = some x → x.pc = .send p ∨ x.pc = .hold p →
      s.closer.innerDone = true →
      Stepped s (.leave h true) ((s.setHandler h { x with pc := .returned }).dropPipe p false)
  | release (h : Nat) (x : Handler) (p : Nat) (y : Pipe) : s.handlers[h]? = some x → x.pc = .hold p →
      s.pipes[p]? = some y → y.done = true → Stepped s (.leave h false) (s.setHandler h { x with pc := .returned })
  | acceptErr : s.acceptor = .accept → s.closer.innerDone = true → Stepped s .acceptErr { s with acceptor := .returned }
  | served (p : Nat) (ok : Bool) : s.acceptor = .server p → Stepped s (.served ok) (served s p ok)
  | closePipe (p : Nat) : s.acceptor = .closing p →
      Stepped s .closePipe { s.dropPipe p true with acceptor := .accept }
  | die (n : Nat) (x : Session) : s.sessions[n]? = some x → x.dead = false →
      (∀ y, s.pipes[x.pipe]? = some y → y.up = false) → Stepped s (.die n) (s.shutdown n x x.pc)
  | sessionErr (n : Nat) (x : Session) : s.sessions[n]? = some x → x.pc = .accept → x.dead = true →
      Stepped s (.sessionErr n) (s.setSession n { x with pc := .close })
  | deliver (n k : Nat) (x : Session) (st : Nat) : s.sessions[n]? = some x → x.pc = .send st →
      s.calls[k]? = some .select →
      Stepped s (.deliver n k)
        { s.setSession n { x with pc := .accept } with calls := s.calls.set k (.returned (some st)) }
  | giveUp (n : Nat) (x : Session) (st : Nat) : s.sessions[n]? = some x → x.pc = .send st → s.closer.muxDone = true →
      Stepped s (.giveUp n) (s.setSession n { x with pc := .closeStream st })
  | closeStream (n : Nat) (x : Session) (st : Nat) : s.sessions[n]? = some x → x.pc = .closeStream st →
      Stepped s (.closeStream n)
        { s.setSession n { x with pc := .close } with
          streams := s.streams.modify st (fun y => { y with closed := true }) }
  | closeSession (n : Nat) (x : Session) : s.sessions[n]? = some x → x.pc = .close →
      Stepped s (.closeSession n) (s.shutdown n x .returned)
  | refuse (k : Nat) : s.calls[k]? = some .select → s.closer.muxDone = true →
      Stepped s (.refuse k) { s with calls := s.calls.set k (.returned none) }
  | closeInner : s.closer = .inner →
      Stepped s .closeInner { s with closer := if s.inner.isWs then .srv else .done }
  | closeSrv : s.closer = .srv → Stepped s .closeSrv { s with closer := .done }

theorem leave_some {s t : State} {h : Nat} {x : Handler} {closing : Bool} (hx : s.handlers[h]? = some x)
    (hl : leave s h x closing = some t) : Stepped s (.leave h closing) t := by
  unfold leave at hl
  split at hl
  · rename_i p hp
    obtain ⟨hd, ht⟩ := Option.ite_none_right_eq_some.1 hl
    cases ht
    exact .leave h x p hx (.inl hp) hd
  · rename_i p hp
    obtain ⟨hd, ht⟩ := Option.ite_none_right_eq_some.1 hl
    cases ht
    exact .leave h x p hx (.inr hp) hd
  · rename_i p hp
    obtain ⟨hd, ht⟩ := Option.ite_none_right_eq_some.1 hl
    cases ht
    cases hy : s.pipes[p]? with
    | none => rw [hy] at hd; cases hd
    | some y => rw [hy] at hd; exact .release h x p y hx hp hy hd
  · cases hl

theorem step_some {s t : State} {l : Label} (h : step s l = some t) : Stepped s l t := by
  cases l with
  | request header =>
    obtain ⟨⟨hws, hc⟩, ht⟩ := Option.ite_none_right_eq_some.1 h
    cases ht
    exact .request header hws hc
  | arrive =>
    obtain ⟨⟨hws, ha⟩, ht⟩ := Option.ite_none_right_eq_some.1 h
    cases ht
    exact .arrive hws ha
  | lost p => cases h; exact .lost p
  | stream n =>
    obtain ⟨x, hx, h⟩ := Option.bind_eq_some_iff.1 h
    obtain ⟨⟨hpc, hd⟩, ht⟩ := Option.ite_none_right_eq_some.1 h
    cases ht
    exact .stream n x hx hpc hd
  | hangUp st => cases h; exact .hangUp st
  | accept => cases h; exact .accept
  | close =>
    obtain ⟨hc, ht⟩ := Option.ite_none_right_eq_some.1 h
    cases ht
    exact .close hc
  | handle n =>
    obtain ⟨x, hx, h⟩ := Option.bind_eq_some_iff.1 h
    obtain ⟨hpc, ht⟩ := Option.ite_none_right_eq_some.1 h
    cases ht
    exact .handle n x hx hpc
  | verified n ok =>
    obtain ⟨x, hx, h⟩ := Option.bind_eq_some_iff.1 h
    split at h
    · rename_i token hpc
      cases h
      exact .verified n x token ok hx hpc
    · cases h
  | upgraded n ok =>
    obtain ⟨x, hx, h⟩ := Option.bind_eq_some_iff.1 h
    obtain ⟨hpc, ht⟩ := Option.ite_none_right_eq_some.1 h
    cases ht
    exact .upgraded n x ok hx hpc
  | handOver n =>
    obtain ⟨x, hx, h⟩ := Option.bind_eq_some_iff.1 h
    split at h
    · rename_i p hpc
      obtain ⟨ha, ht⟩ := Option.ite_none_right_eq_some.1 h
      cases ht
      exact .handOver n x p hx hpc ha
    · cases h
  | leave n closing =>
    obtain ⟨x, hx, h⟩ := Option.bind_eq_some_iff.1 h
    exact leave_some hx h
  | acceptErr =>
    obtain ⟨⟨ha, hd⟩, ht⟩ := Option.ite_none_right_eq_some.1 h
    cases ht
    exact .acceptErr ha hd
  | served ok =>
    dsimp only [step] at h
    split at h
    · rename_i p ha
      cases h
      exact .served p ok ha
    · cases h
  | closePipe =>
    dsimp only [step] at h
    split at h
    · rename_i p ha
      cases h
      exact .closePipe p ha
    · cases h
  | die n =>
    obtain ⟨x, hx, h⟩ := Option.bind_eq_some_iff.1 h
    obtain ⟨⟨hd, hup⟩, ht⟩ := Option.ite_none_right_eq_some.1 h
    cases ht
    refine .die n x hx hd (fun y hy => ?_)
    rw [hy] at hup
    exact hup
  | sessionErr n =>
    obtain ⟨x, hx, h⟩ := Option.bind_eq_some_iff.1 h
    obtain ⟨⟨hpc, hd⟩, ht⟩ := Option.ite_none_right_eq_some.1 h
    cases ht
    exact .sessionErr n x hx hpc hd
  | deliver n k =>
    obtain ⟨x, hx, h⟩ := Option.bind_eq_some_iff.1 h
    split at h
    · rename_i st hpc
      obtain ⟨hk, ht⟩ := Option.ite_none_right_eq_some.1 h
      cases ht
      exact .deliver n k x st hx hpc hk
    · cases h
  | giveUp n =>
    obtain ⟨x, hx, h⟩ := Option.bind_eq_some_iff.1 h
    split at h
    · rename_i st hpc
      obtain ⟨hd, ht⟩ := Option.ite_none_right_eq_some.1 h
      cases ht
      exact .giveUp n x st hx hpc hd
    · cases h
  | closeStream n =>
    obtain ⟨x, hx, h⟩ := Option.bind_eq_some_iff.1 h
    split at h
    · rename_i st hpc
      cases h
      exact .closeStream n x st hx hpc
    · cases h
  | closeSession n =>
    obtain ⟨x, hx, h⟩ := Option.bind_eq_some_iff.1 h
    obtain ⟨hpc, ht⟩ := Option.ite_none_right_eq_some.1 h
    cases ht
    exact .closeSession n x hx hpc
  | refuse k =>
    obtain ⟨⟨hk, hd⟩, ht⟩ := Option.ite_none_right_eq_some.1 h
    cases ht
    exact .refuse k hk hd
  | closeInner =>
    obtain ⟨hc, ht⟩ := Option.ite_none_right_eq_some.1 h
    cases ht
    exact .closeInner hc
  | closeSrv =>
    obtain ⟨hc, ht⟩ := Option.ite_none_right_eq_some.1 h
    cases ht
    exact .closeSrv hc

end CarrierListener
end Ccb
