import Mathlib.Data.List.AList
import Ccb.Text
/-!
# Broker — the server's tables and its goroutines

`Broker` is a `Server` (server.go) with the goroutines that share it.  The maps under `s.mu` are finite maps; a pointer
to a `target`, a `request` or a `proxySession` is the number of the goroutine that made it, so `targets` sends a CCBID
to the handler whose registration it holds.  One goroutine is a record with its program counter; every critical
section under `s.mu`, every channel operation, every store call and every write to a peer is one step of its own, and
`Label` says which goroutine moves and what its environment gave it.

The functions of cedar and of Go's `net` that the handlers call (`addresses.SplitCCBContact`, the peer's IP string,
`ParseSinful(..).IsCCB`, the `%q` of `fmt`) are the fields of `Ext`.
-/
namespace Ccb

/-- A Go map. -/
abbrev GoMap (K V : Type) := AList (fun _ : K => V)

namespace Broker

/-- What the handlers take from cedar and from Go's `net`. -/
structure Ext where
  splitCCBContact : String → Option (String × String)
  /-- `peerIP(addr).String()`, and `""` where `peerIP` is nil. -/
  peerIPString    : String → String
  sinfulIsCCB     : String → Bool
  /-- What `%q` prints. -/
  quote           : String → String

/-- The fields of `Config` the handlers read.  Times and durations are nanoseconds. -/
structure Config where
  publicAddress       : String
  authorizer          : Option (String → String → String → Bool)
  reconnectStore      : Bool
  reconnectAllowAnyIP : Bool
  reconnectTTL        : Int

structure ReconnectRecord where
  ccbid     : UInt64
  cookie    : String
  peerIP    : String
  name      : String
  updatedAt : Int
  deriving DecidableEq, Repr

/-- A call of `ReconnectStore.Put` or `ReconnectStore.Delete`. -/
inductive StoreOp where
  | put (rec : ReconnectRecord)
  | delete (ccbid : UInt64)
  deriving DecidableEq, Repr

/-! ## Registrations -/

structure Target where
  id     : UInt64
  name   : String
  cookie : String
  deriving DecidableEq, Repr

structure ReplyResult where
  success : Bool
  errMsg  : String
  deriving DecidableEq, Repr

/-- Where `handleRegister` stands: the store call after its critical section, the reply, `serveTarget` (at a read, or
between the lookup and the send of `deliverResult`), and its own `removeTarget` (before its critical section, before
its store call). -/
inductive RegPc where
  | put (rec : ReconnectRecord)
  | reply
  | serve
  | deliver (req : Nat) (reqID : UInt64) (res : ReplyResult)
  | remove
  | restamp (rec : Option ReconnectRecord)
  | returned
  deriving DecidableEq, Repr

structure Handler where
  target : Target
  reused : Bool
  pc     : RegPc
  deriving DecidableEq, Repr

structure RegisterAd where
  name    : String
  ccbid   : String
  claimID : String
  deriving DecidableEq, Repr

/-- A CCB_REGISTER: its peer, its ad (`none` when reading it failed), what `GenerateConnectID` would return and the
time of its critical section. -/
structure RegisterInput where
  remoteAddr : String
  user       : String
  ad         : Option RegisterAd
  cookie     : Option String
  now        : Int
  deriving DecidableEq, Repr

/-- An ad read from a target's persistent connection. -/
inductive TargetAd where
  | alive
  | report (requestID : String) (result : Bool) (errorString : String)
  deriving DecidableEq, Repr

/-! ## Requests -/

/-- The ad that asks a target to reverse-connect. -/
structure ForwardAd where
  myAddress         : String
  claimID           : String
  requestID         : String
  name              : String
  route             : String
  originalRequester : String
  priorHop          : String
  deriving DecidableEq, Repr

structure RouteContext where
  route             : String
  originalRequester : String
  priorHop          : String
  deriving DecidableEq, Repr

/-- A result in a request's reply channel, with the RequestID its report named and the handler on whose connection the
report arrived. -/
structure Delivery where
  res   : ReplyResult
  reqID : UInt64
  from_ : Nat
  deriving DecidableEq, Repr

/-- How `handleStandardRequest` ends. -/
inductive Reply where
  | relayed (d : Delivery)
  | forwardFailed
  | timedOut
  | cancelled
  deriving DecidableEq, Repr

inductive ReqPc where
  | insert
  | forward
  | wait
  | exit (r : Reply)
  | returned (r : Reply)
  deriving DecidableEq, Repr

structure Request where
  target     : Nat
  connectID  : String
  returnAddr : String
  name       : String
  id         : UInt64
  replyCh    : Option Delivery
  pc         : ReqPc
  deriving DecidableEq, Repr

/-- `Result` and `ErrorString` of the ad a requester is sent; a cancelled request is sent none. -/
def Reply.ad : Reply → Option (Bool × String)
  | .relayed d     => if d.res.success then some (true, "") else some (false, d.res.errMsg)
  | .forwardFailed => some (false, "failed to forward request to target")
  | .timedOut      => some (false, "timed out waiting for target to connect")
  | .cancelled     => none

/-! ## Proxy sessions -/

/-- Where `proxyRelay` stands.  `reply` and `splice` hold the target connection taken from `targetCh`; `finish` is the
`close(sess.done)` still to come, `exit` the deferred delete. -/
inductive RelayPc where
  | start
  | forward
  | wait
  | reply (conn : Nat)
  | splice (conn : Nat)
  | finish
  | exit
  | returned
  | duplicate
  deriving DecidableEq, Repr

/-- A `proxyRelay` call with its `proxySession`.  A target connection is the number of the hello that carried it. -/
structure Relay where
  clientFacing : Bool
  target       : Nat
  connectID    : String
  name         : String
  rc           : RouteContext
  requestID    : UInt64
  targetCh     : Option Nat
  done         : Bool
  pc           : RelayPc
  deriving DecidableEq, Repr

/-- Where `handleReverseConnect` stands. -/
inductive HelloPc where
  | lookup
  | send (sess : Nat)
  | waitDone (sess : Nat)
  | kept
  | refused
  deriving DecidableEq, Repr

structure Hello where
  claimID : String
  pc      : HelloPc
  deriving DecidableEq, Repr

/-- The server with its goroutines.  `sweeps` are the `SweepReconnects` calls with the store deletes each still has to
make; `wire` (the ads forwarded, by handler), `handed` (hello, session), `splices` (session, hello) and `closed`
(hellos whose connection `proxyRelay` closed) are histories. -/
structure State where
  nextID     : UInt64
  nextReq    : UInt64
  targets    : GoMap UInt64 Nat
  reconnects : GoMap UInt64 ReconnectRecord
  requests   : GoMap UInt64 Nat
  proxies    : GoMap String Nat
  handlers   : List Handler
  sweeps     : List (List UInt64)
  reqs       : List Request
  relays     : List Relay
  hellos     : List Hello
  wire       : List (Nat × ForwardAd)
  handed     : List (Nat × Nat)
  splices    : List (Nat × Nat)
  closed     : List Nat

def State.init : State :=
  { nextID := 0, nextReq := 0, targets := ∅, reconnects := ∅, requests := ∅, proxies := ∅, handlers := [], sweeps := [],
    reqs := [], relays := [], hellos := [], wire := [], handed := [], splices := [], closed := [] }

def authorize (cfg : Config) (perms : List String) (remoteAddr user : String) : Bool :=
  match cfg.authorizer with
  | none   => true
  | some f => perms.any (fun perm => f perm remoteAddr user)

def registerPerms : List String := ["DAEMON", "ADVERTISE_STARTD", "ADVERTISE_SCHEDD", "ADVERTISE_MASTER"]

def requestPerms : List String := ["READ"]

def parseTargetID (s : String) : Option UInt64 := parseUint (trimSpace s)

def parseContactID (x : Ext) (contact : String) : Option UInt64 :=
  (x.splitCCBContact contact).bind (fun p => parseUint p.2)

def proxyAddrSinful (cfg : Config) : String := "<" ++ trimAngles cfg.publicAddress ++ ">"

def splitRoute (route : String) : String × String :=
  match fields route with
  | []        => ("", "")
  | w :: rest => (w, joinSpace rest)

/-! ## `handleRegister`, `serveTarget`, `removeTarget`, `SweepReconnects` -/

/-- The CCBID and cookie a registration keeps, when its ad names a known record with the record's cookie and, unless
any IP is allowed, from the record's IP. -/
def reclaim (x : Ext) (cfg : Config) (s : State) (peerIPStr : String) (ad : RegisterAd) : Option (UInt64 × String) :=
  if ad.ccbid = "" ∨ ad.claimID = "" then none
  else
    match parseContactID x ad.ccbid with
    | none        => none
    | some prevID =>
      match s.reconnects.lookup prevID with
      | none     => none
      | some rec =>
        if rec.cookie = ad.claimID ∧ (cfg.reconnectAllowAnyIP = true ∨ rec.peerIP = peerIPStr) then
          some (prevID, rec.cookie)
        else none

/-- The end of `handleRegister`'s critical section: the target and its record go into the tables.  The source reads
`*rec` for its `Put` once the lock is released; the record the handler is to put is taken here, in the section, where it
is what `rec` points to. -/
def insertTarget (s : State) (t : Target) (reused : Bool) (peerIPStr : String) (now : Int) : State :=
  let rec_ : ReconnectRecord := ⟨t.id, t.cookie, peerIPStr, t.name, now⟩
  { s with
    targets    := s.targets.insert t.id s.handlers.length
    reconnects := s.reconnects.insert t.id rec_
    handlers   := s.handlers ++ [⟨t, reused, .put rec_⟩] }

/-- `handleRegister` up to the end of its critical section. -/
def handleRegister (x : Ext) (cfg : Config) (s : State) (r : RegisterInput) : State :=
  if authorize cfg registerPerms r.remoteAddr r.user = false then s
  else
    match r.ad with
    | none    => s
    | some ad =>
      let peerIPStr := x.peerIPString r.remoteAddr
      match reclaim x cfg s peerIPStr ad with
      | some (prevID, cookie) => insertTarget s ⟨prevID, ad.name, cookie⟩ true peerIPStr r.now
      | none =>
        match r.cookie with
        | none        => s
        | some cookie =>
          insertTarget { s with nextID := s.nextID + 1 } ⟨s.nextID + 1, ad.name, cookie⟩ false peerIPStr r.now

def setHandler (s : State) (h : Nat) (pc : RegPc) : State :=
  { s with handlers := s.handlers.modify h (fun k => { k with pc := pc }) }

/-- What `serveTarget` does with an ad: a heartbeat is echoed, anything else is a result report, and `deliverResult`
looks its request up. -/
def serveAd (s : State) (h : Nat) : TargetAd → State
  | .alive => s
  | .report requestID result errorString =>
    match parseUint requestID with
    | none       => s
    | some reqID =>
      match s.requests.lookup reqID with
      | none     => s
      | some req => setHandler s h (.deliver req reqID ⟨result, errorString⟩)

/-- `deliverResult`'s non-blocking send. -/
def sendReply (s : State) (req : Nat) (d : Delivery) : State :=
  { s with reqs := s.reqs.modify req (fun q => { q with replyCh := q.replyCh.or (some d) }) }

/-- `removeTarget`'s critical section. -/
def removeTarget (s : State) (h : Nat) (id : UInt64) (now : Int) : State :=
  let s := { s with targets := s.targets.erase id }
  match s.reconnects.lookup id with
  | none   => setHandler s h (.restamp none)
  | some r =>
    let cp := { r with updatedAt := now }
    setHandler { s with reconnects := s.reconnects.insert id cp } h (.restamp (some cp))

/-- The CCBIDs a sweep takes: not connected, and last stamped before the cutoff. -/
def stale (cfg : Config) (s : State) (now : Int) : List UInt64 :=
  (s.reconnects.entries.filter (fun e =>
    (s.targets.lookup e.1).isNone && decide (e.2.updatedAt < now - cfg.reconnectTTL))).map Sigma.fst

/-- `SweepReconnects`' critical section. -/
def sweepReconnects (cfg : Config) (s : State) (now : Int) : State :=
  { s with
    reconnects := (stale cfg s now).foldl (fun m id => m.erase id) s.reconnects
    sweeps     := s.sweeps ++ [stale cfg s now] }

inductive RegLabel where
  | register (r : RegisterInput)
  | put (h : Nat)
  | replied (h : Nat) (ok : Bool)
  /-- An ad, or the end of the connection (a read error, or the idle deadline). -/
  | read (h : Nat) (ad : Option TargetAd)
  | deliver (h : Nat)
  | removeTarget (h : Nat) (now : Int)
  | putRemoved (h : Nat)
  | sweep (now : Int)
  | sweepDelete (k : Nat)
  deriving DecidableEq, Repr

def stepReg (x : Ext) (cfg : Config) (s : State) : RegLabel → Option State
  | .register r => some (handleRegister x cfg s r)
  | .put h =>
    match s.handlers[h]? with
    | some ⟨_, _, .put _⟩ => some (setHandler s h .reply)
    | _ => none
  | .replied h ok =>
    match s.handlers[h]? with
    | some ⟨_, _, .reply⟩ => some (setHandler s h (if ok then .serve else .remove))
    | _ => none
  | .read h ad =>
    match s.handlers[h]? with
    | some ⟨_, _, .serve⟩ =>
      match ad with
      | some ad => some (serveAd s h ad)
      | none    => some (setHandler s h .remove)
    | _ => none
  | .deliver h =>
    match s.handlers[h]? with
    | some ⟨_, _, .deliver req reqID res⟩ => some (setHandler (sendReply s req ⟨res, reqID, h⟩) h .serve)
    | _ => none
  | .removeTarget h now =>
    match s.handlers[h]? with
    | some ⟨t, _, .remove⟩ => some (removeTarget s h t.id now)
    | _ => none
  | .putRemoved h =>
    match s.handlers[h]? with
    | some ⟨_, _, .restamp _⟩ => some (setHandler s h .returned)
    | _ => none
  | .sweep now => some (sweepReconnects cfg s now)
  | .sweepDelete k =>
    match s.sweeps[k]? with
    | some (_ :: rest) => some { s with sweeps := s.sweeps.set k rest }
    | _ => none

/-- The store call a step makes, where a store is configured. -/
def storeCall (cfg : Config) (s : State) : RegLabel → Option StoreOp
  | .put h =>
    match s.handlers[h]? with
    | some ⟨_, _, .put rec⟩ => if cfg.reconnectStore then some (.put rec) else none
    | _ => none
  | .putRemoved h =>
    match s.handlers[h]? with
    | some ⟨_, _, .restamp (some rec)⟩ => if cfg.reconnectStore then some (.put rec) else none
    | _ => none
  | .sweepDelete k =>
    match s.sweeps[k]? with
    | some (id :: _) => if cfg.reconnectStore then some (.delete id) else none
    | _ => none
  | _ => none

/-! ## `handleRequest` and `handleStandardRequest` -/

/-- A CCB_REQUEST: its peer and the attributes of its ad. -/
structure RequestInput where
  remoteAddr        : String
  user              : String
  ccbid             : String
  claimID           : String
  myAddress         : String
  name              : String
  streamingRequired : Bool
  route             : String
  deriving DecidableEq, Repr

/-- What `handleRequest` decides. -/
inductive RequestPlan where
  | refuse (msg : String)
  | standard (target : Nat)
  | proxy (target : Nat) (rc : RouteContext)
  deriving DecidableEq, Repr

def requesterIdentity (r : RequestInput) : String := r.user ++ " at " ++ r.remoteAddr

def handleRequest (x : Ext) (cfg : Config) (s : State) (r : RequestInput) : RequestPlan :=
  if authorize cfg requestPerms r.remoteAddr r.user = false then .refuse "authorization denied"
  else if r.claimID = "" ∨ r.myAddress = "" then .refuse "request missing ClaimId or MyAddress"
  else
    match parseTargetID r.ccbid with
    | none          => .refuse ("bad target CCBID " ++ x.quote r.ccbid)
    | some targetID =>
      match s.targets.lookup targetID with
      | none   => .refuse ("no target registered for ccbid " ++ formatUint targetID)
      | some t =>
        if r.streamingRequired = true ∨ x.sinfulIsCCB r.myAddress = true ∨ r.route ≠ "" then
          .proxy t ⟨r.route, requesterIdentity r, proxyAddrSinful cfg⟩
        else .standard t

def newRequest (r : RequestInput) (t : Nat) : Request :=
  ⟨t, r.claimID, r.myAddress, r.name, 0, none, .insert⟩

def newRelay (clientFacing : Bool) (t : Nat) (connectID name : String) (rc : RouteContext) : Relay :=
  ⟨clientFacing, t, connectID, name, rc, 0, none, false, .start⟩

def setReq (s : State) (q : Nat) (pc : ReqPc) : State :=
  { s with reqs := s.reqs.modify q (fun k => { k with pc := pc }) }

def Request.forwardAd (q : Request) : ForwardAd :=
  ⟨q.returnAddr, q.connectID, formatUint q.id, q.name, "", "", ""⟩

inductive ReqLabel where
  | request (r : RequestInput)
  | insert (q : Nat)
  | forward (q : Nat) (ok : Bool)
  | receive (q : Nat)
  | timeout (q : Nat)
  | cancel (q : Nat)
  | delete (q : Nat)
  deriving DecidableEq, Repr

/-- `handleStandardRequest`'s first critical section. -/
def insertRequest (s : State) (q : Nat) : State :=
  { s with
    nextReq  := s.nextReq + 1
    requests := s.requests.insert (s.nextReq + 1) q
    reqs     := s.reqs.modify q (fun k => { k with id := s.nextReq + 1, pc := .forward }) }

def stepReq (x : Ext) (cfg : Config) (s : State) : ReqLabel → Option State
  | .request r =>
    match handleRequest x cfg s r with
    | .refuse _   => some s
    | .standard t => some { s with reqs := s.reqs ++ [newRequest r t] }
    | .proxy t rc => some { s with relays := s.relays ++ [newRelay true t r.claimID r.name rc] }
  | .insert q =>
    match s.reqs[q]? with
    | some k => if k.pc = .insert then some (insertRequest s q) else none
    | none   => none
  | .forward q ok =>
    match s.reqs[q]? with
    | some k =>
      if k.pc = .forward then
        if ok then some { setReq s q .wait with wire := s.wire ++ [(k.target, k.forwardAd)] }
        else some (setReq s q (.exit .forwardFailed))
      else none
    | none => none
  | .receive q =>
    match s.reqs[q]? with
    | some k =>
      match k.pc, k.replyCh with
      | .wait, some d =>
        some { s with reqs := s.reqs.modify q (fun k => { k with replyCh := none, pc := .exit (.relayed d) }) }
      | _, _ => none
    | none => none
  | .timeout q =>
    match s.reqs[q]? with
    | some k => if k.pc = .wait then some (setReq s q (.exit .timedOut)) else none
    | none   => none
  | .cancel q =>
    match s.reqs[q]? with
    | some k => if k.pc = .wait then some (setReq s q (.exit .cancelled)) else none
    | none   => none
  | .delete q =>
    match s.reqs[q]? with
    | some k =>
      match k.pc with
      | .exit r => some { setReq s q (.returned r) with requests := s.requests.erase k.id }
      | _ => none
    | none => none

/-! ## `startInboundRelay`, `proxyRelay` and `handleReverseConnect` -/

/-- `startInboundRelay` up to its call of `proxyRelay`, with what `GenerateConnectID` returned; `none` where it closes
the upstream pipe instead. -/
def startInboundRelay (cfg : Config) (s : State) (route originalRequester : String) (connectID : Option String) :
    Option Relay :=
  let (head, tail) := splitRoute route
  if head = "" then none
  else
    match parseTargetID head with
    | none          => none
    | some targetID =>
      match s.targets.lookup targetID, connectID with
      | some t, some connectID =>
        some (newRelay false t connectID "inbound-relay" ⟨tail, originalRequester, proxyAddrSinful cfg⟩)
      | _, _ => none

def setRelay (s : State) (k : Nat) (pc : RelayPc) : State :=
  { s with relays := s.relays.modify k (fun r => { r with pc := pc }) }

def setHello (s : State) (c : Nat) (pc : HelloPc) : State :=
  { s with hellos := s.hellos.modify c (fun h => { h with pc := pc }) }

def Relay.forwardAd (cfg : Config) (r : Relay) : ForwardAd :=
  ⟨proxyAddrSinful cfg, r.connectID, formatUint r.requestID, r.name, r.rc.route, r.rc.originalRequester, r.rc.priorHop⟩

/-- `proxyRelay`'s first critical section. -/
def startRelay (s : State) (k : Nat) (r : Relay) : State :=
  let s := { s with nextReq := s.nextReq + 1 }
  if (s.proxies.lookup r.connectID).isSome then setRelay s k .duplicate
  else
    { s with
      proxies := s.proxies.insert r.connectID k
      relays  := s.relays.modify k (fun r => { r with requestID := s.nextReq, pc := .forward }) }

/-- `spliceConns` begins. -/
def beginSplice (s : State) (k c : Nat) : State :=
  { setRelay s k (.splice c) with splices := s.splices ++ [(k, c)] }

inductive ProxyLabel where
  | inbound (route originalRequester : String) (connectID : Option String)
  | start (k : Nat)
  | forward (k : Nat) (ok : Bool)
  | receive (k : Nat)
  | timeout (k : Nat)
  | cancel (k : Nat)
  | replied (k : Nat) (ok : Bool)
  | spliceEnd (k : Nat)
  | finish (k : Nat)
  | delete (k : Nat)
  | hello (claimID : String)
  | lookup (c : Nat)
  | send (c : Nat)
  | helloDone (c : Nat)
  | helloCancel (c : Nat)
  deriving DecidableEq, Repr

def stepProxy (cfg : Config) (s : State) : ProxyLabel → Option State
  | .inbound route originalRequester connectID =>
    match startInboundRelay cfg s route originalRequester connectID with
    | none   => some s
    | some r => some { s with relays := s.relays ++ [r] }
  | .start k =>
    match s.relays[k]? with
    | some r => if r.pc = .start then some (startRelay s k r) else none
    | none   => none
  | .forward k ok =>
    match s.relays[k]? with
    | some r =>
      if r.pc = .forward then
        if ok then some { setRelay s k .wait with wire := s.wire ++ [(r.target, r.forwardAd cfg)] }
        else some (setRelay s k .exit)
      else none
    | none => none
  | .receive k =>
    match s.relays[k]? with
    | some r =>
      match r.pc, r.targetCh with
      | .wait, some c =>
        let s := { s with relays := s.relays.modify k (fun r => { r with targetCh := none }) }
        some (if r.clientFacing then setRelay s k (.reply c) else beginSplice s k c)
      | _, _ => none
    | none => none
  | .timeout k =>
    match s.relays[k]? with
    | some r => if r.pc = .wait then some (setRelay s k .exit) else none
    | none   => none
  | .cancel k =>
    match s.relays[k]? with
    | some r => if r.pc = .wait then some (setRelay s k .exit) else none
    | none   => none
  | .replied k ok =>
    match s.relays[k]? with
    | some r =>
      match r.pc with
      | .reply c => some (if ok then beginSplice s k c else { setRelay s k .finish with closed := c :: s.closed })
      | _ => none
    | none => none
  | .spliceEnd k =>
    match s.relays[k]? with
    | some r =>
      match r.pc with
      | .splice c => some { setRelay s k .finish with closed := c :: s.closed }
      | _ => none
    | none => none
  | .finish k =>
    match s.relays[k]? with
    | some r =>
      if r.pc = .finish then
        some { s with relays := s.relays.modify k (fun r => { r with done := true, pc := .exit }) }
      else none
    | none => none
  | .delete k =>
    match s.relays[k]? with
    | some r =>
      if r.pc = .exit then some { setRelay s k .returned with proxies := s.proxies.erase r.connectID } else none
    | none => none
  | .hello claimID => some { s with hellos := s.hellos ++ [⟨claimID, .lookup⟩] }
  | .lookup c =>
    match s.hellos[c]? with
    | some h =>
      if h.pc = .lookup then
        match s.proxies.lookup h.claimID with
        | some k => some (setHello s c (.send k))
        | none   => some (setHello s c .refused)
      else none
    | none => none
  | .send c =>
    match s.hellos[c]? with
    | some h =>
      match h.pc with
      | .send k =>
        match s.relays[k]? with
        | some r =>
          match r.targetCh with
          | some _ => some (setHello s c .refused)
          | none   =>
            some { setHello s c (.waitDone k) with
              relays := s.relays.modify k (fun r => { r with targetCh := some c })
              handed := s.handed ++ [(c, k)] }
        | none => none
      | _ => none
    | none => none
  | .helloDone c =>
    match s.hellos[c]? with
    | some h =>
      match h.pc with
      | .waitDone k =>
        match s.relays[k]? with
        | some r => if r.done then some (setHello s c .kept) else none
        | none   => none
      | _ => none
    | none => none
  | .helloCancel c =>
    match s.hellos[c]? with
    | some h =>
      match h.pc with
      | .waitDone _ => some (setHello s c .kept)
      | _ => none
    | none => none

/-! ## The system -/

inductive Label where
  | reg (l : RegLabel)
  | req (l : ReqLabel)
  | proxy (l : ProxyLabel)
  deriving DecidableEq, Repr

def step (x : Ext) (cfg : Config) (s : State) : Label → Option State
  | .reg l   => stepReg x cfg s l
  | .req l   => stepReq x cfg s l
  | .proxy l => stepProxy cfg s l

end Broker
end Ccb
