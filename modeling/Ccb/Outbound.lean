import Ccb.Machine
import Ccb.Broker
/-!
# Outbound — the outbound proxy and its chain of next hops

`handleProxyConnect` (outbound.go) dials a target for a requester, or, on an inside CCB, sends the request on to its
`OutboundNextHop` with the TTL reduced by one.  `Transit` is a request on its way through a network of brokers; a step
is one `nextHopTransport.connect` that forwards it.

Cedar's `OutboundConnect` sends a positive TTL as `CCBTTL` and takes any other for "not set", so a broker that spends
the last hop of the budget hands the next one a request that starts again from that broker's own default.  A request is
forwarded at most as often as its budget says as long as no broker forwards its last hop to a broker that forwards
(`forwards_le`); around a cycle it is forwarded for ever (`cycle_forwards_forever`).
-/
namespace Ccb
namespace Outbound

open Machine (run Meets)

/-- Go's `net.IP`: four or sixteen bytes. -/
abbrev IP := List UInt8

/-- What the handler takes from cedar and from Go's libraries. -/
structure NetExt where
  /-- `addresses.ParseSinful`: its host and port. -/
  parseSinful          : String → Option (String × String)
  parseIP              : String → Option IP
  isLoopback           : IP → Bool
  isLinkLocalUnicast   : IP → Bool
  isLinkLocalMulticast : IP → Bool
  isUnspecified        : IP → Bool
  /-- `net.ParseCIDR`, as the network's `Contains`. -/
  parseCIDR            : String → Option (IP → Bool)
  /-- `filepath.Match`, false on a malformed pattern. -/
  globMatch            : String → String → Bool
  toLower              : String → String
  equalFold            : String → String → Bool
  /-- The `%q` of an error text. -/
  quote                : String → String

/-- The fields of `Config` the outbound proxy reads. -/
structure OutboundConfig extends Broker.Config where
  outboundProxy           : Bool
  outboundTargetAllowlist : List String
  outboundNextHop         : String
  outboundTTL             : Int

/-! ## Egress control -/

/-- `strings.ContainsAny(pat, "*?[")`. -/
def hasGlob (pat : String) : Bool := pat.toList.any (fun c => c == '*' || c == '?' || c == '[')

/-- One entry of the allow-list, trimmed and not blank. -/
def entryMatches (x : NetExt) (host pat : String) : Bool :=
  match x.parseCIDR pat with
  | some contains => (x.parseIP host).any contains
  | none =>
    if hasGlob pat then x.globMatch (x.toLower pat) (x.toLower host)
    else x.equalFold pat host

/-- The loop of `matchAllowlist`, with `hasEntry`. -/
def matchLoop (x : NetExt) (host : String) : List String → Bool → Bool
  | [], hasEntry => !hasEntry
  | pat :: pats, hasEntry =>
    if trimSpace pat = "" then matchLoop x host pats hasEntry
    else if entryMatches x host (trimSpace pat) then true
    else matchLoop x host pats true

def matchAllowlist (x : NetExt) (cfg : OutboundConfig) (host : String) : Bool :=
  matchLoop x host cfg.outboundTargetAllowlist false

/-- `net.JoinHostPort`. -/
def joinHostPort (host port : String) : String :=
  if host.toList.contains ':' then "[" ++ host ++ "]:" ++ port else host ++ ":" ++ port

/-- The host is one of the scopes that are never dialed. -/
def refusedScope (x : NetExt) (host : String) : Option String :=
  match x.parseIP host with
  | some ip =>
    if x.isLoopback ip || x.isLinkLocalUnicast ip || x.isLinkLocalMulticast ip || x.isUnspecified ip then
      some ("target " ++ x.quote host ++ " is loopback/link-local (refused)")
    else none
  | none => if x.equalFold host "localhost" then some ("target " ++ x.quote host ++ " is loopback (refused)") else none

def outboundTargetAllowed (x : NetExt) (cfg : OutboundConfig) (target : String) : Except String String :=
  match x.parseSinful target with
  | none => .error ("bad target sinful " ++ x.quote target)
  | some (host, port) =>
    if host = "" ∨ port = "" then .error ("target " ++ x.quote target ++ " has no host:port")
    else
      match refusedScope x host with
      | some msg => .error msg
      | none =>
        if matchAllowlist x cfg host then .ok (joinHostPort host port)
        else .error ("target host " ++ x.quote host ++ " not permitted by CCB_OUTBOUND_TARGET_ALLOWLIST")

/-! ## `handleProxyConnect` -/

/-- The ad of a CCB_PROXY_CONNECT. -/
structure ProxyConnectAd where
  myAddress : String
  claimID   : String
  name      : String
  ccbTTL    : Option Int
  deriving DecidableEq, Repr

/-- A CCB_PROXY_CONNECT: its peer and its ad. -/
structure ProxyConnectInput where
  remoteAddr : String
  user       : String
  ad         : ProxyConnectAd
  deriving DecidableEq, Repr

/-- What the handler does with a request: it refuses it with a message, dials an address, or forwards it with a TTL. -/
inductive ConnectPlan where
  | refuse (msg : String)
  | dial (addr : String)
  | forward (broker : String) (ttl : Int)
  deriving DecidableEq, Repr

/-- The hop budget a broker sees. -/
def requestTTL (cfg : OutboundConfig) (ad : ProxyConnectAd) : Int :=
  ad.ccbTTL.getD (if cfg.outboundTTL ≤ 0 then 8 else cfg.outboundTTL)

def directConnect (x : NetExt) (cfg : OutboundConfig) (target : String) : ConnectPlan :=
  match outboundTargetAllowed x cfg target with
  | .ok addr   => .dial addr
  | .error msg => .refuse msg

/-- `nextHopTransport.connect` up to its `OutboundConnect`. -/
def nextHopConnect (cfg : OutboundConfig) (ttl : Int) : ConnectPlan :=
  if ttl ≤ 0 then .refuse "outbound proxy TTL expired" else .forward cfg.outboundNextHop (ttl - 1)

def proxyConnectPerms : List String := ["DAEMON"]

def handleProxyConnect (x : NetExt) (cfg : OutboundConfig) (r : ProxyConnectInput) : ConnectPlan :=
  if Broker.authorize cfg.toConfig proxyConnectPerms r.remoteAddr r.user = false then .refuse "authorization denied"
  else if r.ad.myAddress = "" ∨ r.ad.claimID = "" then .refuse "proxy-connect missing MyAddress or ClaimId"
  else if cfg.outboundNextHop = "" then directConnect x cfg r.ad.myAddress
  else nextHopConnect cfg (requestTTL cfg r.ad)

/-- The `CCBTTL` cedar's `OutboundConnect` sends for `OutboundOptions.TTL`; `unset` is what it sends when none is
set. -/
def sentTTL (unset : Option Int) (ttl : Int) : Option Int := if 0 < ttl then some ttl else unset

/-! ## A request on its way -/

/-- The broker that has a request, the request, and how often it has been forwarded. -/
structure Transit where
  broker   : String
  ad       : ProxyConnectAd
  forwards : Nat
  deriving DecidableEq, Repr

/-- What a hop finds: who the broker before it is to this one, and the connect id that one generated. -/
structure HopEnv where
  remoteAddr : String
  user       : String
  connectID  : String
  deriving DecidableEq, Repr

/-- A broker forwards the request.  `net` is the configuration of the broker at each address. -/
def Transit.step (x : NetExt) (unset : Option Int) (net : String → OutboundConfig) (s : Transit) (e : HopEnv) :
    Option Transit :=
  if (net s.broker).outboundProxy then
    match handleProxyConnect x (net s.broker) ⟨e.remoteAddr, e.user, s.ad⟩ with
    | .forward next ttl =>
      some ⟨next, ⟨s.ad.myAddress, e.connectID, "ccb-inside-forwarder", sentTTL unset ttl⟩, s.forwards + 1⟩
    | .refuse _ | .dial _ => none
  else none

/-- The request as it enters at a broker. -/
def Transit.enter (broker : String) (ad : ProxyConnectAd) : Transit := ⟨broker, ad, 0⟩

section
variable {x : NetExt} {unset : Option Int} {net : String → OutboundConfig} {s t : Transit} {e : HopEnv}

/-- **What a forward does to the budget.** -/
theorem Transit.step_some (h : s.step x unset net e = some t) :
    (net s.broker).outboundNextHop ≠ "" ∧ 0 < requestTTL (net s.broker) s.ad ∧
      t.broker = (net s.broker).outboundNextHop ∧
      t.ad.ccbTTL = sentTTL unset (requestTTL (net s.broker) s.ad - 1) ∧ t.forwards = s.forwards + 1 := by
  unfold Transit.step at h
  split at h
  · split at h
    · rename_i next ttl hplan
      cases h
      unfold handleProxyConnect at hplan
      split at hplan
      · cases hplan
      split at hplan
      · cases hplan
      split at hplan
      · unfold directConnect at hplan
        split at hplan <;> cases hplan
      · rename_i hhop
        unfold nextHopConnect at hplan
        split at hplan
        · cases hplan
        · rename_i hpos
          cases hplan
          exact ⟨hhop, Int.not_le.1 hpos, rfl, rfl, rfl⟩
    · cases h
    · cases h
  · cases h

/-- A broker with one hop left forwards only to one that dials. -/
def SparesLast (net : String → OutboundConfig) (s : Transit) (_ : HopEnv) : Prop :=
  requestTTL (net s.broker) s.ad = 1 → (net (net s.broker).outboundNextHop).outboundNextHop = ""

instance (net : String → OutboundConfig) (s : Transit) (e : HopEnv) : Decidable (SparesLast net s e) :=
  inferInstanceAs (Decidable (_ → _))

/-- The hops made and the hops left are within the budget, or the request has come to a broker that dials. -/
def WithinBudget (net : String → OutboundConfig) (budget : Int) (s : Transit) : Prop :=
  (0 ≤ requestTTL (net s.broker) s.ad ∧ s.forwards + requestTTL (net s.broker) s.ad ≤ budget) ∨
    ((net s.broker).outboundNextHop = "" ∧ (s.forwards : Int) ≤ budget)

theorem WithinBudget.step {budget : Int} (h : WithinBudget net budget s) (hg : SparesLast net s e)
    (hs : s.step x unset net e = some t) : WithinBudget net budget t := by
  obtain ⟨hhop, hpos, hbroker, httl, hforwards⟩ := Transit.step_some hs
  rcases h with ⟨-, hle⟩ | ⟨hexit, -⟩
  · have hcount : (t.forwards : Int) = s.forwards + 1 := by rw [hforwards]; rfl
    by_cases hlast : requestTTL (net s.broker) s.ad = 1
    · refine Or.inr ⟨?_, by omega⟩
      rw [hbroker]
      exact hg hlast
    · left
      have hsent : t.ad.ccbTTL = some (requestTTL (net s.broker) s.ad - 1) := by
        rw [httl, sentTTL, if_pos (by omega)]
      have hnext : requestTTL (net t.broker) t.ad = requestTTL (net s.broker) s.ad - 1 := by
        rw [requestTTL, hsent, Option.getD_some]
      rw [hnext]
      omega
  · exact absurd hexit hhop

end

/-- **A request is forwarded at most as often as its budget says**, in every network and from every entry, when no last
hop goes to a broker that forwards. -/
theorem forwards_le (x : NetExt) (unset : Option Int) (net : String → OutboundConfig) (broker : String)
    (ad : ProxyConnectAd) (hbudget : 0 ≤ requestTTL (net broker) ad) (es : List HopEnv) (s : Transit)
    (hm : Meets (Transit.step x unset net) (SparesLast net) (.enter broker ad) es)
    (hr : run (Transit.step x unset net) (.enter broker ad) es = some s) :
    (s.forwards : Int) ≤ requestTTL (net broker) ad := by
  have h := Machine.inv_of_meets (I := WithinBudget net (requestTTL (net broker) ad))
    (fun _ _ _ h hg hs => h.step hg hs) es _ s (Or.inl ⟨hbudget, by simp [Transit.enter]⟩) hm hr
  rcases h with ⟨h1, h2⟩ | ⟨-, h2⟩
  · omega
  · exact h2

/-! ## Networks -/

/-- `ParseSinful` as angle brackets around a host and a port; no address is an IP, and no pattern a network. -/
def plainNet : NetExt where
  parseSinful s :=
    match (trimAngles s).toList.span (fun c => c != ':') with
    | (host, _ :: port) => some (String.ofList host, String.ofList port)
    | (_, [])           => none
  parseIP _ := none
  isLoopback _ := false
  isLinkLocalUnicast _ := false
  isLinkLocalMulticast _ := false
  isUnspecified _ := false
  parseCIDR _ := none
  globMatch _ _ := false
  toLower s := s
  equalFold a b := a == b
  quote := String.quote

def outboundBroker (address nextHop : String) : OutboundConfig :=
  { publicAddress := address, authorizer := none, reconnectStore := false, reconnectAllowAnyIP := false,
    reconnectTTL := 0,
    outboundProxy := true, outboundTargetAllowlist := [], outboundNextHop := nextHop, outboundTTL := 0 }

/-- An inside CCB that forwards to an outside one. -/
def twoCCB (address : String) : OutboundConfig :=
  if address = "inside:9618" then outboundBroker address "outside:9618" else outboundBroker address ""

def connectAd (ttl : Option Int) : ProxyConnectAd := ⟨"<target:4000>", "c0ffee", "requester", ttl⟩

theorem forwards_le_twoCCB :
    (run (Transit.step plainNet none twoCCB) (.enter "inside:9618" (connectAd none))
      [⟨"ep:1", "condor@pool", "c1"⟩]).map
        (fun s => (s.forwards, s.ad.ccbTTL)) = some (1, some 7) ∧
      ∀ s, run (Transit.step plainNet none twoCCB) (.enter "inside:9618" (connectAd none))
        [⟨"ep:1", "condor@pool", "c1"⟩] =
        some s → (s.forwards : Int) ≤ requestTTL (twoCCB "inside:9618") (connectAd none) := by
  refine ⟨by decide, fun s hs => ?_⟩
  exact forwards_le plainNet none twoCCB _ _ (by decide) [⟨"ep:1", "condor@pool", "c1"⟩] s (by decide) hs

/-- Two brokers, each the next hop of the other. -/
def cycle (address : String) : OutboundConfig :=
  if address = "east:9618" then outboundBroker address "west:9618" else outboundBroker address "east:9618"

theorem cycle_cfg (address : String) :
    (cycle address).outboundProxy = true ∧ (cycle address).authorizer = none ∧ (cycle address).outboundNextHop ≠ "" ∧
      (cycle address).outboundTTL = 0 := by
  unfold cycle
  split <;> exact ⟨rfl, rfl, by simp [outboundBroker], rfl⟩

theorem requestTTL_cycle_pos {ad : ProxyConnectAd} {ttl : Int} (h : ad.ccbTTL = sentTTL none ttl) (address : String) :
    0 < requestTTL (cycle address) ad := by
  rw [requestTTL, h, sentTTL]
  split
  · assumption
  · rw [(cycle_cfg address).2.2.2]
    decide

/-- A broker of the cycle forwards whatever has a hop left. -/
theorem cycle_step (s : Transit) (e : HopEnv) (hid : e.connectID ≠ "")
    (had : s.ad.myAddress = "<target:4000>" ∧ s.ad.claimID ≠ "") (hpos : 0 < requestTTL (cycle s.broker) s.ad) :
    ∃ t, s.step plainNet none cycle e = some t ∧ t.forwards = s.forwards + 1 ∧
      (t.ad.myAddress = "<target:4000>" ∧ t.ad.claimID ≠ "") ∧ 0 < requestTTL (cycle t.broker) t.ad := by
  obtain ⟨hproxy, hopen, hhop, -⟩ := cycle_cfg s.broker
  have hauth : Broker.authorize (cycle s.broker).toConfig proxyConnectPerms e.remoteAddr e.user = true := by
    rw [Broker.authorize, hopen]
  have hmine : ¬ (s.ad.myAddress = "" ∨ s.ad.claimID = "") := by simp [had.1, had.2]
  have hplan : handleProxyConnect plainNet (cycle s.broker) ⟨e.remoteAddr, e.user, s.ad⟩ =
      .forward (cycle s.broker).outboundNextHop (requestTTL (cycle s.broker) s.ad - 1) := by
    simp [handleProxyConnect, nextHopConnect, hauth, hmine, hhop, hpos]
  have hstep : s.step plainNet none cycle e = some ⟨(cycle s.broker).outboundNextHop,
      ⟨s.ad.myAddress, e.connectID, "ccb-inside-forwarder", sentTTL none (requestTTL (cycle s.broker) s.ad - 1)⟩,
      s.forwards + 1⟩ := by
    rw [Transit.step, if_pos hproxy, hplan]
  exact ⟨_, hstep, rfl, ⟨had.1, hid⟩, requestTTL_cycle_pos rfl _⟩

/-- **A request with a TTL of one goes round a cycle for ever**: for every `n` it is forwarded `n` times. -/
theorem cycle_forwards_forever :
    requestTTL (cycle "east:9618") (connectAd (some 1)) = 1 ∧
      ∀ n : Nat, ∃ es s, run (Transit.step plainNet none cycle) (.enter "east:9618" (connectAd (some 1))) es = some s ∧
        s.forwards = n := by
  refine ⟨by decide, fun n => ?_⟩
  -- The induction keeps the request forwardable: its budget is positive wherever it is.
  suffices h : ∃ es s, run (Transit.step plainNet none cycle) (.enter "east:9618" (connectAd (some 1))) es = some s ∧
      s.forwards = n ∧ (s.ad.myAddress = "<target:4000>" ∧ s.ad.claimID ≠ "") ∧
      0 < requestTTL (cycle s.broker) s.ad by
    obtain ⟨es, s, hr, hn, -⟩ := h
    exact ⟨es, s, hr, hn⟩
  induction n with
  | zero => exact ⟨[], _, rfl, rfl, ⟨rfl, by decide⟩, by decide⟩
  | succ n ih =>
    obtain ⟨es, s, hr, hn, had, hpos⟩ := ih
    obtain ⟨t, ht, hf, had', hpos'⟩ := cycle_step s ⟨"peer:1", "condor@pool", "c1"⟩ (by decide) had hpos
    refine ⟨es ++ [⟨"peer:1", "condor@pool", "c1"⟩], t, ?_, by rw [hf, hn], had', hpos'⟩
    rw [Machine.run_append, hr]
    simp [run, ht]

end Outbound
end Ccb
