import Ccb.BrokerProxyInv
/-!
# Route — a request through a tree of brokers

A broker's registrants are endpoints and downstream brokers registered upstream with it (upstream.go).  A CCB_REQUEST
names the first registrant by its CCBID and those after it by its CCBRoute: the entry broker (`handleRequest`) asks the
first one to connect, and a downstream broker that is asked with a route left takes its head, asks that registrant in
turn (`startInboundRelay`) and splices the two pipes.

`Chain` is one request on its way.  Each of its hops is a run of the broker it is at, among whatever else that broker
does (`Hop`): the ad is what the run puts on the wire, and the requester's pipe goes to the connection the run splices
it to, which is that of any hello with the hop's connect id.  `follow` and `path` are what the ids mean: the registrant
they lead to, and the registrants on the way with the broker that knows each.  `request_follows_route` says that a
proxied request contacts a prefix of its path, ends at what its ids lead to, and carries the entry's audit trail
unchanged; and that its pipe leads to nobody else where nobody but the registrant asked presents a hop's connect id.
-/
namespace Ccb

/-! ## Routes as lists of ids -/

/-- What `strings.Fields` cuts out: at least one character, none of them a space. -/
def Word (w : String) : Prop := w.toList ≠ [] ∧ ∀ c ∈ w.toList, isSpace c = false

theorem not_mem_splitOnP {α : Type} (p : α → Bool) : ∀ (xs : List α) (ws : List α), ws ∈ xs.splitOnP p →
    ∀ c ∈ ws, p c = false
  | [], ws, h, c, hc => by
    rw [List.splitOnP_nil, List.mem_singleton] at h
    subst h
    cases hc
  | x :: xs, ws, h, c, hc => by
    rw [List.splitOnP_cons_eq_if_modifyHead] at h
    by_cases hx : p x = true
    · rw [if_pos hx, List.mem_cons] at h
      rcases h with rfl | h
      · cases hc
      · exact not_mem_splitOnP p xs ws h c hc
    · rw [if_neg hx] at h
      cases hs : xs.splitOnP p with
      | nil => exact absurd hs (List.splitOnP_ne_nil p xs)
      | cons y ys =>
        have ih := not_mem_splitOnP p xs
        rw [hs] at h ih
        simp only [List.modifyHead_cons, List.mem_cons] at h
        rcases h with rfl | h
        · rcases List.mem_cons.1 hc with rfl | hc
          · simpa using hx
          · exact ih y List.mem_cons_self c hc
        · exact ih ws (List.mem_cons_of_mem _ h) c hc

theorem word_of_mem_fields {s w : String} (h : w ∈ fields s) : Word w := by
  simp only [fields, List.mem_map, List.mem_filter] at h
  obtain ⟨cs, ⟨hcs, hne⟩, rfl⟩ := h
  refine ⟨by simpa using hne, fun c hc => ?_⟩
  rw [String.toList_ofList] at hc
  exact not_mem_splitOnP isSpace _ cs hcs c hc

theorem splitOnP_joinSpace : ∀ (ws : List String), ws ≠ [] → (∀ w ∈ ws, Word w) →
    (joinSpace ws).toList.splitOnP isSpace = ws.map String.toList
  | [], h, _ => absurd rfl h
  | [w], _, h => by
    have hw := (h w List.mem_cons_self).2
    simp [joinSpace, List.splitOnP_eq_singleton hw]
  | w :: v :: ws, _, h => by
    have hw := (h w List.mem_cons_self).2
    have ih := splitOnP_joinSpace (v :: ws) (by simp) (fun u hu => h u (List.mem_cons_of_mem _ hu))
    have hcut : (joinSpace (w :: v :: ws)).toList = w.toList ++ ' ' :: (joinSpace (v :: ws)).toList := by
      simp [joinSpace, String.toList_intercalate]
    rw [hcut, List.splitOnP_append_cons_of_forall_mem hw ' ' (by decide), ih]
    rfl

/-- **Joining the words of a route and cutting it again gives the words.** -/
theorem fields_joinSpace (ws : List String) (h : ∀ w ∈ ws, Word w) : fields (joinSpace ws) = ws := by
  by_cases hne : ws = []
  · subst hne
    decide
  · have hkeep : (ws.map String.toList).filter (fun w => !w.isEmpty) = ws.map String.toList := by
      rw [List.filter_eq_self]
      intro cs hcs
      obtain ⟨w, hw, rfl⟩ := List.mem_map.1 hcs
      simpa using (h w hw).1
    rw [fields, splitOnP_joinSpace ws hne h, hkeep, List.map_map]
    simp [Function.comp_def]

theorem joinSpace_eq_empty_iff (ws : List String) (h : ∀ w ∈ ws, Word w) : joinSpace ws = "" ↔ ws = [] := by
  constructor
  · intro he
    rw [← fields_joinSpace ws h, he]
    decide
  · rintro rfl
    rfl

theorem trimSpace_word {w : String} (h : Word w) : trimSpace w = w := by
  have hid : ∀ cs : List Char, (∀ c ∈ cs, isSpace c = false) → cs.dropWhile isSpace = cs := by
    intro cs hcs
    cases cs with
    | nil => rfl
    | cons c cs => simp [hcs c List.mem_cons_self]
  rw [trimSpace, trimEnds, hid _ h.2, hid _ (fun c hc => h.2 c (List.mem_reverse.1 hc)), List.reverse_reverse,
    String.ofList_toList]

namespace Route

open Machine (run Meets)
open Broker (RequestInput ForwardAd requesterIdentity proxyAddrSinful)

/-! ## The tree -/

/-- Who is at the other end of a registration. -/
inductive Registrant (β ε : Type) where
  | endpoint (e : ε)
  | broker (b : β)
  deriving DecidableEq, Repr

/-- The brokers, and who holds the connection of each of their registration handlers.  A broker's state is the one a
request finds; in a tree a request comes to each broker once. -/
structure Net (β ε : Type) where
  cfg        : β → Broker.Config
  state      : β → Broker.State
  sound      : ∀ b, Broker.ProxyInv (state b)
  registrant : β → Nat → Registrant β ε

variable {β ε : Type} (net : Net β ε)

/-- The registrant a broker knows under a bare decimal id. -/
def Net.resolve (b : β) (id : String) : Option (Registrant β ε) :=
  ((parseUint id).bind (fun i => (net.state b).targets.lookup i)).map (net.registrant b)

/-- Where the ids lead from a broker. -/
def Net.follow : β → List String → Option (Registrant β ε)
  | b, [] => some (.broker b)
  | b, id :: ids =>
    match net.resolve b id with
    | some (.broker b')  => Net.follow b' ids
    | some (.endpoint e) => if ids = [] then some (.endpoint e) else none
    | none               => none

/-- The registrants the ids pass, each with the broker that knows it. -/
def Net.path : β → List String → List (β × Registrant β ε)
  | _, [] => []
  | b, id :: ids =>
    match net.resolve b id with
    | some (.broker b')  => (b, .broker b') :: Net.path b' ids
    | some (.endpoint e) => [(b, .endpoint e)]
    | none               => []

/-- Every registrant the ids pass before the last is a broker. -/
def Net.ViaBrokers : β → List String → Prop
  | b, id :: id' :: ids => ∀ reg, net.resolve b id = some reg → ∃ b', reg = .broker b' ∧ Net.ViaBrokers b' (id' :: ids)
  | _, [_] | _, []      => True

/-! ## A request on its way -/

/-- An ad a broker has sent to one of its registrants. -/
structure Contact (β ε : Type) where
  broker : β
  reg    : Registrant β ε
  ad     : ForwardAd
  deriving DecidableEq, Repr

def Contact.hop (k : Contact β ε) : β × Registrant β ε := (k.broker, k.reg)

/-- Where a request is: in a broker's `proxyRelay` or `handleStandardRequest`, with the registrant that serves its pipe,
or given up. -/
inductive Stage (β ε : Type) where
  | relay (b : β) (r : Broker.Relay)
  | standard (b : β) (target : Nat)
  | reached (reg : Registrant β ε)
  | closed
  deriving DecidableEq, Repr

/-- Where the requester's pipe goes: from hop to hop to the connection each registrant made for its ad, nowhere yet
(some hop has spliced nothing), or to somebody else's connection. -/
inductive Line where
  | through
  | cut
  | astray
  deriving DecidableEq, Repr

/-- A request with the ads sent for it, the calls of `startInboundRelay` made for it, and the requester's pipe. -/
structure Chain (β ε : Type) where
  stage    : Stage β ε
  contacts : List (Contact β ε)
  hops     : Nat
  line     : Line
  deriving DecidableEq, Repr

/-- `handleRequest` at the entry. -/
def enter (x : Broker.Ext) (b : β) (r : RequestInput) : Chain β ε :=
  match Broker.handleRequest x (net.cfg b) (net.state b) r with
  | .refuse _   => ⟨.closed, [], 0, .through⟩
  | .standard t => ⟨.standard b t, [], 0, .through⟩
  | .proxy t rc => ⟨.relay b (Broker.newRelay true t r.claimID r.name rc), [], 0, .through⟩

/-! ## A hop -/

/-- What becomes of one `proxyRelay`: the steps its broker takes from the call on, those of its other goroutines among
them; which of the hellos since is the connection the registrant asked makes for the ad, if it makes one; and what
`GenerateConnectID` returns where that connection is served. -/
structure Hop where
  labels    : List Broker.Label
  answer    : Option Nat
  connectID : Option String
  deriving DecidableEq, Repr

/-- The broker at the call: `handleRequest` or `startInboundRelay` has added it to the broker's calls. -/
def Net.called (b : β) (r : Broker.Relay) : Broker.State :=
  { net.state b with relays := (net.state b).relays ++ [r] }

/-- The number of the call. -/
def Net.slot (b : β) : Nat := (net.state b).relays.length

/-- The broker after the hop. -/
def Net.after (x : Broker.Ext) (b : β) (r : Broker.Relay) (e : Hop) : Option Broker.State :=
  run (Broker.step x (net.cfg b)) (net.called b r) e.labels

section
variable (b : β) (r : Broker.Relay) (e : Hop) (t : Broker.State)

/-- The ad of the call. -/
def Net.adOf : ForwardAd := Broker.Relay.forwardAd (net.cfg b) (t.relays[net.slot b]?.getD r)

/-- The ad is on the wire to the call's target. -/
def Net.Asked : Prop := (r.target, net.adOf b r t) ∈ t.wire.drop (net.state b).wire.length

/-- Hello `c` is the connection made for the ad: it has come since the call, and presents the connect id. -/
def Net.Answer (c : Nat) : Prop :=
  (net.state b).hellos.length ≤ c ∧ e.answer = some (c - (net.state b).hellos.length) ∧
    (t.hellos[c]?).map Broker.Hello.claimID = some r.connectID

def Net.Answered : Prop := ∃ c ∈ List.range t.hellos.length, net.Answer b r e t c

/-- The call has spliced the requester's pipe. -/
def Net.Spliced : Prop := ∃ p ∈ t.splices, p.1 = net.slot b

/-- It has spliced it to a connection other than the one made for the ad. -/
def Net.Misled : Prop := ∃ p ∈ t.splices, p.1 = net.slot b ∧ ¬ net.Answer b r e t p.2

/-- The call found hello `c` undecided, or it has come since. -/
def Net.Open (c : Nat) : Prop := ∀ h ∈ (net.state b).hellos[c]?, h.pc.undecided = true

/-- Whoever presents the call's connect id to it, does so for the ad. -/
def Net.Unshared : Prop :=
  ∀ c ∈ List.range t.hellos.length, net.Open b c → (t.hellos[c]?).map Broker.Hello.claimID = some r.connectID →
    net.Answer b r e t c

instance : Decidable (net.Asked b r t) := inferInstanceAs (Decidable (_ ∈ _))

instance (c : Nat) : Decidable (net.Answer b r e t c) := inferInstanceAs (Decidable (_ ∧ _ ∧ _))

instance : Decidable (net.Answered b r e t) :=
  inferInstanceAs (Decidable (∃ c ∈ List.range t.hellos.length, net.Answer b r e t c))

instance : Decidable (net.Spliced b t) := inferInstanceAs (Decidable (∃ p ∈ t.splices, p.1 = net.slot b))

instance : Decidable (net.Misled b r e t) :=
  inferInstanceAs (Decidable (∃ p ∈ t.splices, p.1 = net.slot b ∧ ¬ net.Answer b r e t p.2))

instance (c : Nat) : Decidable (net.Open b c) :=
  inferInstanceAs (Decidable (∀ h ∈ (net.state b).hellos[c]?, h.pc.undecided = true))

instance : Decidable (net.Unshared b r e t) :=
  inferInstanceAs (Decidable (∀ c ∈ List.range t.hellos.length, net.Open b c →
    (t.hellos[c]?).map Broker.Hello.claimID = some r.connectID → net.Answer b r e t c))

/-- The requester's pipe after the hop. -/
def Net.lineOn (l : Line) : Line :=
  if l ≠ .through then l
  else if net.Misled b r e t then .astray
  else if net.Spliced b t then .through
  else .cut

/-- The ad goes to the call's target. -/
def contact : Contact β ε := ⟨b, net.registrant b r.target, net.adOf b r t⟩

/-- The request after the hop, but for its stage. -/
def Chain.hopped (c : Chain β ε) : Chain β ε :=
  { c with
    contacts := if net.Asked b r t then c.contacts ++ [contact net b r t] else c.contacts
    line     := net.lineOn b r e t c.line }

end

/-- The registrant serves the connection it has made: an endpoint itself, a downstream broker by `startUpstream`'s
`Handler`. -/
def serveInbound (c : Chain β ε) (reg : Registrant β ε) (ad : ForwardAd) (connectID : Option String) : Chain β ε :=
  match reg with
  | .endpoint _ => { c with stage := .reached reg }
  | .broker b   =>
    if ad.route ≠ "" then
      match Broker.startInboundRelay (net.cfg b) (net.state b) ad.route ad.originalRequester connectID with
      | some r => { c with stage := .relay b r, hops := c.hops + 1 }
      | none   => { c with stage := .closed, hops := c.hops + 1 }
    else { c with stage := .reached reg }

/-- One `proxyRelay`.  A registrant that has been asked and connects serves its connection, whatever the broker does
with it. -/
def Chain.step (x : Broker.Ext) (c : Chain β ε) (e : Hop) : Option (Chain β ε) :=
  match c.stage with
  | .relay b r =>
    (net.after x b r e).map (fun t =>
      if net.Asked b r t ∧ net.Answered b r e t then
        serveInbound net (c.hopped net b r e t) (net.registrant b r.target) (net.adOf b r t) e.connectID
      else { c.hopped net b r e t with stage := .closed })
  | .standard _ _ | .reached _ | .closed => none

/-- What a hop is to satisfy, of the broker after it. -/
def Chain.AtHop (x : Broker.Ext) (P : β → Broker.Relay → Hop → Broker.State → Prop) (c : Chain β ε) (e : Hop) : Prop :=
  match c.stage with
  | .relay b r => ∀ t ∈ net.after x b r e, P b r e t
  | .standard _ _ | .reached _ | .closed => True

instance (x : Broker.Ext) (P : β → Broker.Relay → Hop → Broker.State → Prop) [∀ b r e t, Decidable (P b r e t)]
    (c : Chain β ε) (e : Hop) : Decidable (c.AtHop net x P e) := by
  unfold Chain.AtHop
  split <;> infer_instance

/-- The hop goes well: the registrant is asked and connects, the pipe is spliced, and there is a connect id for the next
hop. -/
def Serves (x : Broker.Ext) : Chain β ε → Hop → Prop :=
  Chain.AtHop net x (fun b r e t => net.Asked b r t ∧ net.Answered b r e t ∧ net.Spliced b t ∧ e.connectID ≠ none)

/-- **Nobody but the registrant asked presents the hop's connect id** to its call. -/
def Exclusive (x : Broker.Ext) : Chain β ε → Hop → Prop := Chain.AtHop net x net.Unshared

instance (x : Broker.Ext) (c : Chain β ε) (e : Hop) : Decidable (Serves net x c e) :=
  inferInstanceAs (Decidable (c.AtHop net x
    (fun b r e t => net.Asked b r t ∧ net.Answered b r e t ∧ net.Spliced b t ∧ e.connectID ≠ none) e))

instance (x : Broker.Ext) (c : Chain β ε) (e : Hop) : Decidable (Exclusive net x c e) :=
  inferInstanceAs (Decidable (c.AtHop net x net.Unshared e))

/-- No session has the connect id, and no hello is about to look for one with it. -/
def Chain.Fresh (c : Chain β ε) : Prop :=
  match c.stage with
  | .relay b r =>
    (net.state b).proxies.lookup r.connectID = none ∧
      ∀ h ∈ (net.state b).hellos, h.pc.undecided = true → h.claimID ≠ r.connectID
  | .standard _ _ | .reached _ | .closed => True

/-! ## A hop that goes well -/

/-- Call `k` starts and forwards its ad, hello `c` comes in with the connect id and is handed over, and the call splices
it. -/
def hopLabels (k c : Nat) (connectID : String) (clientFacing : Bool) : List Broker.Label :=
  [.proxy (.start k), .proxy (.forward k true), .proxy (.hello connectID), .proxy (.lookup c), .proxy (.send c),
    .proxy (.receive k)] ++ if clientFacing then [.proxy (.replied k true)] else []

/-- The hop at broker `b` that goes so. -/
def Net.wellHop (b : β) (r : Broker.Relay) : Hop :=
  ⟨hopLabels (net.slot b) (net.state b).hellos.length r.connectID r.clientFacing, some 0, some ""⟩

theorem modify_concat {α : Type} (f : α → α) (a : α) : ∀ l : List α, (l ++ [a]).modify l.length f = l ++ [f a]
  | []     => rfl
  | b :: l => by
    rw [List.cons_append, List.length_cons, List.modify_succ_cons, modify_concat f a l]
    rfl

/-- **The broker takes these steps**: they put the call's ad on the wire to its target and splice the connection that
comes back. -/
theorem run_hopLabels (x : Broker.Ext) (cfg : Broker.Config) (s : Broker.State) (k : Nat) (r : Broker.Relay)
    (hk : s.relays[k]? = some r) (hpc : r.pc = .start) (hch : r.targetCh = none)
    (hfree : s.proxies.lookup r.connectID = none) :
    ∃ t r' h, run (Broker.step x cfg) s (hopLabels k s.hellos.length r.connectID r.clientFacing) = some t ∧
      t.relays[k]? = some r' ∧ t.wire = s.wire ++ [(r.target, r'.forwardAd cfg)] ∧
      t.splices = s.splices ++ [(k, s.hellos.length)] ∧ t.hellos = s.hellos ++ [h] ∧ h.claimID = r.connectID := by
  cases hcf : r.clientFacing <;>
    simp [hopLabels, run, Broker.step, Broker.stepProxy, hk, hpc, hch, hfree, hcf, Broker.startRelay, Broker.setRelay,
      Broker.setHello, Broker.beginSplice, Broker.Relay.forwardAd, modify_concat]

/-- The entry broker takes the request up. -/
def Admitted (b : β) (r : RequestInput) : Prop :=
  Broker.authorize (net.cfg b) Broker.requestPerms r.remoteAddr r.user = true ∧ r.claimID ≠ "" ∧ r.myAddress ≠ ""

instance (b : β) (r : RequestInput) : Decidable (Admitted net b r) := inferInstanceAs (Decidable (_ ∧ _))

/-- The request asks for a proxied connection. -/
def Proxied (x : Broker.Ext) (r : RequestInput) : Prop :=
  r.streamingRequired = true ∨ x.sinfulIsCCB r.myAddress = true ∨ r.route ≠ ""

/-- The ids of a request: its CCBID and the words of its CCBRoute. -/
def ids (r : RequestInput) : List String := trimSpace r.ccbid :: fields r.route

/-! ## What the hops keep -/

section
variable {net}

variable (net) in
/-- A broker's relay is at the head of what is left of the request's ids. -/
structure AtHead (b₀ : β) (r₀ : RequestInput) (c : Chain β ε) (b : β) (q : Broker.Relay) (id : String)
    (rest : List String) : Prop where
  path     : c.contacts.map Contact.hop ++ net.path b (id :: rest) = net.path b₀ (ids r₀)
  follow   : net.follow b (id :: rest) = net.follow b₀ (ids r₀)
  target   : net.resolve b id = some (net.registrant b q.target)
  via      : net.ViaBrokers b (id :: rest)
  words    : ∀ w ∈ rest, Word w
  route    : fields q.rc.route = rest
  empty    : q.rc.route = "" ↔ rest = []
  identity : q.rc.originalRequester = requesterIdentity r₀
  prior    : q.rc.priorHop = proxyAddrSinful (net.cfg b)
  hops     : c.hops + rest.length ≤ (fields r₀.route).length
  start    : q.pc = .start ∧ q.targetCh = none

variable (net) in
/-- What holds of a request on its way; `good` says that the entry took it up and every hop went well, `excl` that
nobody but the registrants asked presented a connect id. -/
structure OnRoute (b₀ : β) (r₀ : RequestInput) (good excl : Prop) (c : Chain β ε) : Prop where
  contacts : c.contacts.map Contact.hop <+: net.path b₀ (ids r₀)
  audit    : ∀ k ∈ c.contacts, k.ad.originalRequester = requesterIdentity r₀ ∧
    k.ad.priorHop = proxyAddrSinful (net.cfg k.broker)
  hops     : c.hops ≤ (fields r₀.route).length
  relay    : ∀ b q, c.stage = .relay b q → ∃ id rest, AtHead net b₀ r₀ c b q id rest
  reached  : ∀ reg, c.stage = .reached reg → net.follow b₀ (ids r₀) = some reg
  proxied  : ∀ b t, c.stage ≠ .standard b t
  closed   : good → c.stage = .closed → net.follow b₀ (ids r₀) = none
  straight : excl → c.line ≠ .astray
  through  : good → excl → c.line = .through

variable {x : Broker.Ext} {b₀ b : β} {r₀ : RequestInput} {good excl : Prop} {c : Chain β ε} {q : Broker.Relay}
    {id : String}
  {rest : List String} {e : Hop} {t : Broker.State}

theorem Net.follow_cons (net : Net β ε) (b : β) (id : String) (rest : List String) : net.follow b (id :: rest) =
    match net.resolve b id with
    | some (.broker b')  => net.follow b' rest
    | some (.endpoint e) => if rest = [] then some (.endpoint e) else none
    | none               => none := rfl

theorem Net.path_cons (net : Net β ε) (b : β) (id : String) (rest : List String) : net.path b (id :: rest) =
    match net.resolve b id with
    | some (.broker b')  => (b, .broker b') :: net.path b' rest
    | some (.endpoint e) => [(b, .endpoint e)]
    | none               => [] := rfl

theorem follow_of_resolve_none (h : net.resolve b id = none) : net.follow b (id :: rest) = none := by
  rw [Net.follow_cons, h]

theorem Net.ViaBrokers.next {b' : β} (h : net.ViaBrokers b (id :: rest)) (hr : net.resolve b id = some (.broker b')) :
    net.ViaBrokers b' rest := by
  cases rest with
  | nil => trivial
  | cons id' rest =>
    obtain ⟨b'', he, hv⟩ := h _ hr
    cases he
    exact hv

/-- Words are the ids as they are. -/
theorem resolve_word {w : String} (h : Word w) :
    ((Broker.parseTargetID w).bind (fun i => (net.state b).targets.lookup i)).map
    (net.registrant b) = net.resolve b w := by
  rw [Broker.parseTargetID, trimSpace_word h, Net.resolve]

/-- **`startInboundRelay` takes the head of the route**: it starts a relay to the registrant the head names, or there is
none (or no connect id). -/
theorem startInboundRelay_head (cfg : Broker.Config) (s : Broker.State) {route : String} (identity : String)
    (cid : Option String) {w : String} {ws : List String} (hf : fields route = w :: ws) :
    (∀ q, Broker.startInboundRelay cfg s route identity cid = some q →
      (Broker.parseTargetID w).bind (fun i => s.targets.lookup i) = some q.target ∧
        q.rc = ⟨joinSpace ws, identity, proxyAddrSinful cfg⟩) ∧
    (Broker.startInboundRelay cfg s route identity cid = none → cid ≠ none →
      (Broker.parseTargetID w).bind (fun i => s.targets.lookup i) = none) := by
  have hw : w ≠ "" := by
    rintro rfl
    exact (word_of_mem_fields (s := route) (by rw [hf]; exact List.mem_cons_self)).1 rfl
  simp only [Broker.startInboundRelay, Broker.splitRoute, hf, if_neg hw]
  cases Broker.parseTargetID w with
  | none => simp
  | some i =>
    cases hl : s.targets.lookup i with
    | none => simp [hl]
    | some t =>
      cases cid with
      | none => simp [hl]
      | some cid =>
        simp only [Option.bind_some, hl, Option.some.injEq]
        refine ⟨fun q hq => ?_, fun hq => (by cases hq)⟩
        subst hq
        exact ⟨rfl, rfl⟩

/-- A step of a request in `proxyRelay`. -/
theorem step_relay {c' : Chain β ε} (hst : c.stage = .relay b q) (hs : c.step net x e = some c') :
    ∃ t, net.after x b q e = some t ∧
      (c' = serveInbound net (c.hopped net b q e t) (net.registrant b q.target) (net.adOf b q t) e.connectID ∧
          net.Asked b q t ∨
        c' = { c.hopped net b q e t with stage := .closed } ∧ ¬ (net.Asked b q t ∧ net.Answered b q e t)) := by
  simp only [Chain.step, hst, Option.map_eq_some_iff] at hs
  obtain ⟨t, ht, hs⟩ := hs
  refine ⟨t, ht, ?_⟩
  split at hs
  · rename_i h
    exact Or.inl ⟨hs.symm, h.1⟩
  · rename_i h
    exact Or.inr ⟨hs.symm, h⟩

theorem Chain.AtHop.at {P : β → Broker.Relay → Hop → Broker.State → Prop} (h : c.AtHop net x P e)
    (hst : c.stage = .relay b q) (ht : net.after x b q e = some t) : P b q e t := by
  simp only [Chain.AtHop, hst] at h
  exact h t ht

theorem relays_called (b : β) (q : Broker.Relay) : (net.called b q).relays[net.slot b]? = some q := by
  simp [Net.called, Net.slot]

/-- **The call is as it was made**, whatever else the broker has done. -/
theorem after_call (ht : net.after x b q e = some t) : ∃ q', t.relays[net.slot b]? = some q' ∧ q'.call = q.call :=
  Broker.run_call ht (relays_called b q)

/-- The ad of the call carries what the call was made with. -/
theorem adOf_rc (ht : net.after x b q e = some t) : (net.adOf b q t).route = q.rc.route ∧
    (net.adOf b q t).originalRequester = q.rc.originalRequester ∧ (net.adOf b q t).priorHop = q.rc.priorHop := by
  obtain ⟨q', hq', hcall⟩ := after_call ht
  simp only [Broker.Relay.call, Prod.mk.injEq] at hcall
  simp [Net.adOf, hq', Broker.Relay.forwardAd, hcall.2.2.2.2]

/-- **The pipe is spliced to a hello with the call's connect id**: if they all are the registrant's, so is this one. -/
theorem not_misled (hq : q.pc = .start ∧ q.targetCh = none) (ht : net.after x b q e = some t)
    (hu : net.Unshared b q e t) : ¬ net.Misled b q e t := by
  have hcalled : Broker.ProxyInv (net.called b q) := (net.sound b).newRelay hq.1 hq.2 rfl rfl rfl rfl rfl rfl
  have hinv : Broker.ProxyInv t := Machine.inv_of_step (fun _ _ _ hi hs => hi.step hs) e.labels _ t hcalled ht
  rintro ⟨⟨k, n⟩, hmem, hk, hno⟩
  obtain rfl : k = net.slot b := hk
  obtain ⟨hhanded, q', h, hq', hh, hid⟩ := hinv.spliceOwn hmem
  obtain ⟨q'', hq'', hcall⟩ := after_call ht
  rw [hq''] at hq'
  cases hq'
  simp only [Broker.Relay.call, Prod.mk.injEq] at hcall
  refine hno (hu n (List.mem_range.2 (List.getElem?_eq_some_iff.1 hh).1) (fun g hg => ?_) ?_)
  · -- A hello that was decided when the call was made is handed to a call that was there before.
    cases hdec : g.pc.undecided with
    | true => rfl
    | false =>
      have hold : (n, net.slot b) ∈ (net.state b).handed := Broker.run_decided ht hg hdec _ hhanded
      obtain ⟨_, -, q₀, hq₀, -⟩ := (net.sound b).handed _ _ hold
      simp [Net.slot] at hq₀
  · rw [hh, Option.map_some, hid, hcall.2.2.1]

theorem lineOn_straight {l : Line} (h : ¬ net.Misled b q e t) (hl : l ≠ .astray) : net.lineOn b q e t l ≠ .astray := by
  unfold Net.lineOn
  rw [if_neg h]
  split
  · exact hl
  · split <;> exact fun he => by cases he

theorem lineOn_through (h : ¬ net.Misled b q e t) (hs : net.Spliced b t) :
    net.lineOn b q e t .through = .through := by
  unfold Net.lineOn
  rw [if_neg (fun hne => hne rfl), if_neg h, if_pos hs]

/-- The pipe after a hop of a request that is at the head of its ids. -/
theorem AtHead.line_hopped (ha : AtHead net b₀ r₀ c b q id rest) (h : OnRoute net b₀ r₀ good excl c)
    (hst : c.stage = .relay b q) (ht : net.after x b q e = some t) (hg : good → Serves net x c e)
    (hx : excl → Exclusive net x c e) :
    (excl → (c.hopped net b q e t).line ≠ .astray) ∧ (good → excl → (c.hopped net b q e t).line = .through) := by
  have hmis : excl → ¬ net.Misled b q e t := fun hexcl => not_misled ha.start ht ((hx hexcl).at hst ht)
  refine ⟨fun hexcl => lineOn_straight (hmis hexcl) (h.straight hexcl), fun hgood hexcl => ?_⟩
  show net.lineOn b q e t c.line = .through
  rw [h.through hgood hexcl]
  exact lineOn_through (hmis hexcl) ((hg hgood).at hst ht).2.2.1

theorem AtHead.contacts_hopped (h : AtHead net b₀ r₀ c b q id rest) (e : Hop) (t : Broker.State) :
    (c.hopped net b q e t).contacts.map Contact.hop <+: net.path b₀ (ids r₀) := by
  have hprefix : (c.contacts ++ [contact net b q t]).map Contact.hop <+: net.path b₀ (ids r₀) := by
    rw [← h.path, List.map_append, List.prefix_append_right_inj, Net.path_cons, h.target]
    cases hreg : net.registrant b q.target <;> simp [contact, Contact.hop, hreg]
  unfold Chain.hopped
  dsimp only
  split
  · exact hprefix
  · rw [← h.path]
    exact List.prefix_append _ _

theorem AtHead.audit_hopped (h : AtHead net b₀ r₀ c b q id rest) (ht : net.after x b q e = some t)
    (hc : ∀ k ∈ c.contacts,
      k.ad.originalRequester = requesterIdentity r₀ ∧ k.ad.priorHop = proxyAddrSinful (net.cfg k.broker)) :
    ∀ k ∈ (c.hopped net b q e t).contacts,
      k.ad.originalRequester = requesterIdentity r₀ ∧ k.ad.priorHop = proxyAddrSinful (net.cfg k.broker) := by
  intro k hk
  unfold Chain.hopped at hk
  dsimp only at hk
  split at hk
  · rcases List.mem_append.1 hk with hk | hk
    · exact hc k hk
    · obtain ⟨-, horig, hprior⟩ := adOf_rc ht
      rw [List.mem_singleton.1 hk]
      exact ⟨horig.trans h.identity, hprior.trans h.prior⟩
  · exact hc k hk

theorem AtHead.follow_next {id' : String} {rest' : List String} {b' : β} (ha : AtHead net b₀ r₀ c b q id (id' :: rest'))
    (hreg : net.registrant b q.target = .broker b') : net.follow b' (id' :: rest') = net.follow b₀ (ids r₀) := by
  rw [← ha.follow, Net.follow_cons net b id, ha.target, hreg]

theorem AtHead.hops_next {id' : String} {rest' : List String} (ha : AtHead net b₀ r₀ c b q id (id' :: rest')) :
    c.hops + 1 + rest'.length ≤ (fields r₀.route).length := by
  have := ha.hops
  rw [List.length_cons] at this
  omega

/-- **The registrant asked is a broker, whose relay is at the head of the rest.** -/
theorem AtHead.next {id' : String} {rest' : List String} {b' : β} {q' : Broker.Relay}
    (ha : AtHead net b₀ r₀ c b q id (id' :: rest')) (ht : net.after x b q e = some t) (hasked : net.Asked b q t)
    (hreg : net.registrant b q.target = .broker b')
    (htarget : (Broker.parseTargetID id').bind (fun i => (net.state b').targets.lookup i) = some q'.target)
    (hrc : q'.rc = ⟨joinSpace rest', (net.adOf b q t).originalRequester, proxyAddrSinful (net.cfg b')⟩)
    (hstart : q'.pc = .start ∧ q'.targetCh = none) :
    AtHead net b₀ r₀ { c.hopped net b q e t with stage := .relay b' q', hops := c.hops + 1 } b' q' id' rest' := by
  have hres := ha.target
  rw [hreg] at hres
  have hwords : ∀ w ∈ rest', Word w := fun w hw => ha.words w (List.mem_cons_of_mem _ hw)
  exact {
    path := by
      rw [← ha.path, Net.path_cons net b id, hres]
      simp [Chain.hopped, hasked, contact, Contact.hop, hreg]
    follow := ha.follow_next hreg
    target := by
      rw [← resolve_word (ha.words id' List.mem_cons_self), htarget]
      rfl
    via := ha.via.next hres
    words := hwords
    route := by rw [hrc]; exact fields_joinSpace rest' hwords
    empty := by rw [hrc]; exact joinSpace_eq_empty_iff rest' hwords
    identity := by rw [hrc]; exact (adOf_rc ht).2.1.trans ha.identity
    prior := by rw [hrc]
    hops := ha.hops_next
    start := hstart }

section
variable (h : OnRoute net b₀ r₀ good excl c) (hst : c.stage = .relay b q) (ht : net.after x b q e = some t)
  (hg : good → Serves net x c e) (hx : excl → Exclusive net x c e)
include h hst ht hg hx

/-- The pipe has come to the last registrant. -/
theorem OnRoute.arrive (ha : AtHead net b₀ r₀ c b q id rest) {reg : Registrant β ε}
    (hf : net.follow b₀ (ids r₀) = some reg) :
    OnRoute net b₀ r₀ good excl { c.hopped net b q e t with stage := .reached reg } where
  contacts := ha.contacts_hopped e t
  audit    := ha.audit_hopped ht h.audit
  hops     := h.hops
  relay _ _ he := by cases he
  reached reg' he := by
    cases he
    exact hf
  proxied _ _ he := by cases he
  closed _ he := by cases he
  straight := (ha.line_hopped h hst ht hg hx).1
  through  := (ha.line_hopped h hst ht hg hx).2

/-- **A downstream broker that is asked with a route left goes on with its head.** -/
theorem OnRoute.recurse {id' : String} {rest' : List String} {b' : β} (ha : AtHead net b₀ r₀ c b q id (id' :: rest'))
    (hasked : net.Asked b q t) (hreg : net.registrant b q.target = .broker b') :
    OnRoute net b₀ r₀ good excl
      (serveInbound net (c.hopped net b q e t) (.broker b') (net.adOf b q t) e.connectID) := by
  obtain ⟨hroute, -, -⟩ := adOf_rc ht
  have hne : (net.adOf b q t).route ≠ "" := fun he => by cases ha.empty.1 (hroute.symm.trans he)
  have hhops : c.hops + 1 ≤ (fields r₀.route).length := Nat.le_of_add_right_le ha.hops_next
  obtain ⟨hstraight, hthrough⟩ := ha.line_hopped h hst ht hg hx
  obtain ⟨hsome, hnone⟩ := startInboundRelay_head (net.cfg b') (net.state b') (net.adOf b q t).originalRequester
    e.connectID (show fields (net.adOf b q t).route = id' :: rest' by rw [hroute]; exact ha.route)
  simp only [serveInbound, if_pos hne]
  split
  · rename_i q' hq
    obtain ⟨htarget, hrc⟩ := hsome q' hq
    refine ⟨ha.contacts_hopped e t, ha.audit_hopped ht h.audit, hhops, ?_, fun _ he => (by cases he),
      fun _ _ he => (by cases he), fun _ he => (by cases he), hstraight, hthrough⟩
    intro _ _ he
    cases he
    exact ⟨id', rest', ha.next ht hasked hreg htarget hrc (Broker.startInboundRelay_start hq)⟩
  · rename_i hq
    refine ⟨ha.contacts_hopped e t, ha.audit_hopped ht h.audit, hhops, fun _ _ he => (by cases he),
      fun _ he => (by cases he), fun _ _ he => (by cases he), fun hgood _ => ?_, hstraight, hthrough⟩
    rw [← ha.follow_next hreg]
    apply follow_of_resolve_none
    rw [← resolve_word (ha.words id' List.mem_cons_self), hnone hq ((hg hgood).at hst ht).2.2.2]
    rfl

/-- The registrant at the head is the last, or the broker the next id is for. -/
theorem OnRoute.serve (ha : AtHead net b₀ r₀ c b q id rest) (hasked : net.Asked b q t) :
    OnRoute net b₀ r₀ good excl
      (serveInbound net (c.hopped net b q e t) (net.registrant b q.target) (net.adOf b q t) e.connectID) := by
  have hres := ha.target
  have hfollow := ha.follow
  rw [Net.follow_cons, hres] at hfollow
  cases hreg : net.registrant b q.target with
  | endpoint p =>
    rw [hreg] at hres hfollow
    -- Only the last registrant may be an endpoint.
    have hlast : rest = [] := by
      cases rest with
      | nil => rfl
      | cons id' rest' =>
        obtain ⟨b', he, -⟩ := ha.via _ hres
        cases he
    exact h.arrive hst ht hg hx ha (by simpa [hlast] using hfollow.symm)
  | broker b' =>
    rw [hreg] at hfollow
    cases rest with
    | nil =>
      have hempty : ¬ (net.adOf b q t).route ≠ "" := fun hne => hne ((adOf_rc ht).1.trans (ha.empty.2 rfl))
      simp only [serveInbound, if_neg hempty]
      exact h.arrive hst ht hg hx ha hfollow.symm
    | cons id' rest' => exact h.recurse hst ht hg hx ha hasked hreg

end

theorem OnRoute.step {c' : Chain β ε} (h : OnRoute net b₀ r₀ good excl c) (hg : good → Serves net x c e)
    (hx : excl → Exclusive net x c e) (hs : c.step net x e = some c') : OnRoute net b₀ r₀ good excl c' := by
  cases hst : c.stage with
  | relay b q =>
    obtain ⟨id, rest, ha⟩ := h.relay b q hst
    obtain ⟨t, ht, ⟨rfl, hasked⟩ | ⟨rfl, hno⟩⟩ := step_relay hst hs
    · exact h.serve hst ht hg hx ha hasked
    · obtain ⟨hstraight, hthrough⟩ := ha.line_hopped h hst ht hg hx
      have hbad : ¬ good := fun hgood => hno ⟨((hg hgood).at hst ht).1, ((hg hgood).at hst ht).2.1⟩
      exact ⟨ha.contacts_hopped e t, ha.audit_hopped ht h.audit, h.hops, fun _ _ he => (by cases he),
        fun _ he => (by cases he), fun _ _ he => (by cases he), fun hgood => absurd hgood hbad, hstraight, hthrough⟩
  | standard b t => exact absurd hst (h.proxied b t)
  | reached reg => simp [Chain.step, hst] at hs
  | closed => simp [Chain.step, hst] at hs

/-- **A request stays on its route**, hop after hop. -/
theorem OnRoute.run : ∀ (es : List Hop) {c c' : Chain β ε}, OnRoute net b₀ r₀ good excl c →
    (good → Meets (Chain.step net x) (Serves net x) c es) → (excl → Meets (Chain.step net x) (Exclusive net x) c es) →
    Machine.run (Chain.step net x) c es = some c' → OnRoute net b₀ r₀ good excl c'
  | [], c, c', h, _, _, hr => by
    cases hr
    exact h
  | e :: es, c, c', h, hg, hx, hr => by
    obtain ⟨d, hd, hr⟩ := Machine.run_cons hr
    exact (h.step (fun hgood => (hg hgood d hd).1) (fun hexcl => (hx hexcl d hd).1) hd).run es
      (fun hgood => (hg hgood d hd).2) (fun hexcl => (hx hexcl d hd).2) hr

/-- **What `handleRequest` decides.** -/
theorem handleRequest_cases (x : Broker.Ext) (cfg : Broker.Config) (s : Broker.State) (r : RequestInput) :
    (∃ msg, Broker.handleRequest x cfg s r = .refuse msg ∧
        (Broker.authorize cfg Broker.requestPerms r.remoteAddr r.user = true → r.claimID ≠ "" → r.myAddress ≠ "" →
          (Broker.parseTargetID r.ccbid).bind (fun i => s.targets.lookup i) = none)) ∨
      ∃ t, (Broker.parseTargetID r.ccbid).bind (fun i => s.targets.lookup i) = some t ∧
        (Broker.handleRequest x cfg s r = .standard t ∧ ¬ Proxied x r ∨
          Broker.handleRequest x cfg s r = .proxy t ⟨r.route, requesterIdentity r, proxyAddrSinful cfg⟩) := by
  unfold Broker.handleRequest
  by_cases hauth : Broker.authorize cfg Broker.requestPerms r.remoteAddr r.user = false
  · exact Or.inl ⟨_, if_pos hauth, fun h => by rw [hauth] at h; cases h⟩
  by_cases hmiss : r.claimID = "" ∨ r.myAddress = ""
  · exact Or.inl ⟨_, by rw [if_neg hauth, if_pos hmiss], fun _ h1 h2 => absurd hmiss (by simp [h1, h2])⟩
  rw [if_neg hauth, if_neg hmiss]
  cases Broker.parseTargetID r.ccbid with
  | none => exact Or.inl ⟨_, rfl, fun _ _ _ => rfl⟩
  | some i =>
    rw [Option.bind_some]
    cases hl : s.targets.lookup i with
    | none => exact Or.inl ⟨"no target registered for ccbid " ++ formatUint i, by simp only [hl], fun _ _ _ => rfl⟩
    | some t =>
      refine Or.inr ⟨t, rfl, ?_⟩
      by_cases hm : Proxied x r
      · right
        simp only [hl]
        exact if_pos hm
      · left
        simp only [hl]
        exact ⟨if_neg hm, hm⟩

/-- The entry's relay is at the head of all the ids. -/
theorem AtHead.enter {t : Nat} (hvia : net.ViaBrokers b₀ (ids r₀)) (hroute : r₀.route = "" ∨ fields r₀.route ≠ [])
    (ht : net.resolve b₀ (trimSpace r₀.ccbid) = some (net.registrant b₀ t)) :
    AtHead net b₀ r₀ ⟨.relay b₀ q, [], 0, .through⟩ b₀
      (Broker.newRelay true t r₀.claimID r₀.name ⟨r₀.route, requesterIdentity r₀, proxyAddrSinful (net.cfg b₀)⟩)
      (trimSpace r₀.ccbid) (fields r₀.route) where
  path     := List.nil_append _
  follow   := by rw [ids]
  target   := ht
  via      := hvia
  words _  := word_of_mem_fields
  route    := rfl
  empty    := by
    constructor
    · intro he
      rw [show r₀.route = "" from he]
      decide
    · exact fun he => hroute.resolve_right (fun hne => hne he)
  identity := rfl
  prior    := rfl
  hops     := by rw [Nat.zero_add]
  start    := ⟨rfl, rfl⟩

theorem OnRoute.enter (hvia : net.ViaBrokers b₀ (ids r₀)) (hmode : Proxied x r₀)
    (hroute : r₀.route = "" ∨ fields r₀.route ≠ []) (hgood : good → Admitted net b₀ r₀) :
    OnRoute net b₀ r₀ good excl (enter net x b₀ r₀) := by
  have hentry : net.resolve b₀ (trimSpace r₀.ccbid) =
    ((Broker.parseTargetID r₀.ccbid).bind (fun i => (net.state b₀).targets.lookup i)).map (net.registrant b₀) := rfl
  rcases handleRequest_cases x (net.cfg b₀) (net.state b₀) r₀ with ⟨msg, hplan, hnone⟩ | ⟨t, ht, hplan⟩
  · rw [Route.enter, hplan]
    refine ⟨List.nil_prefix, fun _ h => (by cases h), Nat.zero_le _, fun _ _ he => (by cases he),
      fun _ he => (by cases he), fun _ _ he => (by cases he), fun hg _ => ?_, fun _ he => (by cases he), fun _ _ => rfl⟩
    obtain ⟨h1, h2, h3⟩ := hgood hg
    rw [hnone h1 h2 h3] at hentry
    exact follow_of_resolve_none hentry
  · rw [ht] at hentry
    rcases hplan with ⟨-, hstd⟩ | hplan
    · exact absurd hmode hstd
    · rw [Route.enter, hplan]
      refine ⟨List.nil_prefix, fun _ h => (by cases h), Nat.zero_le _, ?_, fun _ he => (by cases he),
        fun _ _ he => (by cases he), fun _ he => (by cases he), fun _ he => (by cases he), fun _ _ => rfl⟩
      intro b q he
      cases he
      exact ⟨_, _, AtHead.enter hvia hroute hentry⟩

theorem hops_serveInbound {reg : Registrant β ε} {ad : ForwardAd} {cid : Option String}
    (h : (serveInbound net c reg ad cid).stage = .relay b q) : (serveInbound net c reg ad cid).hops = c.hops + 1 := by
  cases reg with
  | endpoint e => cases h
  | broker b' =>
    by_cases hr : ad.route = ""
    · simp [serveInbound, hr] at h
    · cases hq : Broker.startInboundRelay (net.cfg b') (net.state b') ad.route ad.originalRequester cid with
      | none => simp [serveInbound, hr, hq] at h
      | some q' => simp [serveInbound, hr, hq]

/-- Only a request on its way has a step. -/
theorem relay_of_step {c' : Chain β ε} (h : c.step net x e = some c') : ∃ b q, c.stage = .relay b q := by
  cases hst : c.stage with
  | relay b q => exact ⟨b, q, rfl⟩
  | standard _ _ => simp [Chain.step, hst] at h
  | reached _ => simp [Chain.step, hst] at h
  | closed => simp [Chain.step, hst] at h

theorem hops_of_step {c' : Chain β ε} (h : c.step net x e = some c') (hst : c'.stage = .relay b q) :
    c'.hops = c.hops + 1 := by
  obtain ⟨b', q', hc⟩ := relay_of_step h
  obtain ⟨t, -, ⟨rfl, -⟩ | ⟨rfl, -⟩⟩ := step_relay hc h
  · exact hops_serveInbound hst
  · cases hst

/-- A request that is still on its way has been through as many hops as steps. -/
theorem hops_of_run : ∀ (es : List Hop) {c c' : Chain β ε} {b : β} {q : Broker.Relay},
    run (Chain.step net x) c es = some c' → c'.stage = .relay b q → c'.hops = c.hops + es.length
  | [], c, c', b, q, hr, _ => by
    cases hr
    rfl
  | e :: es, c, c', b, q, hr, hst => by
    obtain ⟨d, hd, hr⟩ := Machine.run_cons hr
    -- The request is on its way at `d` too: it has a further step, or it is the last state.
    have hmid : ∃ b' q', d.stage = .relay b' q' := by
      cases es with
      | nil =>
        cases hr
        exact ⟨b, q, hst⟩
      | cons e' es =>
        obtain ⟨d', hd', -⟩ := Machine.run_cons hr
        exact relay_of_step hd'
    obtain ⟨b', q', hds⟩ := hmid
    rw [hops_of_run es hr hst, hops_of_step hd hds, List.length_cons]
    omega

/-- **A hop can go well**: the broker has the steps for it, and the one hello with the connect id is the
registrant's. -/
theorem exists_hop (x : Broker.Ext) (hst : c.stage = .relay b q) (hq : q.pc = .start ∧ q.targetCh = none)
    (hfresh : c.Fresh net) :
    ∃ e, (c.step net x e).isSome = true ∧ Serves net x c e ∧ Exclusive net x c e := by
  simp only [Chain.Fresh, hst] at hfresh
  obtain ⟨t, q', h, hr, hq', hwire, hspl, hhel, hid⟩ := run_hopLabels x (net.cfg b) (net.called b q) (net.slot b) q
    (relays_called b q) hq.1 hq.2 hfresh.1
  have hlast : t.hellos[(net.state b).hellos.length]? = some h := by rw [hhel]; exact List.getElem?_concat_length
  have hafter : net.after x b q (net.wellHop b q) = some t := hr
  have hasked : net.Asked b q t := by
    unfold Net.Asked Net.adOf
    rw [hq', Option.getD_some, hwire]
    show _ ∈ ((net.state b).wire ++ _).drop (net.state b).wire.length
    rw [List.drop_left]
    exact List.mem_singleton.2 rfl
  have hanswer : net.Answer b q (net.wellHop b q) t (net.state b).hellos.length :=
    ⟨le_rfl, by rw [Nat.sub_self]; rfl, by rw [hlast, Option.map_some, hid]⟩
  have hspliced : net.Spliced b t := ⟨_, by rw [hspl]; exact List.mem_append_right _ (List.mem_singleton.2 rfl), rfl⟩
  have hunshared : net.Unshared b q (net.wellHop b q) t := by
    intro n _ hopen hclaim
    obtain ⟨h', hh', hc'⟩ := Option.map_eq_some_iff.1 hclaim
    rw [hhel] at hh'
    rcases getElem?_concat_some hh' with hh' | ⟨rfl, rfl⟩
    · exact absurd hc' (hfresh.2 h' (List.mem_of_getElem? hh') (hopen h' hh'))
    · exact hanswer
  have hat : ∀ {P : β → Broker.Relay → Hop → Broker.State → Prop}, P b q (net.wellHop b q) t →
      c.AtHop net x P (net.wellHop b q) := by
    intro P hP
    simp only [Chain.AtHop, hst]
    intro t' ht'
    rw [hafter] at ht'
    cases ht'
    exact hP
  refine ⟨net.wellHop b q, ?_, hat ⟨hasked, ⟨_, ?_, hanswer⟩, hspliced, Option.some_ne_none _⟩, hat hunshared⟩
  · simp only [Chain.step, hst, hafter]
    rfl
  · exact List.mem_range.2 (List.getElem?_eq_some_iff.1 hlast).1

end

/-- What `request_follows_route` says of a request after some hops. -/
structure Follows (x : Broker.Ext) (b : β) (r : RequestInput) (es : List Hop) (c : Chain β ε) (good excl : Prop) :
    Prop where
  /-- Whoever was contacted is on the path of the ids, in order. -/
  contacts : c.contacts.map Contact.hop <+: net.path b (ids r)
  /-- Every ad carries the identity the entry authenticated, and the address of the broker that sent it. -/
  audit    : ∀ k ∈ c.contacts, k.ad.originalRequester = requesterIdentity r ∧
    k.ad.priorHop = proxyAddrSinful (net.cfg k.broker)
  hops     : c.hops ≤ (fields r.route).length
  /-- The request is served by the registrant its ids lead to. -/
  reached  : ∀ reg, c.stage = .reached reg → net.follow b (ids r) = some reg
  /-- Where nobody else presents a hop's connect id, the requester is spliced to no other connection than the
  registrants made for it, and through to the last of them where every hop goes well. -/
  line     : excl → c.line ≠ .astray ∧ (good → c.line = .through)
  /-- Where all goes well it is given up only if its ids lead nowhere. -/
  closed   : c.stage = .closed → good → net.follow b (ids r) = none
  /-- Otherwise it goes on, and not for longer than it has ids: its next hop can go well. -/
  ends     : (∀ reg, c.stage ≠ .reached reg) → c.stage ≠ .closed → es.length < (ids r).length ∧
    (c.Fresh net → ∃ e, (c.step net x e).isSome = true ∧ Serves net x c e ∧ Exclusive net x c e)

/-- **A proxied request follows its route**, in every network of brokers, whatever becomes of its hops. -/
theorem request_follows_route (x : Broker.Ext) (net : Net β ε) (b : β) (r : RequestInput)
    (hvia : net.ViaBrokers b (ids r)) (hmode : Proxied x r) (hroute : r.route = "" ∨ fields r.route ≠ [])
    (es : List Hop) (c : Chain β ε) (hr : run (Chain.step net x) (enter net x b r) es = some c) :
    Follows net x b r es c (Admitted net b r ∧ Meets (Chain.step net x) (Serves net x) (enter net x b r) es)
      (Meets (Chain.step net x) (Exclusive net x) (enter net x b r) es) := by
  have h : OnRoute net b r (Admitted net b r ∧ Meets (Chain.step net x) (Serves net x) (enter net x b r) es)
      (Meets (Chain.step net x) (Exclusive net x) (enter net x b r) es) c :=
    (OnRoute.enter hvia hmode hroute (fun hg => hg.1)).run es (fun hg => hg.2) (fun hx => hx) hr
  refine ⟨h.contacts, h.audit, h.hops, h.reached, fun hx => ⟨h.straight hx, fun hg => h.through hg hx⟩,
    fun hc hg => h.closed hg hc, fun hnr hnc => ?_⟩
  cases hst : c.stage with
  | relay b' q =>
    obtain ⟨id, rest, ha⟩ := h.relay b' q hst
    have hlen := hops_of_run es hr hst
    have hzero : (enter net x b r).hops = 0 := by
      unfold enter
      split <;> rfl
    have hle := h.hops
    exact ⟨by rw [ids, List.length_cons]; omega, exists_hop x hst ha.start⟩
  | standard b' t => exact absurd hst (h.proxied b' t)
  | reached reg => exact absurd hst (hnr reg)
  | closed => exact absurd hst hnc

/-! ## A tree of three brokers -/

def plainExt : Broker.Ext where
  splitCCBContact _ := none
  peerIPString s := s
  sinfulIsCCB _ := false
  quote := String.quote

def treeState (b : Nat) : Broker.State :=
  if b = 0 then { Broker.State.init with targets := ((∅ : GoMap UInt64 Nat).insert 7 0).insert 8 1 }
  else { Broker.State.init with targets := (∅ : GoMap UInt64 Nat).insert 1 0 }

theorem treeState_sound (b : Nat) : Broker.ProxyInv (treeState b) := by
  unfold treeState
  split <;> exact Broker.ProxyInv.init.frame rfl rfl rfl rfl rfl rfl

/-- Broker 0 outside knows the brokers 1 and 2 as 7 and 8; each of these has one endpoint, which it knows as 1. -/
def treeNet : Net Nat String where
  cfg b := { publicAddress := "broker" ++ toString b ++ ":9618", authorizer := none, reconnectStore := false,
             reconnectAllowAnyIP := false, reconnectTTL := 0 }
  state := treeState
  sound := treeState_sound
  registrant b h := if b = 0 then .broker (h + 1) else .endpoint ("ep" ++ toString b)

def treeRequest (ccbid route : String) (streaming : Bool) : RequestInput :=
  ⟨"client:1", "alice@pool", ccbid, "c0ffee", "<client:4000>", "tool", streaming, route⟩

/-- The first call at a broker, with the first hello. -/
def goodHop (connectID : String) (clientFacing : Bool) : Hop :=
  ⟨hopLabels 0 0 connectID clientFacing, some 0, some "fresh"⟩

def treeHops : List Hop := [goodHop "c0ffee" true, goodHop "fresh" false]

theorem request_follows_route_tree :
    ∃ c, run (Chain.step treeNet plainExt) (enter treeNet plainExt 0 (treeRequest "8" "1" false)) treeHops = some c ∧
      Follows treeNet plainExt 0 (treeRequest "8" "1" false) treeHops c
        (Admitted treeNet 0 (treeRequest "8" "1" false) ∧ Meets (Chain.step treeNet plainExt) (Serves treeNet plainExt)
          (enter treeNet plainExt 0 (treeRequest "8" "1" false)) treeHops)
        (Meets (Chain.step treeNet plainExt) (Exclusive treeNet plainExt)
          (enter treeNet plainExt 0 (treeRequest "8" "1" false)) treeHops) ∧
      Admitted treeNet 0 (treeRequest "8" "1" false) ∧
      Meets (Chain.step treeNet plainExt) (Serves treeNet plainExt)
        (enter treeNet plainExt 0 (treeRequest "8" "1" false)) treeHops ∧
      Meets (Chain.step treeNet plainExt) (Exclusive treeNet plainExt)
        (enter treeNet plainExt 0 (treeRequest "8" "1" false)) treeHops ∧
      c.stage = .reached (.endpoint "ep2") ∧ c.line = .through := by
  have hids : ids (treeRequest "8" "1" false) = ["8", "1"] := by decide +kernel
  have hvia : treeNet.ViaBrokers 0 (ids (treeRequest "8" "1" false)) := by
    have hinside : treeNet.resolve 0 "8" = some (.broker 2) := by decide +kernel
    rw [hids]
    intro reg hreg
    cases hinside.symm.trans hreg
    exact ⟨2, rfl, trivial⟩
  have hend : (run (Chain.step treeNet plainExt) (enter treeNet plainExt 0 (treeRequest "8" "1" false)) treeHops).map
      (fun c => (c.stage, c.line)) = some (.reached (.endpoint "ep2"), .through) := by decide +kernel
  obtain ⟨c, hc, hcl⟩ := Option.map_eq_some_iff.1 hend
  obtain ⟨hstage, hline⟩ := Prod.mk.inj hcl
  exact ⟨c, hc, request_follows_route plainExt treeNet 0 (treeRequest "8" "1" false) hvia (Or.inr (Or.inr (by decide)))
    (Or.inr (by decide +kernel)) treeHops c hc, by decide, by decide +kernel, by decide +kernel, hstage, hline⟩

/-- **Requests the ids alone do not decide.**  Without a route and without `CCBStreamingRequired` the broker splices
nothing (`handleStandardRequest`); a CCBID with blanks around it is taken for the decimal in it; a CCBRoute of blanks
only is a route, without a head, to the downstream broker that is asked: it closes the pipe; and whoever presents the
connect id first, asked or not, is the one the requester is spliced to. -/
theorem request_off_route :
    (enter treeNet plainExt 0 (treeRequest "7" "" false)).stage = .standard 0 0 ∧
      (parseUint " 7 " = none ∧
        (run (Chain.step treeNet plainExt) (enter treeNet plainExt 0 (treeRequest " 7 " "" true))
          [goodHop "c0ffee" true]).map Chain.stage = some (.reached (.broker 1))) ∧
      (fields " " = [] ∧ treeNet.follow 0 ["7"] = some (.broker 1) ∧
        (run (Chain.step treeNet plainExt) (enter treeNet plainExt 0 (treeRequest "7" " " true))
          [goodHop "c0ffee" true]).map Chain.stage = some .closed) ∧
      (run (Chain.step treeNet plainExt) (enter treeNet plainExt 0 (treeRequest "7" "" true))
        [⟨hopLabels 0 0 "c0ffee" true, none, some "fresh"⟩]).map Chain.line = some .astray := by
  decide +kernel

end Route
end Ccb
