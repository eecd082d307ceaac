import Mathlib.Data.List.TakeWhile
import Mathlib.Data.List.TakeDrop
import Ccb.Outbound
/-!
# Egress — what an exit CCB dials

`outboundTargetAllowed` (outbound.go) against the policy `Config.OutboundTargetAllowlist` documents: some entry matches
the host, and the host is no scope of the broker's own.  The two agree exactly where the list has an entry or the target
would not be dialed anyway (`egress_exact`); without an entry the code permits everything else (`empty_list_permits`).

The scopes are told from what `net.ParseIP` reads, and `net.Dialer` reads more: an IPv6 address with a zone.  Such a
host passes for a name, and the entries of the list are all that keeps it from being dialed (`local_literal_refused`,
`zoned_loopback_is_dialed`).
-/
namespace Ccb
namespace Outbound

/-! ## The policy -/

/-- An entry is a network, a glob or a literal, and is for a host in its own way. -/
inductive EntryFor (x : NetExt) (host pat : String) : Prop
  | network (contains : IP → Bool) (ip : IP) : x.parseCIDR pat = some contains → x.parseIP host = some ip →
      contains ip = true → EntryFor x host pat
  | glob : x.parseCIDR pat = none → hasGlob pat = true → x.globMatch (x.toLower pat) (x.toLower host) = true →
      EntryFor x host pat
  | literal : x.parseCIDR pat = none → hasGlob pat = false → x.equalFold pat host = true → EntryFor x host pat

/-- The scopes of an address that are the broker's own. -/
def localScope (x : NetExt) (ip : IP) : Bool :=
  x.isLoopback ip || x.isLinkLocalUnicast ip || x.isLinkLocalMulticast ip || x.isUnspecified ip

inductive BrokerLocal (x : NetExt) (host : String) : Prop
  | address (ip : IP) : x.parseIP host = some ip → localScope x ip = true → BrokerLocal x host
  | name : x.parseIP host = none → x.equalFold host "localhost" = true → BrokerLocal x host

/-- **Deny by default**: a host and port the list lets through. -/
structure Permitted (x : NetExt) (allow : List String) (host port : String) : Prop where
  host_ne : host ≠ ""
  port_ne : port ≠ ""
  remote  : ¬ BrokerLocal x host
  matched : ∃ pat ∈ allow, trimSpace pat ≠ "" ∧ EntryFor x host (trimSpace pat)

/-- The list has an entry that is not blank. -/
def HasEntry (cfg : OutboundConfig) : Prop := ∃ pat ∈ cfg.outboundTargetAllowlist, trimSpace pat ≠ ""

/-- The target has a host and a port, and the host is no scope of the broker's own. -/
def Dialable (x : NetExt) (target : String) : Prop :=
  ∃ host port, x.parseSinful target = some (host, port) ∧ host ≠ "" ∧ port ≠ "" ∧ ¬ BrokerLocal x host

/-- The targets `outboundTargetAllowed` lets through are the ones the policy permits. -/
def FollowsPolicy (x : NetExt) (cfg : OutboundConfig) (target : String) : Prop :=
  ∀ addr, outboundTargetAllowed x cfg target = .ok addr ↔
    ∃ host port, x.parseSinful target = some (host, port) ∧ Permitted x cfg.outboundTargetAllowlist host port ∧
      addr = joinHostPort host port

variable {x : NetExt} {cfg : OutboundConfig} {host pat target : String}

theorem entryMatches_iff : entryMatches x host pat = true ↔ EntryFor x host pat := by
  unfold entryMatches
  constructor
  · intro h
    split at h
    · rename_i contains hnet
      obtain ⟨ip, hip, hin⟩ := (Option.any_eq_true _ _).1 h
      exact .network contains ip hnet hip hin
    · rename_i hnet
      split at h
      · rename_i hglob
        exact .glob hnet hglob h
      · rename_i hglob
        exact .literal hnet (Bool.eq_false_iff.2 hglob) h
  · intro h
    cases h with
    | network contains ip hnet hip hin => simp [hnet, hip, hin]
    | glob hnet hglob hm => simp [hnet, hglob, hm]
    | literal hnet hglob hm => simp [hnet, hglob, hm]

theorem refusedScope_eq_none_iff : refusedScope x host = none ↔ ¬ BrokerLocal x host := by
  unfold refusedScope
  constructor
  · intro h hlocal
    cases hlocal with
    | address ip hip hscope =>
      unfold localScope at hscope
      simp [hip, hscope] at h
    | name hip hname => simp [hip, hname] at h
  · intro h
    split
    · rename_i ip hip
      split
      · rename_i hscope
        exact absurd (.address ip hip hscope) h
      · rfl
    · rename_i hip
      split
      · rename_i hname
        exact absurd (.name hip hname) h
      · rfl

/-- **What the loop finds**: an entry that matches, or, if it has met none, no entry at all. -/
theorem matchLoop_iff : ∀ (pats : List String) (hasEntry : Bool), matchLoop x host pats hasEntry = true ↔
    (∃ pat ∈ pats, trimSpace pat ≠ "" ∧ EntryFor x host (trimSpace pat)) ∨
      (hasEntry = false ∧ ∀ pat ∈ pats, trimSpace pat = "")
  | [], hasEntry => by simp [matchLoop]
  | pat :: pats, hasEntry => by
    unfold matchLoop
    split
    · rename_i hblank
      rw [matchLoop_iff pats hasEntry]
      simp [hblank]
    · rename_i hblank
      split
      · rename_i hm
        simp [hblank, entryMatches_iff.1 hm]
      · rename_i hm
        have hno : ¬ EntryFor x host (trimSpace pat) := fun h => hm (entryMatches_iff.2 h)
        rw [matchLoop_iff pats true]
        simp [hblank, hno]

theorem matchAllowlist_iff : matchAllowlist x cfg host = true ↔
    (∃ pat ∈ cfg.outboundTargetAllowlist, trimSpace pat ≠ "" ∧ EntryFor x host (trimSpace pat)) ∨ ¬ HasEntry cfg := by
  rw [matchAllowlist, matchLoop_iff]
  simp [HasEntry]

/-- **What `outboundTargetAllowed` lets through.** -/
theorem outboundTargetAllowed_eq_ok_iff {addr : String} : outboundTargetAllowed x cfg target = .ok addr ↔
    ∃ host port, x.parseSinful target = some (host, port) ∧ host ≠ "" ∧ port ≠ "" ∧ ¬ BrokerLocal x host ∧
      matchAllowlist x cfg host = true ∧ addr = joinHostPort host port := by
  unfold outboundTargetAllowed
  constructor
  · intro h
    split at h
    · cases h
    rename_i host port hparse
    split at h
    · cases h
    rename_i hne
    rw [not_or] at hne
    split at h
    · cases h
    rename_i hscope
    split at h <;> cases h
    rename_i hm
    exact ⟨host, port, hparse, hne.1, hne.2, refusedScope_eq_none_iff.1 hscope, hm, rfl⟩
  · rintro ⟨host, port, hparse, hhost, hport, hlocal, hm, rfl⟩
    simp [hparse, hhost, hport, refusedScope_eq_none_iff.2 hlocal, hm]

/-- The list counts as a set. -/
theorem matchAllowlist_congr {cfg' : OutboundConfig}
    (h : ∀ pat, pat ∈ cfg'.outboundTargetAllowlist ↔ pat ∈ cfg.outboundTargetAllowlist) (host : String) :
    matchAllowlist x cfg' host = matchAllowlist x cfg host := by
  rw [Bool.eq_iff_iff, matchAllowlist_iff, matchAllowlist_iff]
  simp only [HasEntry, h]

theorem followsPolicy_of_entry (h : HasEntry cfg) : FollowsPolicy x cfg target := by
  intro addr
  rw [outboundTargetAllowed_eq_ok_iff]
  constructor
  · rintro ⟨host, port, hparse, hhost, hport, hlocal, hm, haddr⟩
    exact ⟨host, port, hparse, ⟨hhost, hport, hlocal, (matchAllowlist_iff.1 hm).resolve_right (fun hn => hn h)⟩, haddr⟩
  · rintro ⟨host, port, hparse, hp, haddr⟩
    exact ⟨host, port, hparse, hp.host_ne, hp.port_ne, hp.remote, matchAllowlist_iff.2 (Or.inl hp.matched), haddr⟩

/-- What is not dialed under any list is permitted by none. -/
theorem followsPolicy_of_not_dialable (h : ¬ Dialable x target) : FollowsPolicy x cfg target := by
  intro addr
  rw [outboundTargetAllowed_eq_ok_iff]
  constructor
  · rintro ⟨host, port, hparse, hhost, hport, hlocal, -⟩
    exact absurd ⟨host, port, hparse, hhost, hport, hlocal⟩ h
  · rintro ⟨host, port, hparse, hp, -⟩
    exact absurd ⟨host, port, hparse, hp.host_ne, hp.port_ne, hp.remote⟩ h

/-- **The egress policy is exact** where the list has an entry that is not blank or the target is not dialable, and only
there; and no list's order or repetitions count. -/
theorem egress_exact (x : NetExt) (cfg : OutboundConfig) (target : String) :
    (FollowsPolicy x cfg target ↔ HasEntry cfg ∨ ¬ Dialable x target) ∧
    ∀ cfg' : OutboundConfig, (∀ pat, pat ∈ cfg'.outboundTargetAllowlist ↔ pat ∈ cfg.outboundTargetAllowlist) →
      outboundTargetAllowed x cfg' target = outboundTargetAllowed x cfg target := by
  refine ⟨⟨fun h => ?_, ?_⟩, ?_⟩
  · by_cases hentry : HasEntry cfg
    · exact Or.inl hentry
    · refine Or.inr ?_
      -- A dialable target is let through by a list without an entry, and matched by none.
      rintro ⟨host, port, hparse, hhost, hport, hlocal⟩
      have hok := outboundTargetAllowed_eq_ok_iff.2
        ⟨host, port, hparse, hhost, hport, hlocal, matchAllowlist_iff.2 (Or.inr hentry), rfl⟩
      obtain ⟨_, _, -, hp, -⟩ := (h _).1 hok
      obtain ⟨pat, hmem, hne, -⟩ := hp.matched
      exact hentry ⟨pat, hmem, hne⟩
  · rintro (h | h)
    · exact followsPolicy_of_entry h
    · exact followsPolicy_of_not_dialable h
  · intro cfg' h
    unfold outboundTargetAllowed
    simp only [matchAllowlist_congr h]

/-- An exit CCB with this allow-list. -/
def exitBroker (allow : List String) : OutboundConfig :=
  { outboundBroker "outside:9618" "" with outboundTargetAllowlist := allow }

theorem egress_exact_target :
    outboundTargetAllowed plainNet (exitBroker [" ", "target"]) "<target:4000>" = .ok "target:4000" ∧
      ∃ host port, plainNet.parseSinful "<target:4000>" = some (host, port) ∧
        Permitted plainNet [" ", "target"] host port ∧ "target:4000" = joinHostPort host port := by
  have hok : outboundTargetAllowed plainNet (exitBroker [" ", "target"]) "<target:4000>" = .ok "target:4000" := by
    decide
  have hentry : HasEntry (exitBroker [" ", "target"]) := ⟨"target", by decide, by decide⟩
  exact ⟨hok, ((egress_exact plainNet (exitBroker [" ", "target"]) "<target:4000>").1.2 (Or.inl hentry) _).1 hok⟩

/-- **A list without an entry permits every target** that is not the broker's own. -/
theorem empty_list_permits :
    outboundTargetAllowed plainNet (exitBroker []) "<target:4000>" = .ok "target:4000" ∧
      outboundTargetAllowed plainNet (exitBroker [" "]) "<target:4000>" = .ok "target:4000" ∧
      ¬ Permitted plainNet [] "target" "4000" ∧ ¬ Permitted plainNet [" "] "target" "4000" := by
  refine ⟨by decide, by decide, fun h => ?_, fun h => ?_⟩
  · obtain ⟨pat, hmem, -⟩ := h.matched
    cases hmem
  · obtain ⟨pat, hmem, hne, -⟩ := h.matched
    rw [List.mem_singleton.1 hmem] at hne
    exact hne (by decide)

/-! ## What the dialer reads -/

/-- The address `net.Dialer` takes a host for: what `net.ParseIP` reads or, in the IPv6 forms, what it reads before a
`%` and a zone. -/
def dialerIP (x : NetExt) (host : String) : Option IP :=
  match x.parseIP host with
  | some ip => some ip
  | none =>
    match host.toList.span (fun c => c != '%') with
    | (addr, _ :: zone) => if addr.contains ':' && !zone.isEmpty then x.parseIP (String.ofList addr) else none
    | (_, [])           => none

theorem dialerIP_of_no_zone (h : '%' ∉ host.toList) : dialerIP x host = x.parseIP host := by
  have hall : host.toList.dropWhile (fun c => c != '%') = [] := by
    rw [List.dropWhile_eq_nil_iff]
    intro c hc
    simp only [bne_iff_ne, ne_eq]
    rintro rfl
    exact h hc
  unfold dialerIP
  rw [List.span_eq_takeWhile_dropWhile, hall]
  cases x.parseIP host <;> rfl

/-- The target is not dialed. -/
def Refused (x : NetExt) (cfg : OutboundConfig) (target : String) : Prop :=
  (∃ msg, outboundTargetAllowed x cfg target = .error msg) ∧ ∀ addr, directConnect x cfg target ≠ .dial addr

theorem refused_iff : Refused x cfg target ↔ ∀ addr, outboundTargetAllowed x cfg target ≠ .ok addr := by
  constructor
  · rintro ⟨⟨msg, h⟩, -⟩ addr hok
    rw [h] at hok
    cases hok
  · intro hno
    cases hres : outboundTargetAllowed x cfg target with
    | ok addr => exact absurd hres (hno addr)
    | error msg =>
      refine ⟨⟨msg, hres⟩, fun addr h => ?_⟩
      simp [directConnect, hres] at h

/-- `refusedScope` sees an address without a zone, and the name `localhost`. -/
theorem brokerLocal_of_literal {ip : IP} (hrejects : '%' ∈ host.toList → x.parseIP host = none)
    (hip : dialerIP x host = some ip) (hscope : localScope x ip = true)
    (h : '%' ∉ host.toList ∨ x.equalFold host "localhost" = true) : BrokerLocal x host := by
  by_cases hzone : '%' ∈ host.toList
  · exact .name (hrejects hzone) (h.resolve_left (not_not_intro hzone))
  · rw [dialerIP_of_no_zone hzone] at hip
    exact .address ip hip hscope

/-- A zone hides the address from it. -/
theorem not_brokerLocal_of_zone (hrejects : x.parseIP host = none) (hname : ¬ x.equalFold host "localhost" = true) :
    ¬ BrokerLocal x host := by
  rintro (⟨ip, hip, -⟩ | ⟨-, hname'⟩)
  · rw [hrejects] at hip
    cases hip
  · exact hname hname'

/-- **A literal of the broker's own scopes is refused** where it has no zone, and with one exactly where the target has
no port, the host is the name of the loopback, or the list has entries of which none is for the host. -/
theorem local_literal_refused (x : NetExt) (cfg : OutboundConfig) (target host port : String) (ip : IP)
    (hrejects : '%' ∈ host.toList → x.parseIP host = none) (hparse : x.parseSinful target = some (host, port))
    (hip : dialerIP x host = some ip) (hscope : localScope x ip = true) :
    Refused x cfg target ↔ '%' ∉ host.toList ∨ port = "" ∨ x.equalFold host "localhost" = true ∨
      (HasEntry cfg ∧ ∀ pat ∈ cfg.outboundTargetAllowlist, trimSpace pat ≠ "" → ¬ EntryFor x host (trimSpace pat)) := by
  rw [refused_iff]
  constructor
  · intro hno
    by_cases hzone : '%' ∈ host.toList
    swap
    · exact Or.inl hzone
    by_cases hport : port = ""
    · exact Or.inr (Or.inl hport)
    by_cases hname : x.equalFold host "localhost" = true
    · exact Or.inr (Or.inr (Or.inl hname))
    have hlocal := not_brokerLocal_of_zone (hrejects hzone) hname
    have hhost : host ≠ "" := by
      rintro rfl
      cases hzone
    have hm : ¬ matchAllowlist x cfg host = true := fun hm =>
      hno _ (outboundTargetAllowed_eq_ok_iff.2 ⟨host, port, hparse, hhost, hport, hlocal, hm, rfl⟩)
    rw [matchAllowlist_iff, not_or, not_not] at hm
    exact Or.inr (Or.inr (Or.inr ⟨hm.2, fun pat hmem hne hfor => hm.1 ⟨pat, hmem, hne, hfor⟩⟩))
  · intro h addr hok
    obtain ⟨host', port', hparse', -, hport, hlocal, hm, -⟩ := outboundTargetAllowed_eq_ok_iff.1 hok
    rw [hparse] at hparse'
    cases hparse'
    rcases h with hzone | rfl | hname | ⟨hentry, hnone⟩
    · exact hlocal (brokerLocal_of_literal hrejects hip hscope (Or.inl hzone))
    · exact hport rfl
    · exact hlocal (brokerLocal_of_literal hrejects hip hscope (Or.inr hname))
    · rcases matchAllowlist_iff.1 hm with ⟨pat, hmem, hne, hfor⟩ | hno
      · exact hnone pat hmem hne hfor
      · exact hno hentry

/-- `ParseSinful` with a host in brackets; the loopback addresses of both families as literals. -/
def literalNet : NetExt where
  parseSinful s :=
    match (trimAngles s).toList with
    | '[' :: cs =>
      match cs.span (fun c => c != ']') with
      | (host, _ :: ':' :: port) => some (String.ofList host, String.ofList port)
      | _ => none
    | cs =>
      match cs.span (fun c => c != ':') with
      | (host, _ :: port) => some (String.ofList host, String.ofList port)
      | (_, [])           => none
  parseIP s :=
    if s = "127.0.0.1" then some [127, 0, 0, 1]
    else if s = "::1" then some [0, 0, 0, 0, 0, 0, 0, 0, 0, 0, 0, 0, 0, 0, 0, 1]
    else none
  isLoopback ip := ip.head? == some 127 || ip == [0, 0, 0, 0, 0, 0, 0, 0, 0, 0, 0, 0, 0, 0, 0, 1]
  isLinkLocalUnicast _ := false
  isLinkLocalMulticast _ := false
  isUnspecified _ := false
  parseCIDR _ := none
  globMatch pat _ := pat == "*"
  toLower s := s
  equalFold a b := a == b
  quote := String.quote

theorem local_literal_refused_loopback :
    dialerIP literalNet "::1" = some [0, 0, 0, 0, 0, 0, 0, 0, 0, 0, 0, 0, 0, 0, 0, 1] ∧
      Refused literalNet (exitBroker ["*"]) "<[::1]:9618>" :=
  ⟨by decide, (local_literal_refused literalNet (exitBroker ["*"]) "<[::1]:9618>" "::1" "9618"
    [0, 0, 0, 0, 0, 0, 0, 0, 0, 0, 0, 0, 0, 0, 0, 1] (by decide) (by decide) (by decide) (by decide)).2
      (Or.inl (by decide))⟩

/-- **The loopback address with a zone is dialed**: `net.ParseIP` reads no address in it, the dialer does.  A list that
permits every host lets it through, and so does the empty list. -/
theorem zoned_loopback_is_dialed :
    literalNet.parseSinful "<[::1%lo]:9618>" = some ("::1%lo", "9618") ∧ literalNet.parseIP "::1%lo" = none ∧
      (dialerIP literalNet "::1%lo").any (localScope literalNet) = true ∧
      directConnect literalNet (exitBroker ["*"]) "<[::1%lo]:9618>" = .dial "[::1%lo]:9618" ∧
      directConnect literalNet (exitBroker []) "<[::1%lo]:9618>" = .dial "[::1%lo]:9618" := by
  decide

end Outbound
end Ccb
