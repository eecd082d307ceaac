import Mathlib.Logic.Function.Basic
import Ccb.Machine
/-!
# Listener — how the acceptor finds tunnels and what it deletes

The fstun Listener (listen.go) with its root directory and the initiators that dial it (dial.go).  An initiator makes
its work subtree and SYN, drops a marker named after its conn-id into the inbox and waits; if it gives up it removes
both.  The acceptor's one `watchLoop` goroutine scans the inbox, and at startup the work tree, engages the tunnels it
finds, and now and then sweeps what is old; each tunnel has an `accept` and a `reapWhenDone` goroutine.

Every access to the file system and every critical section under `l.mu` is a step of its own.  What `ReadDir` returns is
in the label, as stale as it may be; `visible` is what the acceptor's `Stat` of a tunnel's `c2s/000000.seg` finds.
Modification times are those the writer's label gives, whoever's clock they are from.
-/
namespace Ccb
namespace Listener

open Machine (run)

/-! ## The root directory -/

/-- A path below the root. -/
abbrev Path := List String

def connPath (id : String) : Path :=
  if id.toList.length ≤ 2 then [id] else [String.ofList (id.toList.take 2), String.ofList (id.toList.drop 2)]

/-- A direction of a subtree: its own modification time and those of its segment files. -/
structure SegFiles where
  mtime : Int
  segs  : List (Nat × Int)
  deriving DecidableEq, Repr

/-- A work subtree. -/
structure Subtree where
  mtime : Int
  c2s   : Option SegFiles
  s2c   : Option SegFiles
  deriving DecidableEq, Repr

def Subtree.hasSYN (t : Subtree) : Bool := t.c2s.any (fun d => d.segs.any (fun f => f.1 == 0))

/-- The modification times `subtreeLastActivity` reads. -/
def SegFiles.times (d : SegFiles) : List Int := d.mtime :: d.segs.map Prod.snd

def Subtree.times (t : Subtree) : List Int := t.mtime :: (t.c2s.toList ++ t.s2c.toList).flatMap SegFiles.times

/-- The newest time of a subtree; `none` is Go's zero time. -/
def subtreeLastActivity (t : Option Subtree) : Option Int :=
  (t.toList.flatMap Subtree.times).foldl (fun newest m => if newest.all (fun n => n < m) then some m else newest) none

/-- `t.After(cutoff)`. -/
def after (t : Option Int) (cutoff : Int) : Bool := t.any (fun t => cutoff < t)

/-- An entry of a `ReadDir`. -/
structure DirEntry where
  name  : String
  isDir : Bool
  deriving DecidableEq, Repr

def inboxNames (entries : List DirEntry) : List String := (entries.filter (fun e => !e.isDir)).map DirEntry.name

/-- The subtrees two levels of `ReadDir` find: fan-out directory and rest of the id.  A fan-out directory that could not
be read has no entries here. -/
def workDirs (fanouts : List (DirEntry × List DirEntry)) : List (String × String) :=
  (fanouts.filter
    (fun fo => fo.1.isDir && fo.1.name != "inbox" && !fo.1.name.toList.head?.any (fun c => c == '.'))).flatMap
    (fun fo => (fo.2.filter DirEntry.isDir).map (fun re => (fo.1.name, re.name)))

/-! ## Goroutines -/

/-- Where a `Dial` stands: each value is named after what it does next. -/
inductive DialPc where
  | mkdir
  | openSeg
  | syn
  | mark
  | ring
  | wait
  | established
  | removeTree
  | removeMarker
  | returned
  | crashed
  deriving DecidableEq, Repr

structure Dialer where
  id : String
  pc : DialPc
  deriving DecidableEq, Repr

/-- Where `reapWhenDone` stands. -/
inductive ReapPc where
  | wait
  | removeTree
  | removeMarker
  | forget
  | returned
  | left
  deriving DecidableEq, Repr

/-- Where an engaged tunnel stands: in the two parts of its handshake, after a failed one before and after `forget`,
with a live Conn (`watched` while its reaper waits), or with one that is done. -/
inductive TunnelPc where
  | opening
  | waiting
  | failed
  | forgotten
  | live (watched : Bool)
  | done (reaper : ReapPc)
  deriving DecidableEq, Repr

/-- An `accept` with the Conn it makes; `handed` says that `Accept` has taken it. -/
structure Tunnel where
  id     : String
  pc     : TunnelPc
  handed : Bool
  deriving DecidableEq, Repr

/-- Where `watchLoop` stands.  `startup`, `scan`, `sweepInbox` and `sweepWork` are the heads of the loops, with what is
left of their listings; the others are named after what they do next with the entry taken from it. -/
inductive WatchPc where
  | boot
  | startup (rest : List (String × String))
  | startupEngage (id : String) (rest : List (String × String))
  | startupAccept (id : String) (rest : List (String × String))
  | idle
  | scan (rest : List String)
  | scanStale (id : String) (rest : List String)
  | scanStat (id : String) (rest : List String)
  | scanEngage (id : String) (rest : List String)
  | scanRemove (id : String) (rest : List String)
  | scanAccept (id : String) (rest : List String)
  | sweepInbox (cutoff : Int) (rest : List String)
  | sweepInfo (cutoff : Int) (id : String) (rest : List String)
  | sweepMarker (cutoff : Int) (id : String) (rest : List String)
  | sweepRead (cutoff : Int)
  | sweepWork (cutoff : Int) (rest : List (String × String))
  | sweepStat (cutoff : Int) (dir : String × String) (rest : List (String × String))
  | sweepTree (cutoff : Int) (dir : String × String) (rest : List (String × String))
  | returned
  deriving DecidableEq, Repr

/-- The root directory, the initiators and the Listener.  `engaged` is the history of `seen`: the ids ever put into
it. -/
structure State where
  markers  : String → Option Int
  trees    : Path → Option Subtree
  visible  : Path → Bool
  dialers  : List Dialer
  watch    : WatchPc
  rescans  : Nat
  seen     : String → Bool
  engaged  : List String
  tunnels  : List Tunnel
  closed   : Bool

/-- `Listen` on an empty root. -/
def State.start : State :=
  { markers := fun _ => none, trees := fun _ => none, visible := fun _ => false, dialers := [], watch := .boot,
    rescans := 0, seen := fun _ => false, engaged := [], tunnels := [], closed := false }

/-! ## Steps -/

/-- The subtrees without those at or below a path. -/
def cut (p : Path) (trees : Path → Option Subtree) : Path → Option Subtree :=
  fun q => if p.isPrefixOf q then none else trees q

/-- `os.RemoveAll`. -/
def State.removeAll (s : State) (p : Path) : State := { s with trees := cut p s.trees }

def State.removeMarker (s : State) (id : String) : State := { s with markers := Function.update s.markers id none }

def State.setMarker (s : State) (id : String) (now : Int) : State :=
  { s with markers := Function.update s.markers id (some now) }

def State.setTree (s : State) (p : Path) (t : Subtree) : State := { s with trees := Function.update s.trees p (some t) }

def State.forget (s : State) (id : String) : State := { s with seen := Function.update s.seen id false }

def State.engage (s : State) (id : String) : State :=
  { s with seen := Function.update s.seen id true, engaged := id :: s.engaged }

/-- `go l.accept(id)`. -/
def State.accept (s : State) (id : String) : State := { s with tunnels := s.tunnels ++ [⟨id, .opening, false⟩] }

def State.setDialer (s : State) (i : Nat) (d : Dialer) : State := { s with dialers := s.dialers.set i d }

def State.setTunnel (s : State) (n : Nat) (k : Tunnel) : State := { s with tunnels := s.tunnels.set n k }

/-- What an initiator does next; a failure or a crash is possible wherever it stands. -/
inductive DialLabel where
  | mkdir (now : Int)
  | openSeg (now : Int)
  | syn (now : Int)
  | mark (now : Int) (ok : Bool)
  | ring
  | established
  | fail
  | removeTree
  | removeMarker
  | crash
  deriving DecidableEq, Repr

/-- `openSeg` gives the send direction its first segment file. -/
def Subtree.openSYN (now : Int) : Subtree := ⟨now, some ⟨now, [(0, now)]⟩, none⟩

def dialStep (s : State) (i : Nat) (l : DialLabel) : Option State :=
  match s.dialers[i]? with
  | none   => none
  | some d =>
    match l with
    | .mkdir now =>
      if d.pc = .mkdir then
        some ((s.setTree (connPath d.id) ⟨now, some ⟨now, []⟩, none⟩).setDialer i { d with pc := .openSeg })
      else none
    | .openSeg now =>
      if d.pc = .openSeg then some ((s.setTree (connPath d.id) (.openSYN now)).setDialer i { d with pc := .syn })
      else none
    | .syn now =>
      if d.pc = .syn then some ((s.setTree (connPath d.id) (.openSYN now)).setDialer i { d with pc := .mark })
      else none
    | .mark now ok =>
      if d.pc = .mark then
        -- The marker is best-effort: without it there is no ring either.
        if ok then some ((s.setMarker d.id now).setDialer i { d with pc := .ring })
        else some (s.setDialer i { d with pc := .wait })
      else none
    | .ring => if d.pc = .ring then some (s.setDialer i { d with pc := .wait }) else none
    | .established => if d.pc = .wait then some (s.setDialer i { d with pc := .established }) else none
    | .fail =>
      if d.pc = .mkdir ∨ d.pc = .openSeg ∨ d.pc = .syn ∨ d.pc = .wait then
        some (s.setDialer i { d with pc := .removeTree })
      else none
    | .removeTree =>
      if d.pc = .removeTree then some ((s.removeAll (connPath d.id)).setDialer i { d with pc := .removeMarker })
      else none
    | .removeMarker =>
      if d.pc = .removeMarker then some ((s.removeMarker d.id).setDialer i { d with pc := .returned }) else none
    | .crash => if d.pc = .returned then none else some (s.setDialer i { d with pc := .crashed })

/-- What happens to an engaged tunnel. -/
inductive TunnelLabel where
  /-- The handshake makes its send direction and writes its SYN. -/
  | opened (now : Int)
  | failed
  | established
  | forget
  /-- `Accept` takes the Conn. -/
  | handed
  /-- `Close`, an ERROR of the peer, or a timeout. -/
  | finish
  /-- The reaper sees that the listener is closed. -/
  | leave
  /-- The reaper sees that the Conn is done. -/
  | reap
  | removeTree
  | removeMarker
  | reapForget
  deriving DecidableEq, Repr

/-- The acceptor's direction with its SYN, beside what is there. -/
def Subtree.withSYN (now : Int) : Option Subtree → Subtree
  | some t => { t with mtime := now, s2c := some ⟨now, [(0, now)]⟩ }
  | none   => ⟨now, none, some ⟨now, [(0, now)]⟩⟩

def tunnelStep (s : State) (n : Nat) (l : TunnelLabel) : Option State :=
  match s.tunnels[n]? with
  | none   => none
  | some k =>
    match l with
    | .opened now =>
      if k.pc = .opening then
        some
          ((s.setTree (connPath k.id) (.withSYN now (s.trees (connPath k.id)))).setTunnel n { k with pc := .waiting })
      else none
    | .failed => if k.pc = .opening ∨ k.pc = .waiting then some (s.setTunnel n { k with pc := .failed }) else none
    | .established => if k.pc = .waiting then some (s.setTunnel n { k with pc := .live true }) else none
    | .forget => if k.pc = .failed then some ((s.forget k.id).setTunnel n { k with pc := .forgotten }) else none
    | .handed =>
      match k.pc with
      | .live _ | .done _ => if k.handed then none else some (s.setTunnel n { k with handed := true })
      | _ => none
    | .finish =>
      match k.pc with
      | .live watched => some (s.setTunnel n { k with pc := .done (if watched then .wait else .left) })
      | _ => none
    | .leave =>
      if s.closed then
        match k.pc with
        | .live true  => some (s.setTunnel n { k with pc := .live false })
        | .done .wait => some (s.setTunnel n { k with pc := .done .left })
        | _ => none
      else none
    | .reap => if k.pc = .done .wait then some (s.setTunnel n { k with pc := .done .removeTree }) else none
    | .removeTree =>
      if k.pc = .done .removeTree then
        some ((s.removeAll (connPath k.id)).setTunnel n { k with pc := .done .removeMarker })
      else none
    | .removeMarker =>
      if k.pc = .done .removeMarker then
        some ((s.removeMarker k.id).setTunnel n { k with pc := .done .forget })
      else none
    | .reapForget =>
      if k.pc = .done .forget then some ((s.forget k.id).setTunnel n { k with pc := .done .returned }) else none

/-- What `watchLoop` is given: a listing, a tick with its time, or nothing. -/
inductive WatchLabel where
  | readWork (fanouts : Option (List (DirEntry × List DirEntry)))
  | slow (inbox : Option (List DirEntry))
  | fast (changed : Bool) (inbox : Option (List DirEntry))
  | age (now : Int) (inbox : Option (List DirEntry))
  | stop
  | go
  deriving DecidableEq, Repr

/-- `scanInbox` begins: nothing happens if the inbox cannot be read. -/
def State.scanInbox (s : State) (inbox : Option (List DirEntry)) : State :=
  match inbox with
  | some entries => { s with watch := .scan (inboxNames entries) }
  | none         => s

def doorbellRescans : Nat := 3

/-- A tick of the fast timer. -/
def State.fastTick (s : State) (changed : Bool) (inbox : Option (List DirEntry)) : State :=
  let rescans := if changed then doorbellRescans else s.rescans
  if rescans > 0 then { s with rescans := rescans - 1 }.scanInbox inbox else { s with rescans := rescans }

/-- One step inside `startupScan`, `scanInbox` or `ageSweep`. -/
def goStep (s : State) : Option State :=
  match s.watch with
  | .startup []                   => some { s with watch := .idle }
  | .startup ((fo, re) :: rest)   =>
    if s.visible (connPath (fo ++ re)) then some { s with watch := .startupEngage (fo ++ re) rest }
    else some { s with watch := .startup rest }
  | .startupEngage id rest        =>
    if s.seen id then some { s with watch := .startup rest }
    else some { s.engage id with watch := .startupAccept id rest }
  | .startupAccept id rest        => some { s.accept id with watch := .startup rest }
  | .scan []                      => some { s with watch := .idle }
  | .scan (id :: rest)            =>
    if s.seen id then some { s with watch := .scanStale id rest } else some { s with watch := .scanStat id rest }
  | .scanStale id rest            => some { s.removeMarker id with watch := .scan rest }
  | .scanStat id rest             =>
    if s.visible (connPath id) then
      some { s with watch := .scanEngage id rest }
    else some { s with watch := .scan rest }
  | .scanEngage id rest           => some { s.engage id with watch := .scanRemove id rest }
  | .scanRemove id rest           => some { s.removeMarker id with watch := .scanAccept id rest }
  | .scanAccept id rest           => some { s.accept id with watch := .scan rest }
  | .sweepInbox cutoff []         => some { s with watch := .sweepRead cutoff }
  | .sweepInbox cutoff (id :: rest) =>
    if s.seen id then some { s with watch := .sweepInbox cutoff rest }
    else some { s with watch := .sweepInfo cutoff id rest }
  | .sweepInfo cutoff id rest     =>
    if (s.markers id).any (fun m => m < cutoff) then some { s with watch := .sweepMarker cutoff id rest }
    else some { s with watch := .sweepInbox cutoff rest }
  | .sweepMarker cutoff id rest   => some { s.removeMarker id with watch := .sweepInbox cutoff rest }
  | .sweepWork _ []               => some { s with watch := .idle }
  | .sweepWork cutoff ((fo, re) :: rest) =>
    if s.seen (fo ++ re) then some { s with watch := .sweepWork cutoff rest }
    else some { s with watch := .sweepStat cutoff (fo, re) rest }
  | .sweepStat cutoff dir rest    =>
    if after (subtreeLastActivity (s.trees [dir.1, dir.2])) cutoff then some { s with watch := .sweepWork cutoff rest }
    else some { s with watch := .sweepTree cutoff dir rest }
  | .sweepTree cutoff dir rest    => some { s.removeAll [dir.1, dir.2] with watch := .sweepWork cutoff rest }
  | .boot | .idle | .sweepRead _ | .returned => none

def watchStep (threshold : Int) (s : State) : WatchLabel → Option State
  | .readWork fanouts =>
    match s.watch with
    | .boot             => some { s with watch := .startup (workDirs (fanouts.getD [])) }
    | .sweepRead cutoff => some { s with watch := .sweepWork cutoff (workDirs (fanouts.getD [])) }
    | _ => none
  | .slow inbox => if s.watch = .idle then some (s.scanInbox inbox) else none
  | .fast changed inbox => if s.watch = .idle then some (s.fastTick changed inbox) else none
  | .age now inbox =>
    if s.watch = .idle then
      some { s with watch := .sweepInbox (now - threshold) (inboxNames (inbox.getD [])) }
    else none
  | .stop => if s.watch = .idle ∧ s.closed = true then some { s with watch := .returned } else none
  | .go => goStep s

/-- `newConnID`: thirty-two hexadecimal digits. -/
def isConnID (id : String) : Bool :=
  id.toList.length == 32 && id.toList.all (fun c => ('0' ≤ c && c ≤ '9') || ('a' ≤ c && c ≤ 'f'))

inductive Label where
  /-- A `Dial` begins with a conn-id no other has. -/
  | dial (id : String)
  | dialer (i : Nat) (l : DialLabel)
  | watch (l : WatchLabel)
  | tunnel (n : Nat) (l : TunnelLabel)
  /-- The two Conns of a tunnel go on in its subtree. -/
  | write (p : Path) (t : Subtree)
  /-- The acceptor comes to see a first segment that is there. -/
  | surface (p : Path)
  /-- It sees it no longer. -/
  | fade (p : Path)
  /-- `Close` of the Listener. -/
  | close
  deriving DecidableEq, Repr

/-- The label is a step of the acceptor. -/
def Label.acceptor : Label → Bool
  | .watch _ | .tunnel _ _ => true
  | _ => false

def step (threshold : Int) (s : State) : Label → Option State
  | .dial id =>
    if isConnID id = true ∧ s.dialers.all (fun d => d.id != id) = true then
      some { s with dialers := s.dialers ++ [⟨id, .mkdir⟩] }
    else none
  | .dialer i l => dialStep s i l
  | .watch l    => watchStep threshold s l
  | .tunnel n l => tunnelStep s n l
  | .write p t  => if (s.trees p).isSome then some (s.setTree p t) else none
  | .surface p  =>
    if (s.trees p).any Subtree.hasSYN then some { s with visible := Function.update s.visible p true } else none
  | .fade p     => some { s with visible := Function.update s.visible p false }
  | .close      => some { s with closed := true }

end Listener
end Ccb
