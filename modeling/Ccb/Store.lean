import Ccb.Broker
/-!
# Store — the write-behind reconnect store

`sqliteStore` (sqlitestore.go): `Put` and `Delete` queue an operation, the writer goroutine coalesces what it takes
from the queue per CCBID and commits the batch in one transaction at a tick, or once more after `Close`.  What SQLite
and the seal do is the environment's: `CommitEnv` says which part of a commit fails, and `load` is told which rows it
cannot decrypt or parse.
-/
namespace Ccb
namespace Store

open Broker (ReconnectRecord StoreOp)

/-- A row of the table; `updatedAt` is in whole seconds. -/
structure Row where
  cookie    : String
  peerIP    : String
  name      : String
  updatedAt : Int
  deriving DecidableEq, Repr

/-- The store with its writer.  `table` is on disk, the rest is lost with the process. -/
structure State where
  table    : GoMap UInt64 Row
  ops      : List StoreOp
  batch    : GoMap UInt64 StoreOp
  closing  : Bool
  returned : Bool

/-- The store as `OpenSharedReconnectStore` returns it over a table. -/
def openStore (table : GoMap UInt64 Row) : State := ⟨table, [], ∅, false, false⟩

/-- The capacity of `ops`. -/
def opsCap : Nat := 1024

/-- `time.Time.Unix` and `time.Unix` on nanoseconds. -/
def unixSeconds (t : Int) : Int := t / 1000000000

def ofUnixSeconds (ts : Int) : Int := ts * 1000000000

def opID : StoreOp → UInt64
  | .put rec      => rec.ccbid
  | .delete ccbid => ccbid

/-- `enqueue`'s select: the send, where the queue has room, or `done`, once it is closed. -/
def enqueue (s : State) (op : StoreOp) (sent : Bool) : Option State :=
  if sent then if s.ops.length < opsCap then some { s with ops := s.ops ++ [op] } else none
  else if s.closing then some s else none

/-- The statement a batched operation executes. -/
def exec (table : GoMap UInt64 Row) : StoreOp → GoMap UInt64 Row
  | .put rec      => table.insert rec.ccbid ⟨rec.cookie, rec.peerIP, rec.name, unixSeconds rec.updatedAt⟩
  | .delete ccbid => table.erase ccbid

/-- Which parts of a commit succeed. -/
structure CommitEnv where
  begin_  : Bool
  exec    : StoreOp → Bool
  commit_ : Bool

/-- `commit`: any failure leaves the table as it was. -/
def commit (env : CommitEnv) (table : GoMap UInt64 Row) (batch : GoMap UInt64 StoreOp) : GoMap UInt64 Row :=
  let ops := batch.entries.map Sigma.snd
  if env.begin_ && ops.all env.exec && env.commit_ then ops.foldl exec table else table

/-- The writer's `batch[op.rec.CCBID] = op`. -/
def batchOp (batch : GoMap UInt64 StoreOp) (op : StoreOp) : GoMap UInt64 StoreOp := batch.insert (opID op) op

inductive Label where
  | take
  | tick (env : CommitEnv)
  | close
  | finish (env : CommitEnv)

def step (s : State) : Label → Option State
  | .take =>
    match s.returned, s.ops with
    | false, op :: ops => some { s with ops := ops, batch := batchOp s.batch op }
    | _, _ => none
  | .tick env => if s.returned then none else some { s with table := commit env s.table s.batch, batch := ∅ }
  | .close => if s.closing then none else some { s with closing := true }
  | .finish env =>
    if s.closing && !s.returned then
      some { s with table := commit env s.table (s.ops.foldl batchOp s.batch), ops := [], batch := ∅, returned := true }
    else none

/-- `Load`: a row that cannot be decrypted or parsed is skipped. -/
def load (table : GoMap UInt64 Row) (unreadable : UInt64 → Bool) : List ReconnectRecord :=
  (table.entries.filter (fun e => !unreadable e.1)).map (fun e =>
    ⟨e.1, e.2.cookie, e.2.peerIP, e.2.name, ofUnixSeconds e.2.updatedAt⟩)

end Store
end Ccb
