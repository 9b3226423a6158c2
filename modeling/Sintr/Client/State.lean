import Sintr.Data.Params
import Sintr.Lib.Machine

/-!
# A client's transaction

The client's side of a transaction in key-value mode: `Client::Begin`, `Put`, `Get` and `Commit`,
and the `ShardClient` of each group, which buffers the writes and the values read there.
-/

namespace Sintr.Client

/-! ## Shard clients -/

structure Reply where
  value : Bytes
  timestamp : Timestamp

structure Answer where
  value : Bytes
  timestamp : Timestamp
  addReadSet : Bool

structure ShardClient where
  writeSet : List WriteMessage := []
  readSet : List ReadMessage := []
  readValues : Key → Option Bytes := fun _ => none

namespace ShardClient

def begin (_ : ShardClient) : ShardClient := {}

def put (sc : ShardClient) (key : Key) (value : Bytes) : ShardClient :=
  { sc with writeSet := sc.writeSet ++ [{ key, value := some value }] }

/-- The first write of the key, else an earlier read of it. -/
def bufferGet (sc : ShardClient) (key : Key) : Option Answer :=
  match sc.writeSet.find? fun w => decide (w.key = key) with
  | some w => some ⟨w.value.getD [], Timestamp.zero, false⟩
  | none =>
    match sc.readSet.find? fun r => decide (r.key = key) with
    | some r => some ⟨(sc.readValues key).getD [], r.readtime, false⟩
    | none => none

def get (sc : ShardClient) (key : Key) (reply : Reply) : ShardClient × Answer :=
  match sc.bufferGet key with
  | some a => (sc, a)
  | none =>
    match sc.readValues key with
    | some prevRead => (sc, ⟨prevRead, Timestamp.zero, false⟩)
    | none =>
      ({ sc with
          readSet := sc.readSet ++ [{ key, readtime := reply.timestamp }]
          readValues := Function.update sc.readValues key (some reply.value) },
        ⟨reply.value, reply.timestamp, true⟩)

end ShardClient

/-! ## The client -/

/-- The transaction of a client with `n` groups, and its shard clients. -/
structure State (n : Nat) where
  policyType : TxnPolicyType
  writeSet : List WriteMessage
  readSet : List ReadMessage
  involvedGroups : List (Fin n)
  shards : Fin n → ShardClient

namespace State

variable {n : Nat}

/-- `Begin`: the shard clients keep what they have until they take part. -/
def begin (c : State n) (policyType : TxnPolicyType) : State n :=
  { c with policyType, writeSet := [], readSet := [], involvedGroups := [] }

def participate (c : State n) (i : Fin n) : State n :=
  if i ∈ c.involvedGroups then c
  else
    { c with
      involvedGroups := c.involvedGroups ++ [i]
      shards := Function.update c.shards i (c.shards i).begin }

def putAt (key : Key) (value : Bytes) (c : State n) (i : Fin n) : State n :=
  let c := c.participate i
  { c with shards := Function.update c.shards i ((c.shards i).put key value) }

/-- `Put`; the write of a policy goes to all groups. -/
def put (c : State n) (key : Key) (value : Bytes) (group : Fin n) : State n :=
  let w : WriteMessage := { key, value := some value }
  let c := { c with writeSet := c.writeSet ++ [w] }
  match c.policyType with
  | .none => putAt key value c group
  | .policyIdPolicy => (List.finRange n).foldl (putAt key value) c

def get (c : State n) (key : Key) (group : Fin n) (reply : Reply) : State n × Answer :=
  let c := c.participate group
  let r := (c.shards group).get key reply
  ({ c with
      readSet := if r.2.addReadSet then c.readSet ++ [{ key, readtime := r.2.timestamp }]
        else c.readSet
      shards := Function.update c.shards group r.1 }, r.2)

end State

/-! ## Programs -/

inductive Op (n : Nat) where
  | put (key : Key) (value : Bytes) (group : Fin n)
  | get (key : Key) (group : Fin n)

def step {n : Nat} (c : State n) (e : Op n × Reply) : State n :=
  match e.1 with
  | .put key value group => c.put key value group
  | .get key group => (c.get key group e.2).1

def machine (n : Nat) : Machine (State n) (Op n × Reply) := ⟨step⟩

/-- The write sets that `Commit` may send: with `parallelCCC` sorted by key, in no particular order
where keys are equal. -/
def Sends (params : Params) (writeSet sent : List WriteMessage) : Prop :=
  if params.parallelCCC then
    sent.Perm writeSet ∧ sent.Pairwise fun v w => decide (v.key ≤ w.key) = true
  else sent = writeSet

end Sintr.Client
