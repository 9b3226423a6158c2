import Mathlib.Data.List.Sort
import Sintr.Data.Types

/-!
# Transaction digests

Every table of a replica is keyed by the digest of a transaction. `transactionDigest` feeds the
fields of the transaction to the hash in the order the server does (`transactionBytes` is that
stream); two of its flags decide whether versions are hashed in the clear and whether the
endorsements are covered. `policyVersionDigest` binds the policy versions the client saw to a
digest: it is what validating clients sign.

The hash function itself is a parameter; `HashFn` is any function on byte strings.
-/

namespace Sintr

abbrev HashFn := Bytes → Digest

/-! ## Encodings -/

/-- The eight bytes of a `uint64` in memory, least significant first. -/
def le64 (x : UInt64) : Bytes :=
  [x.toUInt8, (x >>> 8).toUInt8, (x >>> 16).toUInt8, (x >>> 24).toUInt8,
    (x >>> 32).toUInt8, (x >>> 40).toUInt8, (x >>> 48).toUInt8, (x >>> 56).toUInt8]

def varint : Nat → Nat → Bytes
  | 0, _ => []
  | fuel + 1, n =>
    if n < 128 then [UInt8.ofNat n] else UInt8.ofNat (n % 128 + 128) :: varint fuel (n / 128)

def lenField (tag : UInt8) (b : Bytes) : Bytes := tag :: varint 10 b.length ++ b

/-- The serialization of one `SignedMessage` (fields `data`, `process_id`, `signature`). -/
def serializeSignedMessage (m : SignedMessage) : Bytes :=
  lenField 0x0A m.data ++ (0x10 :: varint 10 m.processId.toNat) ++ lenField 0x1A m.signature

/-- `SignedMessages::SerializeToString`. No message at all serializes to the empty string. -/
def serializeSignedMessages (ms : List SignedMessage) : Bytes :=
  ms.flatMap fun m => lenField 0x0A (serializeSignedMessage m)

def timestampBytes (t : Timestamp) : Bytes := le64 t.id ++ le64 t.timestamp

/-! ## The digest -/

/-- A version as it is hashed. With `hashedTS` the server asserts that the hash is there. -/
def versionBytes (hashedTS : Bool) (t : Timestamp) (hashed : Option Bytes) : Bytes :=
  if hashedTS then hashed.getD [] else timestampBytes t

def readBytes (hashedTS : Bool) (r : ReadMessage) : Bytes :=
  r.key ++ versionBytes hashedTS r.readtime r.hashedReadtime

def predicateBytes (hashedTS : Bool) (p : ReadPredicate) : Bytes :=
  p.tableName ++ versionBytes hashedTS p.tableVersion p.hashedTableVersion ++
    p.instantiations.flatten.flatten

def groupMetaBytes (hashedTS : Bool) (gm : GroupId × QueryGroupMeta) : Bytes :=
  le64 gm.1 ++
    match gm.2.readSetHash with
    | some h => h
    | none =>
      let rs := gm.2.queryReadSet.getD {}
      rs.readSet.flatMap (readBytes hashedTS) ++ rs.deps.flatMap (·.preparedTxnDigest) ++
        rs.readPredicates.flatMap (predicateBytes hashedTS)

def queryBytes (hashedTS : Bool) (q : QueryResultMetaData) : Bytes :=
  q.queryId ++ le64 q.retryVersion ++ q.groupMeta.flatMap (groupMetaBytes hashedTS)

def rowBytes (r : RowUpdates) : Bytes :=
  (match r.deletion with
    | some d => [if d then 1 else 0]
    | none => []) ++ r.columnValues.flatten

/-- Table writes sorted by table name: a protobuf map has no order of its own. -/
def tableWritesBytes (tw : List (Bytes × TableWrite)) : Bytes :=
  (tw.insertionSort fun a b => ¬ b.1 < a.1).flatMap fun t => t.1 ++ t.2.rows.flatMap rowBytes

def transactionBytes (txn : Transaction) (hashedTS hashEndorsements : Bool) : Bytes :=
  le64 txn.clientId ++ le64 txn.clientSeqNum ++ txn.involvedGroups.flatMap le64 ++
    txn.readSet.flatMap (readBytes hashedTS) ++
    txn.writeSet.flatMap (fun w => w.key ++ w.value.getD []) ++
    txn.deps.flatMap (·.preparedTxnDigest) ++
    (if hashedTS then txn.hashedTimestamp else timestampBytes txn.timestamp) ++
    txn.querySet.flatMap (queryBytes hashedTS) ++
    txn.readPredicates.flatMap (predicateBytes hashedTS) ++
    tableWritesBytes txn.tableWrites ++
    (if hashEndorsements then (txn.endorsements.map serializeSignedMessages).getD [] else []) ++
    txn.liftKeys.flatten

def transactionDigest (H : HashFn) (txn : Transaction)
    (hashDigest hashedTS hashEndorsements : Bool) : Digest :=
  if hashDigest then H (transactionBytes txn hashedTS hashEndorsements)
  else le64 txn.clientId ++ le64 txn.clientSeqNum

def computePolicyDigest (H : HashFn) (txn : Transaction) : Digest :=
  if txn.policyVersions.length = 0 then []
  else H (txn.policyVersions.flatMap fun pv => pv.policyId ++ timestampBytes pv.timestamp)

/-- `txnDigest` bound to the policy versions of `txn`; unchanged when there are none. -/
def policyVersionDigest (H : HashFn) (txn : Transaction) (txnDigest : Digest) : Digest :=
  if txn.policyVersions.length = 0 then txnDigest
  else H (txnDigest ++ computePolicyDigest H txn)

/-! ## What the digest covers -/

theorem transactionDigest_noEndorsements (H : HashFn) {txn : Transaction}
    (h : txn.endorsements.getD [] = []) (hashDigest hashedTS he : Bool) :
    transactionDigest H txn hashDigest hashedTS he =
      transactionDigest H txn hashDigest hashedTS false := by
  have hs : (txn.endorsements.map serializeSignedMessages).getD [] = [] := by
    cases he : txn.endorsements with
    | none => rfl
    | some ms =>
      rw [he] at h
      simp only [Option.getD_some] at h
      simp [h, serializeSignedMessages]
  simp [transactionDigest, transactionBytes, hs]

theorem transactionDigest_annotated (H : HashFn) (txn : Transaction) (m : Option ReadSet)
    (ps : List ReadMessage) (hashDigest hashedTS he : Bool) :
    transactionDigest H { txn with mergedReadSet := m, implicitPolicyReads := ps }
        hashDigest hashedTS he =
      transactionDigest H txn hashDigest hashedTS he := rfl

/-! ## Predicates that are taken out -/

def QueryResultMetaData.takePredicates (g : GroupId) (q : QueryResultMetaData) :
    QueryResultMetaData :=
  { q with groupMeta := q.groupMeta.map fun m => if m.1 = g then (m.1, { m.2 with
      queryReadSet := m.2.queryReadSet.map fun rs => { rs with readPredicates := [] } }) else m }

/-- What is left of a transaction when, with cached read sets, `mergeTxReadSets` has moved the
predicates out of the read sets that its first `k` queries carry for the replica's group. -/
def Transaction.takePredicates (g : GroupId) (k : Nat) (txn : Transaction) : Transaction :=
  { txn with
    querySet := (txn.querySet.take k).map (·.takePredicates g) ++ txn.querySet.drop k }

/-- There are no predicates in the read sets that are hashed. -/
def Transaction.NoPredicates (txn : Transaction) : Prop :=
  ∀ q ∈ txn.querySet, ∀ m ∈ q.groupMeta, m.2.readSetHash = none →
    (m.2.queryReadSet.getD {}).readPredicates = []
deriving Decidable

theorem queryBytes_takePredicates {g : GroupId} {q : QueryResultMetaData} (hashedTS : Bool)
    (h : ∀ m ∈ q.groupMeta, m.2.readSetHash = none →
      (m.2.queryReadSet.getD {}).readPredicates = []) :
    queryBytes hashedTS (q.takePredicates g) = queryBytes hashedTS q := by
  have hgroups : (q.takePredicates g).groupMeta.flatMap (groupMetaBytes hashedTS) =
      q.groupMeta.flatMap (groupMetaBytes hashedTS) := by
    rw [QueryResultMetaData.takePredicates, List.flatMap_map]
    refine List.flatMap_congr fun m hm => ?_
    split_ifs
    · unfold groupMetaBytes
      cases hhash : m.2.readSetHash with
      | some _ => rfl
      | none =>
        have hnone := h m hm hhash
        cases hrs : m.2.queryReadSet with
        | none => rfl
        | some rs => simp_all
    · rfl
  exact congrArg (q.queryId ++ le64 q.retryVersion ++ ·) hgroups

theorem transactionDigest_takePredicates (H : HashFn) {txn : Transaction} (g : GroupId) (k : Nat)
    (hashDigest hashedTS he : Bool) (h : hashDigest = true → txn.NoPredicates) :
    transactionDigest H (txn.takePredicates g k) hashDigest hashedTS he =
      transactionDigest H txn hashDigest hashedTS he := by
  unfold transactionDigest
  split_ifs with hhash
  · have hqueries : (txn.takePredicates g k).querySet.flatMap (queryBytes hashedTS) =
        txn.querySet.flatMap (queryBytes hashedTS) := by
      conv_rhs => rw [← List.take_append_drop k txn.querySet, List.flatMap_append]
      rw [Transaction.takePredicates, List.flatMap_append, List.flatMap_map]
      refine congrArg (· ++ _) (List.flatMap_congr fun q hq => ?_)
      exact queryBytes_takePredicates hashedTS (h hhash q (List.mem_of_mem_take hq))
    unfold transactionBytes
    rw [hqueries]
    rfl
  · rfl

end Sintr
