import Mathlib.Data.Prod.Lex
import Mathlib.Data.List.Basic

/-!
# Transactions and the messages they travel in

The data of the commit protocol, one structure for each protobuf message that a modelled function
reads. Byte strings (keys, values, digests, policy ids) are lists of bytes; a `uint64` that is
hashed or compared is a `UInt64`; an `optional` field whose presence the code tests is an `Option`.

* `Transaction`: the read set, write set, dependencies, queries and endorsements of one transaction.
-/

namespace Sintr

abbrev Bytes := List UInt8

instance : LawfulBEq Bytes := inferInstanceAs (LawfulBEq (List UInt8))

abbrev Digest := Bytes

abbrev Key := Bytes

/-- The identity of a client or of a replica (`group * n + index`). -/
abbrev ProcessId := UInt64

/-- The index of a replica group (a shard); an `int64` in two's complement. -/
abbrev GroupId := UInt64

/-! ## Timestamps -/

/-- A version: the transaction's time, ties broken by the client id. -/
structure Timestamp where
  timestamp : UInt64
  id : UInt64
  deriving DecidableEq, Repr, Inhabited

namespace Timestamp

def zero : Timestamp := ⟨0, 0⟩

def key (t : Timestamp) : Nat ×ₗ Nat := toLex (t.timestamp.toNat, t.id.toNat)

theorem key_injective : Function.Injective key := by
  rintro ⟨a, b⟩ ⟨c, d⟩ h
  simp only [key, EmbeddingLike.apply_eq_iff_eq, Prod.mk.injEq] at h
  rw [UInt64.toNat_inj.1 h.1, UInt64.toNat_inj.1 h.2]

instance : LinearOrder Timestamp := LinearOrder.lift' key key_injective

theorem lt_iff {a b : Timestamp} :
    a < b ↔ a.timestamp < b.timestamp ∨ a.timestamp = b.timestamp ∧ a.id < b.id := by
  change key a < key b ↔ _
  simp [key, Prod.Lex.toLex_lt_toLex, UInt64.lt_iff_toNat_lt, UInt64.toNat_inj]

end Timestamp

/-! ## Signatures -/

structure Signature where
  processId : ProcessId
  signature : Bytes
  deriving DecidableEq, Repr, Inhabited

/-- Signatures by replica group, in the iteration order of the protobuf map. -/
abbrev GroupedSignatures := List (GroupId × List Signature)

structure SignedMessage where
  data : Bytes
  processId : ProcessId
  signature : Bytes
  deriving DecidableEq, Repr, Inhabited

/-! ## Reads, writes and queries -/

structure ReadMessage where
  key : Key
  readtime : Timestamp := Timestamp.zero
  isTableColVersion : Bool := false
  hashedReadtime : Option Bytes := none
  deriving DecidableEq, Repr, Inhabited

/-- The row of a table write; `deletion` is present only on some rows. -/
structure RowUpdates where
  deletion : Option Bool := none
  columnValues : List Bytes := []
  deriving DecidableEq, Repr, Inhabited

structure WriteMessage where
  key : Key
  value : Option Bytes := none
  isTableColVersion : Bool := false
  /-- Where the row of this write is in the table write; not covered by the digest. -/
  rowIdx : Option Int := none
  deriving DecidableEq, Repr, Inhabited

structure TableWrite where
  rows : List RowUpdates := []
  deriving DecidableEq, Repr, Inhabited

structure Dependency where
  preparedTxnDigest : Digest
  preparedTimestamp : Timestamp := Timestamp.zero
  involvedGroup : GroupId
  deriving DecidableEq, Repr, Inhabited

structure ReadPredicate where
  tableName : Bytes
  tableVersion : Timestamp := Timestamp.zero
  instantiations : List (List Bytes) := []
  hashedTableVersion : Option Bytes := none
  deriving DecidableEq, Repr, Inhabited

structure ReadSet where
  readSet : List ReadMessage := []
  deps : List Dependency := []
  readPredicates : List ReadPredicate := []
  deriving DecidableEq, Repr, Inhabited

structure QueryGroupMeta where
  readSetHash : Option Bytes := none
  queryReadSet : Option ReadSet := none
  deriving DecidableEq, Repr, Inhabited

structure QueryResultMetaData where
  queryId : Bytes
  retryVersion : UInt64
  groupMeta : List (GroupId × QueryGroupMeta) := []
  deriving DecidableEq, Repr, Inhabited

structure PolicyVersion where
  policyId : Bytes
  timestamp : Timestamp
  deriving DecidableEq, Repr, Inhabited

/-! ## Transactions -/

/-- What a transaction changes: rows (`none`), or the policies of policy ids. -/
inductive TxnPolicyType where
  | none
  | policyIdPolicy
  deriving DecidableEq, Repr, Inhabited

/-- A transaction as clients propose it and replicas annotate it. -/
structure Transaction where
  clientId : UInt64
  clientSeqNum : UInt64
  involvedGroups : List GroupId := []
  readSet : List ReadMessage := []
  writeSet : List WriteMessage := []
  deps : List Dependency := []
  timestamp : Timestamp := Timestamp.zero
  querySet : List QueryResultMetaData := []
  tableWrites : List (Bytes × TableWrite) := []
  readPredicates : List ReadPredicate := []
  /-- Set by the server once the query read sets are merged; not part of the transaction. -/
  mergedReadSet : Option ReadSet := none
  policyType : TxnPolicyType := .none
  /-- Set by the server for the policies the check reads; not part of the transaction. -/
  implicitPolicyReads : List ReadMessage := []
  endorsements : Option (List SignedMessage) := none
  hashedTimestamp : Bytes := []
  liftKeys : List Key := []
  policyVersions : List PolicyVersion := []
  /-- Set by the server in Phase1 to the digest; not part of the transaction. -/
  txndigest : Option Digest := none
  deriving DecidableEq, Repr, Inhabited

/-- `ConcurrencyControl::Result`; no code path returns RETRY. -/
inductive CCResult where
  | commit
  | abort
  | abstain
  | wait
  | ignore
  deriving DecidableEq, Repr, Inhabited

inductive CommitDecision where
  | commit
  | abort
  deriving DecidableEq, Repr, Inhabited

/-- The signatures of a certificate: a fast quorum of Phase1 votes, or Phase2 replies. -/
inductive CertSigs where
  | p1 (sigs : GroupedSignatures)
  | p2 (sigs : GroupedSignatures)
  deriving DecidableEq, Repr, Inhabited

/-- A transaction with the signatures that prove its commit. -/
structure CommittedProof where
  txn : Transaction
  sigs : Option CertSigs := none
  p2View : Option UInt64 := none
  deriving DecidableEq, Repr, Inhabited

end Sintr
