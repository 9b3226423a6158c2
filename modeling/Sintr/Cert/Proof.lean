import Sintr.Cert.Signatures

/-!
# Commit proofs and conflicts

A commit proof is a transaction with the signatures that committed it: the Phase1 votes of all
replicas of all its groups, or the Phase2 replies of its logging group. It is validated by whoever
gets it, without a vote of one's own. A proof of a transaction that conflicts with another is enough
to abort the other.
-/

namespace Sintr

open Quorum

variable (env : Env)

/-- The loader writes its data with a transaction that no client has sent. -/
def Transaction.isGenesis (txn : Transaction) : Bool := txn.clientId == 0 && txn.clientSeqNum == 0

/-- `ValidateCommittedProof`; a genesis transaction needs no proof. -/
def validateCommittedProof (proof : CommittedProof) (d : Digest) : Verdict :=
  if proof.txn.isGenesis then .accept
  else
    match proof.sigs with
    | some (.p1 gs) =>
      if validateP1Replies env .commit true proof.txn d gs none then .accept else .reject
    | some (.p2 gs) => validateP2Replies env .commit (proof.p2View.getD 0) proof.txn d gs none
    | none => .reject

def asyncValidateCommittedProof (schedule : List Nat) (proof : CommittedProof) (d : Digest) :
    Verdict :=
  if proof.txn.isGenesis then .accept
  else
    match proof.sigs with
    | some (.p1 gs) => asyncValidateP1Replies env schedule .commit true proof.txn d gs none
    | some (.p2 gs) =>
      asyncValidateP2Replies env schedule .commit (proof.p2View.getD 0) proof.txn d gs none
    | none => .reject

/-! ## Conflicts -/

def readsWritten (a b : Transaction) : Bool :=
  a.readSet.any fun r => b.writeSet.any fun w => r.key == w.key

def governingPolicy (w : WriteMessage) : Bytes := env.policyIdFunction w.key (w.value.getD [])

def policiesConflict (a b : Transaction) : Bool :=
  b.writeSet.any fun wb => a.writeSet.any fun wa =>
    match a.policyType, b.policyType with
    | .policyIdPolicy, .policyIdPolicy => wb.key == wa.key
    | .none, .policyIdPolicy => governingPolicy env wa == wb.key
    | .policyIdPolicy, .none => governingPolicy env wb == wa.key
    | .none, .none => false

/-- `TransactionsConflict` for a committed `a`: no timestamp is compared, and with a query anything
may conflict. If it finds nothing the server stops (`false`). -/
def transactionsConflict (a b : Transaction) : Bool :=
  readsWritten a b || readsWritten b a ||
    (a.mergedReadSet.getD {}).readSet.length > a.readSet.length ||
    b.querySet.length > 0 || a.querySet.length > 0 || policiesConflict env a b

/-- `ValidateCommittedConflict`: `d` is the digest of the committed transaction. -/
def validateCommittedConflict (proof : CommittedProof) (d : Digest) (txn : Transaction) : Verdict :=
  if !transactionsConflict env proof.txn txn then .panic
  else if env.params.signedMessages then validateCommittedProof env proof d
  else .accept

/-- `asyncValidateCommittedConflict`, which does not call back without signatures. -/
def asyncValidateCommittedConflict (schedule : List Nat) (proof : CommittedProof) (d : Digest)
    (txn : Transaction) : Verdict :=
  if !transactionsConflict env proof.txn txn then .panic
  else if env.params.signedMessages then asyncValidateCommittedProof env schedule proof d
  else .silent

end Sintr
