import Sintr.Cert.Proof

/-!
# Evidence for forwarded reads

A client forwards what its transaction read to the clients that validate it. A read that enters the
read set comes with evidence: the signatures of replicas that prepared the write, or a write that a
replica signed together with the commit proof of the transaction that made it.

* `validateDependency`, `validateTransactionWrite`: the two kinds of evidence.
* `readSigHelper`: the check that a validating client makes. A failed assertion stops the client.
* `readSigHelper_accept`: what was checked of an accepted message.
-/

namespace Sintr.Client

open Quorum

/-! ## Forwarded reads -/

/-- A version: a timestamp, or the digest of one where timestamps are hidden. -/
inductive Version where
  | timestamp (ts : Timestamp)
  | hashed (digest : Bytes)
  deriving DecidableEq

namespace Version

/-- The timestamp field; an unset one differs from every timestamp. -/
def timestamp? : Option Version → Option Timestamp
  | some (timestamp ts) => some ts
  | _ => none

def hashed? : Option Version → Option Bytes
  | some (hashed digest) => some digest
  | _ => none

end Version

structure Write where
  key : Option Key := none
  committedValue : Option Bytes := none
  committedTs : Option Version := none
  preparedValue : Option Bytes := none
  preparedTs : Option Version := none
  preparedTxnDigest : Option Digest := none
  deriving DecidableEq

structure ForwardedDep where
  write : Write
  writeSigs : List SignedMessage := []
  involvedGroup : GroupId
  deriving DecidableEq

structure ForwardReadResult where
  key : Key
  value : Bytes
  ts : Option Version := none
  dep : Option ForwardedDep := none
  tableName : Bytes := []
  addReadset : Bool := false
  deriving DecidableEq

structure ForwardReadResultMessage where
  result : ForwardReadResult
  proof : Option CommittedProof := none
  write : Option (Write ⊕ SignedMessage) := none
  deriving DecidableEq

structure ValidationEnv extends Env where
  clientCheckEvidence : Bool := true
  parallelQuerySigsCheck : Bool := false
  readDepSize : Nat
  verifyData : ProcessId → Bytes → Bytes → Bool
  parseWrite : Bytes → Write

/-! ## The checks -/

section
variable (venv : ValidationEnv)

def Write.samePrepared (v w : Write) : Bool :=
  v.preparedValue.getD [] == w.preparedValue.getD [] &&
    (Version.timestamp? v.preparedTs).getD Timestamp.zero ==
      (Version.timestamp? w.preparedTs).getD Timestamp.zero &&
    v.preparedTxnDigest.getD [] == w.preparedTxnDigest.getD []

def checkWriteSigs (write : Write) : List SignedMessage → Verdict
  | [] => .accept
  | sig :: sigs =>
    if !(venv.parseWrite sig.data).samePrepared write then .panic
    else if !venv.verifyData sig.processId sig.data sig.signature then .reject
    else checkWriteSigs write sigs

def validateDependency (dep : ForwardedDep) : Verdict :=
  if dep.writeSigs.length < venv.readDepSize then .reject
  else checkWriteSigs venv dep.write dep.writeSigs

/-- The transaction wrote the value at the timestamp; of several writes the first is compared. -/
def writesValue (txn : Transaction) (key : Key) (val : Bytes) (timestamp : Timestamp)
    (tsDigest : Bytes) : Bool :=
  (if tsDigest = [] then decide (txn.timestamp = timestamp)
    else decide (txn.hashedTimestamp = tsDigest)) &&
  match txn.writeSet.find? fun w => decide (w.key = key) with
  | some w => decide (w.value.getD [] = val)
  | none => false

def validateTransactionWrite (proof : CommittedProof) (d : Digest) (key : Key) (val : Bytes)
    (timestamp : Timestamp) (tsDigest : Bytes) : Verdict :=
  if proof.txn.isGenesis then .accept
  else
    let signed :=
      if venv.params.signedMessages then validateCommittedProof venv.toEnv proof d else .accept
    match signed with
    | .accept => if writesValue proof.txn key val timestamp tsDigest then .accept else .reject
    | v => v

/-- The write that a message without a dependency is about, if it is signed where it has to be. -/
def reportedWrite (msg : ForwardReadResultMessage) : Option Write :=
  if venv.params.validateProofs && venv.params.signedMessages then
    match msg.write with
    | some (.inr signed) =>
      if venv.verifyData signed.processId signed.data signed.signature then
        some (venv.parseWrite signed.data)
      else none
    | some (.inl w) => if w.committedValue.isSome then none else some w
    | none => some {}
  else
    match msg.write with
    | some (.inl w) => some w
    | _ => some {}

def checkCommitted (msg : ForwardReadResultMessage) (w : Write) : Verdict :=
  if venv.params.validateProofs && w.committedValue.isSome && w.committedTs.isSome then
    match msg.proof with
    | none => .reject
    | some proof =>
      validateTransactionWrite venv proof (venv.toEnv.digest proof.txn) (w.key.getD [])
        (w.committedValue.getD []) ((Version.timestamp? w.committedTs).getD Timestamp.zero)
        ((Version.hashed? w.committedTs).getD [])
  else .accept

/-- The assertions at the end: the write is of the forwarded key, value and version. -/
def matchesWrite (r : ForwardReadResult) (w : Write) : Bool :=
  if r.value = [] then w.key.isNone
  else
    let value := if r.dep.isSome then w.preparedValue else w.committedValue
    let ts := if r.dep.isSome then w.preparedTs else w.committedTs
    w.key.getD [] == r.key && value.getD [] == r.value &&
      if venv.params.hideTimestamps then
        (Version.hashed? ts).getD [] == (Version.hashed? r.ts).getD []
      else Version.timestamp? ts == Version.timestamp? r.ts

def readSigHelper (msg : ForwardReadResultMessage) : Verdict :=
  match msg.result.dep with
  | some dep =>
    let verdict :=
      if venv.params.validateProofs && venv.params.signedMessages then validateDependency venv dep
      else .accept
    match verdict with
    | .accept => if matchesWrite venv msg.result dep.write then .accept else .panic
    | v => v
  | none =>
    match reportedWrite venv msg with
    | none => .reject
    | some w =>
      match checkCommitted venv msg w with
      | .accept => if matchesWrite venv msg.result w then .accept else .panic
      | v => v

end

theorem readSigHelper_accept {venv : ValidationEnv} {msg : ForwardReadResultMessage}
    (h : readSigHelper venv msg = .accept) :
    (∃ dep, msg.result.dep = some dep ∧ matchesWrite venv msg.result dep.write = true ∧
      ((venv.params.validateProofs && venv.params.signedMessages) = true →
        validateDependency venv dep = .accept)) ∨
    msg.result.dep = none ∧ ∃ w, reportedWrite venv msg = some w ∧
      checkCommitted venv msg w = .accept ∧ matchesWrite venv msg.result w = true := by
  unfold readSigHelper at h
  cases hdep : msg.result.dep with
  | some dep =>
    simp only [hdep] at h
    refine .inl ⟨dep, rfl, ?_⟩
    split at h
    · rename_i hverdict
      split at h
      · rename_i hmatch
        refine ⟨hmatch, fun hsigned => ?_⟩
        rwa [if_pos hsigned] at hverdict
      · cases h
    · rename_i hverdict
      exact absurd h hverdict
  | none =>
    simp only [hdep] at h
    refine .inr ⟨rfl, ?_⟩
    split at h
    · cases h
    · rename_i w hw
      split at h
      · rename_i hcommitted
        split at h
        · rename_i hmatch
          exact ⟨w, hw, hcommitted, hmatch⟩
        · cases h
      · rename_i hverdict
        exact absurd h hverdict

end Sintr.Client
