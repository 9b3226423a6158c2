import Sintr.Cert.Proof
import Sintr.Mvtso.State

/-!
# The concurrency-control check

`doMVTSOOCCCheck` decides a replica's vote on a transaction by multiversion timestamp ordering:
nobody may have overwritten what the transaction read, and it may not overwrite what transactions
with a later timestamp have read. If it passes, the transaction is prepared and waits for those it
depends on.

Here endorsements have been checked before (`parallelEndorsementCheck` is off), so preparing is part
of the check. What other components contribute is an `Input`. With `hideTimestamps` the hashed times
are taken to match, since the server stops if they do not.
-/

namespace Sintr.Mvtso

/-- A result with the committed transaction, or the prepared one, that it is due to. -/
structure Result where
  result : CCResult
  conflict : Option CommittedProof := none
  abstainConflict : Option Transaction := none
  deriving DecidableEq

structure Input where
  highWatermark : Timestamp
  monotonic : Bool := true
  rts : Key → Bool := fun _ => false
  /-- `CheckPredicates`, and the dependencies it adds. -/
  predicates : CCResult := .commit
  dynamicDeps : List Digest := []
  ongoing : Bool := true

namespace State

variable (env : Env) (s : State)

/-! ## Reads -/

/-- A prepared write between the version that was read and `ts`. A deletion is no exception: the
code that looks for one does not set its flag. -/
def preparedWriteConflict (ts : Timestamp) (r : ReadMessage) : Option Result :=
  match (s.preparedWrites r.key).latestLT ts with
  | none => none
  | some (w, txn) =>
    if r.readtime < w then some { result := .abstain, abstainConflict := some txn } else none

/-- A write between the version that was read and `ts`. If the last committed version is a deletion
and no row was read, the prepared writes are not looked at. -/
def readConflict (ts : Timestamp) (r : ReadMessage) : Option Result :=
  match (s.store r.key).latestLT ts with
  | none => s.preparedWriteConflict ts r
  | some (w, v) =>
    if r.readtime = .zero ∧ v.val = deletion then none
    else if r.readtime < w then
      some { result := .abort, conflict := if env.params.validateProofs then v.proof else none }
    else s.preparedWriteConflict ts r

def checkReads (ts : Timestamp) (readSet : List ReadMessage) : Option Result :=
  (readSet.filter (ownedRead env)).findSome? (s.readConflict env ts)

/-! ## Writes -/

/-- A read at `readtime` conflicts with the write `w` at `ts`: it read an older version, and `w` is
not the deletion of a row that was not there. -/
def overwrites (ts : Timestamp) (w : WriteMessage) (readtime : Timestamp) : Bool :=
  readtime < ts && !(readtime == .zero && w.value.getD [] == deletion)

/-- A committed read that conflicts; `reads` starts with the latest reader. -/
def committedReadConflict (ts : Timestamp) (w : WriteMessage) :
    List ((Timestamp ×ₗ Timestamp) × Option CommittedProof) → Option Result
  | [] => none
  | (r, proof) :: reads =>
    if (ofLex r).1 ≤ ts then none
    else if overwrites ts w (ofLex r).2 then
      some { result := .abort, conflict := if env.params.validateProofs then proof else none }
    else committedReadConflict ts w reads

/-- The version that a prepared transaction read: only its own read set is searched, for the first
read of the key. -/
def preparedReadtime (k : Key) (txn : Transaction) : Option Timestamp :=
  (txn.readSet.find? (·.key == k)).map (·.readtime)

/-- A prepared transaction with a later timestamp read what `w` overwrites. -/
def preparedReadConflict (ts : Timestamp) (w : WriteMessage) : Bool :=
  (s.preparedReads w.key).any fun txn =>
    ts < txn.timestamp && (preparedReadtime w.key txn).any (overwrites ts w)

/-- `FindPreparedVersion` for policies: the last prepared one up to `ts`, if it is later than what
is committed. -/
def findPreparedVersion (policyId : Bytes) (ts : Timestamp) (committed : Option Timestamp) :
    Option Transaction :=
  ((s.preparedWrites policyId).entries.filter fun e =>
    e.1 ≤ ts && !committed.any (e.1 ≤ ·) && e.2.policyType == .policyIdPolicy).getLast?.map (·.2)

/-- `policyCheckHelper`: the version of the policy that a write at `ts` is governed by. -/
def policyCheckHelper (policyId : Bytes) (ts : Timestamp) : Except Result Timestamp :=
  let committed := ((s.policyStore policyId).latestLE ts).map (·.1)
  match s.findPreparedVersion policyId ts committed with
  | some txn => .error { result := .abstain, abstainConflict := some txn }
  | none =>
    if ((s.policyStore policyId).firstGT ts).isSome then .error { result := .abstain }
    else .ok (committed.getD .zero)

/-- The policy that is read for a write: the one that governs it, or the one that it changes. -/
def policyOf (txn : Transaction) (w : WriteMessage) : Option Bytes :=
  match txn.policyType with
  | .none => if env.params.policyCCC then some (governingPolicy env w) else none
  | .policyIdPolicy => some w.key

def readPolicy (ts : Timestamp) (policyReads : List (Bytes × Timestamp)) (policyId : Bytes) :
    Except Result (List (Bytes × Timestamp)) :=
  if policyId ∈ policyReads.map (·.1) then .ok policyReads
  else do return policyReads ++ [(policyId, ← s.policyCheckHelper policyId ts)]

def readPolicies (txn : Transaction) (policyReads : List (Bytes × Timestamp)) (w : WriteMessage) :
    Except Result (List (Bytes × Timestamp)) :=
  match policyOf env txn w with
  | none => .ok policyReads
  | some policyId => s.readPolicy txn.timestamp policyReads policyId

def writeConflict (i : Input) (ts : Timestamp) (w : WriteMessage) : Option Result :=
  match committedReadConflict env ts w (s.committedReads w.key).entries.reverse with
  | some r => some r
  | none =>
    if s.preparedReadConflict ts w || i.rts w.key then some { result := .abstain } else none

def checkWrite (i : Input) (txn : Transaction) (policyReads : List (Bytes × Timestamp))
    (w : WriteMessage) : Except Result (List (Bytes × Timestamp)) := do
  let policyReads ← s.readPolicies env txn policyReads w
  match s.writeConflict env i txn.timestamp w with
  | some r => .error r
  | none => .ok policyReads

def checkWrites (i : Input) (txn : Transaction) : Except Result (List (Bytes × Timestamp)) :=
  (txn.writeSet.filter (ownedWrite env txn)).foldlM (s.checkWrite env i txn) []

/-! ## Dependencies -/

/-- The dependencies that this replica's group is responsible for. -/
def ownDeps (deps : List Dependency) : List Digest :=
  (deps.filter (·.involvedGroup == env.groupIdx)).map (·.preparedTxnDigest)

def checkDepLocalPresence (deps : List Dependency) : Bool :=
  (ownDeps env deps).all fun d =>
    !s.aborted d && ((s.committed d).isSome || (s.prepared d).isSome)

def depSet (txn : Transaction) : List Dependency := (txn.mergedReadSet.map (·.deps)).getD txn.deps

/-- The dependencies `CheckPredicates` found are added to the merged read set. -/
def addDynamicDeps (txn : Transaction) (deps : List Digest) : Transaction :=
  match deps.filter fun d => d ∉ (mergedSets env txn).deps.map (·.preparedTxnDigest) with
  | [] => txn
  | deps =>
    let merged := txn.mergedReadSet.getD { deps := txn.deps }
    { txn with
      mergedReadSet := some { merged with
        deps := merged.deps ++ deps.map fun d =>
          { preparedTxnDigest := d, involvedGroup := env.groupIdx } } }

/-- `ManageDependencies`: all have committed or aborted. -/
def manageDependencies (txn : Transaction) : Bool :=
  !env.params.depsEnabled || (ownDeps env (depSet txn)).all fun d =>
    (s.committed d).isSome || s.aborted d

def checkDependencies (txn : Transaction) : CCResult :=
  if (depSet txn).all fun dep => dep.involvedGroup != env.groupIdx ||
      (s.committed dep.preparedTxnDigest).isSome && dep.preparedTimestamp ≤ txn.timestamp then
    .commit
  else .abstain

def dependencyResult (txn : Transaction) : CCResult :=
  if s.manageDependencies env txn then s.checkDependencies env txn else .wait

/-! ## The check -/

/-- All checks before `Prepare`; they find the policies that are read. -/
def validate (i : Input) (txn : Transaction) : Except Result (List (Bytes × Timestamp)) :=
  let sets := mergedSets env txn
  if i.highWatermark < txn.timestamp then .error { result := .abstain }
  else if env.params.useSemanticCC && !txn.writeSet.isEmpty && !i.monotonic then
    .error { result := .abstain }
  else
    match s.checkReads env txn.timestamp sets.readSet with
    | some r => .error r
    | none => do
      let policyReads ← s.checkWrites env i txn
      if env.params.validateProofs && env.params.signedMessages && !env.params.verifyDeps &&
          !s.checkDepLocalPresence env sets.deps then
        .error { result := .abstain }
      else if env.params.useSemanticCC && i.predicates != .commit then
        .error { result := i.predicates }
      else .ok policyReads

/-- `DoMVTSOOCCCheck`: a transaction that is prepared already is not checked again. -/
def doMVTSOOCCCheck (txn : Transaction) (i : Input) : State × Result :=
  let d := env.digest txn
  if (s.prepared d).isSome then (s, { result := s.dependencyResult env txn })
  else
    match s.validate env i txn with
    | .error r => (s, r)
    | .ok policyReads =>
      let readSet := (mergedSets env txn).readSet
      let txn := if env.params.useSemanticCC then addDynamicDeps env txn i.dynamicDeps else txn
      let s := if i.ongoing then s.prepare env d txn readSet policyReads else s
      (s, { result := s.dependencyResult env txn })

end State

/-! ## The machine -/

/-- Checks, and the ends of transactions. -/
inductive Event where
  | check (txn : Transaction) (i : Input)
  | commit (txn : Transaction) (sigs : CertSigs) (view : UInt64)
  | commitWithProof (proof : CommittedProof)
  | wakeCommitted (d : Digest) (merged : ReadSet)
  | abort (d : Digest)

def step (env : Env) (s : State) (e : Event) : State :=
  if s.crashed then s
  else
    match e with
    | .check txn i => (s.doMVTSOOCCCheck env txn i).1
    | .commit txn sigs view => s.commit env ⟨txn, State.committedProof env txn sigs view⟩
    | .commitWithProof proof => s.commit env ⟨proof.txn, some proof⟩
    | .wakeCommitted d merged => s.wakeCommitted env d merged
    | .abort d => s.abort env d

def machine (env : Env) : Machine State Event := ⟨step env⟩

/-- The state after loading: there are versions of rows and policies, but no transactions yet. -/
structure Loaded (s : State) : Prop where
  prepared : ∀ d, s.prepared d = none
  committed : ∀ d, s.committed d = none
  aborted : ∀ d, s.aborted d = false
  committedReads : ∀ k, s.committedReads k = .empty
  preparedReads : ∀ k, s.preparedReads k = []
  preparedWrites : ∀ k, s.preparedWrites k = .empty
  crashed : s.crashed = false

end Sintr.Mvtso
