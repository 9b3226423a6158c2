import Sintr.Lib.Machine
import Sintr.Policy.Endorsement

/-!
# The Phase1 state of a replica

The tables a replica keeps while it votes on transactions, the functions that store a vote and
answer clients, and the ones that track dependencies between transactions.

The verdict of the concurrency check is an input here (`CCInput`): every statement about votes
holds whatever the check decides. `tasks` holds the closures handed to other threads; which one
runs next is an input too. `log` is the history of what the replica did, in order.
A failed assertion or a Panic sets `crashed`.
-/

namespace Sintr.Phase1

/-- The vote of a replica on a transaction, and who waits for it. -/
structure P1MetaData where
  hasP1 : Bool := false
  result : CCResult := .commit
  conflict : Option CommittedProof := none
  /-- The request of the original client, while it waits for the result. -/
  subOriginal : Option UInt64 := none
  fallbacksInterested : Bool := false
  deriving Inhabited

/-- What `mergeTxReadSets` finds: the merged set, or that the transaction has to wait or fail. -/
inductive MergeInput where
  | merged (readSet : Option ReadSet)
  | wait
  | abstain
  | ignore

inductive CheckInput where
  | ok
  | abort (conflict : CommittedProof)
  | abstain

structure CCInput where
  merge : MergeInput := .merged none
  check : CheckInput := .ok
  /-- Whether the dependencies carry enough signatures (`VerifyDependencies`). -/
  depsVerified : Bool := true
  /-- The second validity check of `ProcessProposalFB` reads a `Phase1FB` as a `Phase1`. -/
  castCheck : Bool := true

structure Phase1Msg where
  reqId : UInt64
  txn : Transaction
  signer : ProcessId := 0
  signature : Bytes := []
  replicaGossip : Bool := false

structure Phase1FBMsg where
  reqId : UInt64
  txn : Transaction
  signer : ProcessId := 0
  signature : Bytes := []
  clientId : UInt64 := 0

/-- A transaction that waits for queries to be executed. -/
structure WaitingOnQueries where
  reqId : UInt64
  txn : Transaction
  isGossip : Bool

/-- What a replica did, as far as results speak of it. -/
inductive LogEntry where
  | endorsementCheck (txn : Transaction) (digest : Digest)
  | occCheck (txn : Transaction) (digest : Digest)
  | execP1 (txn : Transaction) (digest : Digest)
  | prepare (txn : Transaction) (digest : Digest)
  | buffer (txn : Option Transaction) (digest : Digest) (result : CCResult)
  | reply (txn : Option Transaction) (digest : Digest) (result : CCResult) (reqId : UInt64)
  | fbReply (digest : Digest) (result : CCResult)

/-! ## Asynchronous endorsement checks -/

/-- `AsyncValidatePrepare`: joins the validations of a transaction's endorsements with its
concurrency check. -/
structure AsyncValidatePrepare where
  totalValidations : Nat
  completedValidations : Nat := 0
  endorsers : Endorsers := ∅
  policyClient : PolicyClient := none
  policyLeak : Bool := false
  ccDone : Bool := false
  result : CCResult := .commit
  delayed : Bool := false
  cbDone : Bool := false
  done : Bool := false

/-- How a call ends: nothing yet, a report to `phase1_cb`, or the delayed prepare and then a report.
The flag says that the endorsements were not enough. -/
inductive AsyncAction where
  | none
  | report (result : CCResult) (failEndorsement : Bool)
  | delayedPrepare

namespace AsyncValidatePrepare

def finish (a : AsyncValidatePrepare) : AsyncValidatePrepare × AsyncAction :=
  if a.cbDone then ({ a with done := true }, .none)
  else if 0 ≤ a.policyClient.isSatisfiedInt a.endorsers then
    ({ a with done := true, cbDone := true },
      if a.delayed then .delayedPrepare else .report a.result false)
  else ({ a with done := true, cbDone := true }, .report .abstain true)

def setPolicyLeak (a : AsyncValidatePrepare) : AsyncValidatePrepare × AsyncAction :=
  ({ a with policyLeak := true, done := a.done || a.ccDone, cbDone := true },
    if a.cbDone then .none else .report .abstain true)

def addEndorser (a : AsyncValidatePrepare) (valid : Bool) (endorserId : ProcessId) :
    AsyncValidatePrepare :=
  { a with
    endorsers := if valid then insert endorserId a.endorsers else a.endorsers
    completedValidations := a.completedValidations + 1 }

def addCompletedValidation (a : AsyncValidatePrepare) (valid : Bool) (endorserId : ProcessId) :
    AsyncValidatePrepare × AsyncAction :=
  let a := a.addEndorser valid endorserId
  if a.ccDone && a.completedValidations == a.totalValidations then a.finish
  else if a.completedValidations == a.totalValidations &&
      a.policyClient.isSatisfiedInt a.endorsers < 0 then
    ({ a with cbDone := true }, .report .abstain true)
  else (a, .none)

def setCCResult (a : AsyncValidatePrepare) (result : CCResult) (delayed : Bool) :
    AsyncValidatePrepare × AsyncAction :=
  let a := { a with ccDone := true, result := result, delayed := delayed }
  if a.policyLeak then ({ a with done := true }, .none)
  else if a.completedValidations == a.totalValidations then a.finish
  else if result = .abstain ∨ result = .abort then
    ({ a with cbDone := true }, .report result false)
  else (a, .none)

end AsyncValidatePrepare

structure AsyncCheck where
  avp : AsyncValidatePrepare
  reqId : UInt64
  txn : Transaction
  digest : Digest
  isGossip : Bool
  conflict : Option CommittedProof := none
  callPrepare : Bool := false

/-! ## Closures -/

/-- Closures handed to other threads. -/
inductive Task where
  /-- `ProcessProposal` on a worker: check the client's signature, then `TryPrepare` on main. -/
  | checkProposal (msg : Phase1Msg) (digest oldDigest : Digest) (isGossip : Bool)
  | tryPrepare (reqId : UInt64) (txn : Transaction) (digest oldDigest : Digest) (isGossip : Bool)
  | dispatchedCheck (reqId : UInt64) (txn : Transaction) (digest checkDigest : Digest)
      (isGossip : Bool)
  | validateEndorsement (check : Nat) (endorsement : SignedMessage) (checkDigest : Digest)
  | concurrencyCheck (check : Nat)
  | checkProposalFB (msg : Phase1FBMsg) (digest : Digest)
  | tryExec (msg : Phase1FBMsg) (digest : Digest)

/-- The tables of a replica that Phase1 uses. -/
structure State where
  ongoing : Digest → Option Transaction := fun _ => none
  prepared : Digest → Option (Timestamp × Transaction) := fun _ => none
  committed : Digest → Option CommittedProof := fun _ => none
  aborted : Digest → Bool := fun _ => false
  p1MetaData : Digest → Option P1MetaData := fun _ => none
  hasP2 : Digest → Bool := fun _ => false
  writebackMessages : Digest → Bool := fun _ => false
  ooMessages : Digest → Bool := fun _ => false
  suppliedSync : Digest → Bool := fun _ => false
  interestedClients : Digest → List UInt64 := fun _ => []
  dependents : Digest → List Digest := fun _ => []
  waitingDependencies : Digest → Option (List Digest) := fun _ => none
  missingQueries : Digest → Option WaitingOnQueries := fun _ => none
  policyStore : PolicyStore := fun _ => OrdMap.empty
  asyncChecks : List AsyncCheck := []
  tasks : List Task := []
  log : List LogEntry := []
  crashed : Bool := false

namespace State

def panic (s : State) : State := { s with crashed := true }

def record (s : State) (e : LogEntry) : State := { s with log := s.log ++ [e] }

def setP1MetaData (s : State) (d : Digest) (m : P1MetaData) : State :=
  { s with p1MetaData := Function.update s.p1MetaData d (some m) }

def push (s : State) (t : Task) : State := { s with tasks := s.tasks ++ [t] }

/-! ## Answers and stored votes -/

/-- `Clean`: forget a transaction; a hard clean also marks it aborted and drops its vote. -/
def clean (s : State) (d : Digest) (hard : Bool) : State :=
  { s with
    aborted := if hard && (s.ongoing d).isSome then Function.update s.aborted d true else s.aborted
    ongoing := Function.update s.ongoing d none
    prepared := Function.update s.prepared d none
    interestedClients := Function.update s.interestedClients d []
    p1MetaData := if hard then Function.update s.p1MetaData d none else s.p1MetaData
    missingQueries := Function.update s.missingQueries d none }

/-- `SendPhase1Reply`. An ABORT vote asserts that it has a conflict to show. -/
def sendPhase1Reply (env : Env) (s : State) (reqId : UInt64) (result : CCResult)
    (conflict : Option CommittedProof) (txn : Option Transaction) (d : Digest) : State :=
  if env.params.validateProofs ∧ result = .abort ∧ conflict.isNone then s.panic
  else s.record (.reply txn d result reqId)

/-- The caller of `BufferP1Result`: the original client, a fallback, or a finished dependency. -/
inductive Caller where
  | original
  | fallback
  | dependency
  deriving DecidableEq

/-- What `BufferP1Result` hands back to its caller. -/
structure Buffered where
  state : State
  /-- The result to use: a final result stored earlier wins. -/
  result : CCResult
  subOriginal : Option UInt64
  wakeFallbacks : Bool

def mergeResult (m : P1MetaData) (result : CCResult) (conflict : Option CommittedProof) :
    P1MetaData × CCResult :=
  if !m.hasP1 then ({ m with hasP1 := true, result := result, conflict := conflict }, result)
  else if result ≠ .wait then
    if m.result ≠ .wait then (m, m.result)
    else ({ m with result := result, conflict := conflict }, result)
  else (m, result)

/-- Clients that wait for the result are remembered on WAIT and released on a final result. -/
def subscribe (m : P1MetaData) (result : CCResult) (reqId : UInt64) (isGossip : Bool)
    (caller : Caller) : P1MetaData :=
  if !isGossip ∧ result = .wait then
    match caller with
    | .original => { m with subOriginal := some reqId }
    | .fallback => { m with fallbacksInterested := true }
    | .dependency => m
  else m

def bufferP1Result (s : State) (result : CCResult) (conflict : Option CommittedProof)
    (txn : Option Transaction) (d : Digest) (reqId : UInt64) (isGossip : Bool) (caller : Caller) :
    Buffered :=
  if result = .ignore then ⟨s.clean d true, .ignore, none, false⟩
  else
    let r := mergeResult ((s.p1MetaData d).getD {}) result conflict
    let m := subscribe r.1 r.2 reqId isGossip caller
    if r.2 = .wait then
      ⟨(s.setP1MetaData d m).record (.buffer txn d m.result), r.2, none, false⟩
    else
      ⟨(s.setP1MetaData d { m with subOriginal := none, fallbacksInterested := false }).record
        (.buffer txn d m.result), r.2, m.subOriginal, m.fallbacksInterested⟩

/-- A certificate for `d` can be forwarded instead of a vote. -/
def hasWriteback (s : State) (d : Digest) : Bool := (s.committed d).isSome || s.writebackMessages d

/-- `WakeAllInterestedFallbacks`: the certificate if there is one, the vote otherwise. -/
def wakeAllInterestedFallbacks (s : State) (d : Digest) (result : CCResult) : State :=
  if s.interestedClients d = [] then s
  else if s.hasWriteback d then
    { s with interestedClients := Function.update s.interestedClients d [] }
  else s.record (.fbReply d result)

def handlePhase1CB (env : Env) (s : State) (reqId : UInt64) (result : CCResult)
    (conflict : Option CommittedProof) (d : Digest) (txn : Transaction) (isGossip : Bool) : State :=
  if result = .ignore then s
  else
    let b := s.bufferP1Result result conflict (some txn) d reqId isGossip .original
    let s₁ := if (b.result ≠ .wait ∧ !isGossip) ∨ b.subOriginal.isSome
      then b.state.sendPhase1Reply env reqId b.result conflict (some txn) d else b.state
    if b.wakeFallbacks ∧ !s₁.crashed then s₁.wakeAllInterestedFallbacks d b.result else s₁

/-! ## Dependencies -/

def localDeps (env : Env) (txn : Transaction) : List Dependency :=
  ((txn.mergedReadSet.map (·.deps)).getD txn.deps).filter (·.involvedGroup == env.groupIdx)

/-- `RegisterWaitingTxn` for one dependency. -/
def addDependent (f : Digest → List Digest) (d dep : Digest) : Digest → List Digest :=
  Function.update f dep (if d ∈ f dep then f dep else f dep ++ [d])

/-- `ManageDependencies`: whether all dependencies are finished; if not, wait for them. -/
def manageDependencies (env : Env) (s : State) (d : Digest) (txn : Transaction) : Bool × State :=
  if !env.params.depsEnabled then (true, s)
  else
    let missing := ((localDeps env txn).map (·.preparedTxnDigest)).filter fun dep =>
      (s.committed dep).isNone && !s.aborted dep
    if missing = [] then (true, s)
    else if (s.waitingDependencies d).isSome then (false, s)
    else (false, { s with
      dependents := missing.foldl (fun f dep => addDependent f d dep) s.dependents
      waitingDependencies := Function.update s.waitingDependencies d (some missing.dedup) })

/-- `CheckDependencies` of a transaction: every dependency committed, and not after it. -/
def checkDependencies (env : Env) (s : State) (txn : Transaction) : CCResult :=
  if (localDeps env txn).all fun dep =>
    (s.committed dep.preparedTxnDigest).isSome && dep.preparedTimestamp ≤ txn.timestamp
  then .commit else .abstain

/-- `CheckDependencies` by digest; `none` is a Panic. -/
def checkDependenciesOf (env : Env) (s : State) (d : Digest) : Option CCResult :=
  match s.ongoing d with
  | some txn => some (s.checkDependencies env txn)
  | none => if (s.committed d).isSome then some .commit else if s.aborted d then some .abstain
    else none

def wakeDependent (env : Env) (s : State) (d : Digest) : State :=
  match s.checkDependenciesOf env d with
  | none => s.panic
  | some result =>
    let b := s.bufferP1Result result none none d 0 false .dependency
    let s₁ := match b.subOriginal with
      | some reqId => b.state.sendPhase1Reply env reqId b.result none none d
      | none => b.state
    let s₂ := if s₁.crashed then s₁ else s₁.wakeAllInterestedFallbacks d b.result
    { s₂ with waitingDependencies := Function.update s₂.waitingDependencies d none }

def checkDependent (env : Env) (d : Digest) (s : State) (dependent : Digest) : State :=
  if s.crashed then s
  else
    match s.waitingDependencies dependent with
    | none => s
    | some deps =>
      if deps.erase d = [] then s.wakeDependent env dependent
      else { s with
        waitingDependencies :=
          Function.update s.waitingDependencies dependent (some (deps.erase d)) }

def checkDependents (env : Env) (s : State) (d : Digest) : State :=
  let s₁ := (s.dependents d).foldl (checkDependent env d) s
  { s₁ with dependents := Function.update s₁.dependents d [] }

def cleanDependencies (s : State) (d : Digest) : State :=
  { s with waitingDependencies := Function.update s.waitingDependencies d none }

/-! ## Commit and abort -/

def commitPolicies (env : Env) (ps : PolicyStore) (txn : Transaction) : PolicyStore :=
  match txn.policyType, txn.writeSet.find? (!·.isTableColVersion) with
  | .policyIdPolicy, some w =>
    Function.update ps w.key
      ((ps w.key).insertNew txn.timestamp (env.parsePolicy (w.value.getD [])))
  | _, _ => ps

def commit (env : Env) (s : State) (d : Digest) (proof : CommittedProof) : State :=
  if (s.committed d).isSome then s
  else
    let s₁ := { s with
      committed := Function.update s.committed d (some proof)
      policyStore := commitPolicies env s.policyStore proof.txn }
    (((s₁.clean d false).checkDependents env d).cleanDependencies d)

def abort (env : Env) (s : State) (d : Digest) : State :=
  let s₁ := { s with aborted := Function.update s.aborted d true }
  (((s₁.clean d false).checkDependents env d).cleanDependencies d)

end State

end Sintr.Phase1
