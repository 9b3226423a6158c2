import Sintr.Phase1.State

/-!
# From a Phase1 message to a vote

The handlers of Phase1 and Phase1FB messages, the paths between them and the concurrency check, and
the machine whose events are messages, closures picked up by threads, and the commits and aborts of
transactions.
-/

namespace Sintr.Phase1

namespace State

variable (env : Env)

/-! ## The concurrency check -/

/-- `Prepare`: the first call for an ongoing transaction enters it. -/
def prepare (s : State) (d : Digest) (txn : Transaction) : State :=
  match s.ongoing d, s.prepared d with
  | some ongoingTxn, none =>
    { s with prepared := Function.update s.prepared d (some (txn.timestamp, ongoingTxn)) }.record
      (.prepare ongoingTxn d)
  | _, _ => s

def dependencyCheck (s : State) (d : Digest) (txn : Transaction) : CCResult × State :=
  let r := s.manageDependencies env d txn
  if r.1 then (r.2.checkDependencies env txn, r.2) else (.wait, r.2)

/-- What `DoOCCCheck` hands back. -/
structure OCCResult where
  state : State
  result : CCResult
  conflict : Option CommittedProof := none
  /-- A callback to run once the endorsements are known; it calls `Prepare` if the flag is set. -/
  delayed : Option Bool := none

/-- Endorsements are checked in parallel, so the effects of the check have to wait. -/
def delaysPrepare (fallbackFlow : Bool) : Bool :=
  env.params.parallelEndorsementCheck && !env.params.serverSkipEndorsementCheck && !fallbackFlow

/-- `DoMVTSOOCCCheck` after its conflict checks, which a prepared transaction skips. -/
def mvtsoPassed (s : State) (d : Digest) (txn : Transaction) (fallbackFlow : Bool) : OCCResult :=
  let s₁ := if (s.prepared d).isNone && !(env.params.parallelEndorsementCheck &&
      !env.params.serverSkipEndorsementCheck) then s.prepare d txn else s
  if delaysPrepare env fallbackFlow then
    { state := s₁, result := .commit, delayed := some (s.prepared d).isNone }
  else
    let r := s₁.dependencyCheck env d txn
    { state := r.2, result := r.1 }

/-- An ABORT verdict aborts the transaction at once; with cached read sets it is sent as ABSTAIN. -/
def mvtsoAborted (s : State) (d : Digest) (conflict : CommittedProof) : OCCResult :=
  let s₁ := { s with writebackMessages := Function.update s.writebackMessages d true }.abort env d
  if env.params.cacheReadSet then { state := s₁, result := .abstain }
  else { state := s₁, result := .abort, conflict := some conflict }

def doMVTSOOCCCheck (s : State) (i : CCInput) (d : Digest) (txn : Transaction)
    (fallbackFlow : Bool) : OCCResult :=
  if (s.prepared d).isSome then s.mvtsoPassed env d txn fallbackFlow
  else
    match i.check with
    | .ok => s.mvtsoPassed env d txn fallbackFlow
    | .abstain => { state := s, result := .abstain }
    | .abort conflict => s.mvtsoAborted env d conflict

/-- The merged read set is stored in the transaction itself, so `ongoing` sees it too. -/
def setMerged (s : State) (d : Digest) (txn : Transaction) (m : Option ReadSet) : State :=
  if s.ongoing d = some txn then
    { s with ongoing := Function.update s.ongoing d (some { txn with mergedReadSet := m }) }
  else s

/-- Park the transaction until its missing queries are there, unless it is parked already. -/
def park (s : State) (reqId : UInt64) (d : Digest) (txn : Transaction) (isGossip : Bool) : State :=
  if (s.missingQueries d).isSome then s
  else { s with missingQueries :=
    Function.update s.missingQueries d (some ⟨reqId, txn, isGossip⟩) }

def doOCCCheck (s : State) (i : CCInput) (reqId : UInt64) (d : Digest) (txn : Transaction)
    (fallbackFlow isGossip : Bool) : OCCResult :=
  if txn.timestamp.timestamp ≤ 10000 then { state := s.panic, result := .ignore }
  else
    let s := s.record (.occCheck txn d)
    match i.merge with
    | .wait => { state := s.park reqId d txn isGossip, result := .wait }
    | .abstain => { state := s, result := .abstain }
    | .ignore => { state := s, result := .ignore }
    | .merged m =>
      (s.setMerged d txn m).doMVTSOOCCCheck env i d { txn with mergedReadSet := m } fallbackFlow

/-! ## The normal path -/

def checkAndReport (s : State) (i : CCInput) (reqId : UInt64) (txn : Transaction) (d : Digest)
    (isGossip : Bool) : State :=
  let r := s.doOCCCheck env i reqId d txn false isGossip
  if r.state.crashed then r.state
  else r.state.handlePhase1CB env reqId r.result r.conflict d txn isGossip

def checkAndVote (s : State) (i : CCInput) (reqId : UInt64) (txn : Transaction)
    (d checkDigest : Digest) (isGossip : Bool) : State :=
  if env.params.serverSkipEndorsementCheck then s.checkAndReport env i reqId txn d isGossip
  else
    let s := s.record (.endorsementCheck txn checkDigest)
    match Sintr.endorsementCheck env s.policyStore txn checkDigest with
    | none => s.panic
    | some status =>
      if status < 0 then s.handlePhase1CB env reqId .abstain none d txn isGossip
      else s.checkAndReport env i reqId txn d isGossip

def addAsync (s : State) (a : AsyncCheck) : State :=
  { s with asyncChecks := s.asyncChecks ++ [a] }

def setAsync (s : State) (k : Nat) (a : AsyncCheck) : State :=
  { s with asyncChecks := s.asyncChecks.set k a }

def launchAsync (s : State) (reqId : UInt64) (txn : Transaction) (d checkDigest : Digest)
    (isGossip : Bool) : State :=
  let s := s.record (.endorsementCheck txn checkDigest)
  let k := s.asyncChecks.length
  let avp : AsyncValidatePrepare := { totalValidations := (txn.endorsements.getD []).length }
  match extractPolicy env s.policyStore txn with
  | none => s.panic
  | some (false, pc) =>
    let s := s.addAsync
      { avp := { avp with policyClient := pc, policyLeak := true, cbDone := true }, reqId, txn,
        digest := d, isGossip }
    (s.handlePhase1CB env reqId .abstain none d txn isGossip).push (.concurrencyCheck k)
  | some (true, pc) =>
    let s := s.addAsync
      { avp := { avp with policyClient := pc, endorsers := {txn.clientId} }, reqId, txn,
        digest := d, isGossip }
    ((txn.endorsements.getD []).foldl
      (fun s m => s.push (.validateEndorsement k m checkDigest)) s).push (.concurrencyCheck k)

def runChecks (s : State) (i : CCInput) (reqId : UInt64) (txn : Transaction)
    (d checkDigest : Digest) (isGossip : Bool) : State :=
  if env.params.parallelEndorsementCheck && !env.params.serverSkipEndorsementCheck then
    s.launchAsync env reqId txn d checkDigest isGossip
  else s.checkAndVote env i reqId txn d checkDigest isGossip

/-- The digest `TryPrepare` turns `oldTxnDigest` into. -/
def checkDigestOf (txn : Transaction) (oldTxnDigest : Digest) : Digest :=
  policyVersionDigest env.H txn (if oldTxnDigest = [] then env.bareDigest txn else oldTxnDigest)

/-- `TryPrepare`. With `aliased` both arguments are the same string, so the digest that names the
transaction is rewritten together with the other one. -/
def tryPrepare (s : State) (i : CCInput) (reqId : UInt64) (txn : Transaction)
    (txnDigest oldTxnDigest : Digest) (aliased isGossip : Bool) : State :=
  let checkDigest := checkDigestOf env txn oldTxnDigest
  let d := if aliased then checkDigest else txnDigest
  if env.params.parallelCCC && env.params.mainThreadDispatching then
    s.push (.dispatchedCheck reqId txn d checkDigest isGossip)
  else s.runChecks env i reqId txn d checkDigest isGossip

def dispatchedCheck (s : State) (i : CCInput) (reqId : UInt64) (txn : Transaction)
    (d checkDigest : Digest) (isGossip : Bool) : State :=
  if (s.ongoing d).isNone then
    if (s.committed d).isSome then s.sendPhase1Reply env reqId .commit none (some txn) d
    else if s.aborted d then s.sendPhase1Reply env reqId .abstain none (some txn) d
    else s.panic
  else s.runChecks env i reqId txn d checkDigest isGossip

def addOngoing (s : State) (d : Digest) (txn : Transaction) : State :=
  { s with ongoing := Function.update s.ongoing d (some txn) }

/-- `RemoveOngoing`: a proposal that is ongoing should have been valid. -/
def removeOngoing (s : State) (d : Digest) : State :=
  if (s.ongoing d).isNone then s else s.panic

/-- `CheckProposalValidity`: the client that owns the timestamp signed the proposal. -/
def checkProposalValidity (txn : Transaction) (signer : ProcessId) (signature : Bytes) : Bool :=
  !env.params.signClientProposals ||
    (txn.timestamp.id == signer && env.verifyClient signer (.proposal txn) signature)

/-- `ProcessProposal`. The worker thread gets copies of the digests, so nothing is aliased there. -/
def processProposal (s : State) (i : CCInput) (msg : Phase1Msg) (txnDigest oldTxnDigest : Digest)
    (aliased isGossip : Bool) : State :=
  let s := s.addOngoing txnDigest msg.txn
  if env.params.multiThreading && env.params.signClientProposals then
    s.push (.checkProposal msg txnDigest oldTxnDigest isGossip)
  else if checkProposalValidity env msg.txn msg.signer msg.signature then
    s.tryPrepare env i msg.reqId msg.txn txnDigest oldTxnDigest aliased isGossip
  else s.removeOngoing txnDigest

/-- The two digests `HandlePhase1` computes. The old one is moved out of when it is not needed. -/
def phase1Digests (txn : Transaction) : Digest × Digest :=
  if env.params.hashEndorsements && (txn.endorsements.getD []).length > 0 then
    (transactionDigest env.H txn env.params.hashDigest env.params.hideTimestamps true,
      env.bareDigest txn)
  else (env.bareDigest txn, [])

def repeatResult (s : State) (msg : Phase1Msg) (d : Digest) (m : P1MetaData) : State :=
  if m.result = .wait then
    ((s.setP1MetaData d { m with subOriginal := some msg.reqId }).manageDependencies env d
      msg.txn).2
  else s.sendPhase1Reply env msg.reqId m.result m.conflict (some msg.txn) d

def handlePhase1 (s : State) (i : CCInput) (msg : Phase1Msg) : State :=
  let ds := phase1Digests env msg.txn
  if s.ooMessages ds.1 then
    -- the buffered Phase2 or Writeback message is handled instead
    { s.addOngoing ds.1 msg.txn with ooMessages := Function.update s.ooMessages ds.1 false }
  else
    match (s.p1MetaData ds.1).filter (·.hasP1) with
    | some m => if msg.replicaGossip then s else s.repeatResult env msg ds.1 m
    | none =>
      if (s.committed ds.1).isSome then
        s.sendPhase1Reply env msg.reqId .commit none (some msg.txn) ds.1
      else if s.aborted ds.1 then
        s.sendPhase1Reply env msg.reqId .abstain none (some msg.txn) ds.1
      else if env.params.hashEndorsements then
        s.processProposal env i msg ds.1 ds.2 false msg.replicaGossip
      else s.processProposal env i msg ds.1 ds.1 true msg.replicaGossip

def processSuppliedTxn (s : State) (i : CCInput) (txnId : Digest) (msg : Phase1Msg) : State :=
  if s.suppliedSync txnId then s
  else
    let s := { s with suppliedSync := Function.update s.suppliedSync txnId true }
    if (s.committed txnId).isSome || s.aborted txnId || (s.p1MetaData txnId).isSome then s
    else if txnId ≠ env.digest msg.txn then s.panic
    else s.processProposal env i msg txnId (env.digest msg.txn) false true

/-- `wakeSubscribedTx`: the last missing query of a parked transaction has been executed. -/
def wakeSubscribedTx (s : State) (i : CCInput) (d : Digest) : State :=
  match s.missingQueries d with
  | none => s
  | some w =>
    { s with missingQueries := Function.update s.missingQueries d none }.tryPrepare env i w.reqId
      w.txn d [] false w.isGossip

/-! ## Asynchronous checks -/

/-- The delayed callback: prepare, then look at the dependencies. -/
def delayedPrepare (s : State) (a : AsyncCheck) : CCResult × State :=
  (if a.callPrepare then s.prepare a.digest a.txn else s).dependencyCheck env a.digest a.txn

def asyncAction (s : State) (a : AsyncCheck) : AsyncAction → State
  | .none => s
  | .report result fail => s.handlePhase1CB env a.reqId result (if fail then none else a.conflict)
      a.digest a.txn a.isGossip
  | .delayedPrepare =>
    let r := s.delayedPrepare env a
    r.2.handlePhase1CB env a.reqId r.1 a.conflict a.digest a.txn a.isGossip

def validateEndorsement (s : State) (k : Nat) (m : SignedMessage) (checkDigest : Digest) : State :=
  match s.asyncChecks[k]? with
  | none => s
  | some a =>
    let r := a.avp.addCompletedValidation (validateEndorsementHelper env checkDigest m) m.processId
    (s.setAsync k { a with avp := r.1 }).asyncAction env { a with avp := r.1 } r.2

def concurrencyCheck (s : State) (i : CCInput) (k : Nat) : State :=
  match s.asyncChecks[k]? with
  | none => s
  | some a =>
    let r := s.doOCCCheck env i a.reqId a.digest a.txn false a.isGossip
    if r.state.crashed then r.state
    else
      let v := a.avp.setCCResult r.result r.delayed.isSome
      let a := { a with avp := v.1, conflict := r.conflict, callPrepare := r.delayed.getD false }
      (r.state.setAsync k a).asyncAction env a v.2

/-! ## The fallback path -/

/-- `ExecP1` and the answer of its callers. No endorsement is looked at on this path. -/
def execP1 (s : State) (i : CCInput) (reqId : UInt64) (d : Digest) (txn : Transaction) : State :=
  let r := (s.record (.execP1 txn d)).doOCCCheck env i reqId d txn true false
  if r.state.crashed then r.state
  else
    let b := r.state.bufferP1Result r.result r.conflict (some txn) d 0 false .fallback
    let s₁ := match b.subOriginal with
      | some reqId => b.state.sendPhase1Reply env reqId b.result r.conflict (some txn) d
      | none => b.state
    if s₁.crashed ∨ b.result = .ignore ∨ b.result = .wait then s₁
    else s₁.record (.fbReply d b.result)

def processProposalFB (s : State) (i : CCInput) (msg : Phase1FBMsg) (d : Digest) : State :=
  let s := s.addOngoing d msg.txn
  if env.params.multiThreading && env.params.signClientProposals then
    s.push (.checkProposalFB msg d)
  else if !checkProposalValidity env msg.txn msg.signer msg.signature then s.removeOngoing d
  else if env.params.signClientProposals && !i.castCheck then s
  else s.execP1 env i msg.reqId d msg.txn

def repeatResultFB (s : State) (msg : Phase1FBMsg) (d : Digest) (m : P1MetaData) : State :=
  if m.result = .wait then
    ((s.setP1MetaData d { m with fallbacksInterested := true }).manageDependencies env d msg.txn).2
  else s.record (.fbReply d m.result)

def addInterested (s : State) (d : Digest) (clientId : UInt64) : State :=
  { s with interestedClients :=
      Function.update s.interestedClients d (clientId :: s.interestedClients d) }

def handlePhase1FB (s : State) (i : CCInput) (msg : Phase1FBMsg) : State :=
  let d := env.digest msg.txn
  if s.hasWriteback d then s
  else
    let s := s.addInterested d msg.clientId
    match (s.p1MetaData d).filter (·.hasP1) with
    | some m => s.repeatResultFB env msg d m
    | none =>
      if s.hasP2 d then
        if i.depsVerified then (s.addOngoing d msg.txn).execP1 env i msg.reqId d msg.txn else s
      else s.processProposalFB env i msg d

/-! ## The machine -/

def runTask (s : State) (i : CCInput) : Task → State
  | .checkProposal msg d old isGossip =>
    if checkProposalValidity env msg.txn msg.signer msg.signature then
      s.push (.tryPrepare msg.reqId msg.txn d old isGossip)
    else s.removeOngoing d
  | .tryPrepare reqId txn d old isGossip => s.tryPrepare env i reqId txn d old false isGossip
  | .dispatchedCheck reqId txn d checkDigest isGossip =>
    s.dispatchedCheck env i reqId txn d checkDigest isGossip
  | .validateEndorsement k m checkDigest => s.validateEndorsement env k m checkDigest
  | .concurrencyCheck k => s.concurrencyCheck env i k
  | .checkProposalFB msg d =>
    if checkProposalValidity env msg.txn msg.signer msg.signature then s.push (.tryExec msg d)
    else s.removeOngoing d
  | .tryExec msg d => s.execP1 env i msg.reqId d msg.txn

end State

/-- Messages, closures that are run, and the ends of transactions. -/
inductive Event where
  | phase1 (msg : Phase1Msg) (i : CCInput)
  | phase1FB (msg : Phase1FBMsg) (i : CCInput)
  | supply (txnId : Digest) (msg : Phase1Msg) (i : CCInput)
  | task (k : Nat) (i : CCInput)
  | wake (d : Digest) (i : CCInput)
  | commit (d : Digest) (proof : CommittedProof)
  | abort (d : Digest)
  | logP2 (d : Digest)
  | outOfOrder (d : Digest)

def step (env : Env) (s : State) (e : Event) : State :=
  if s.crashed then s
  else
    match e with
    | .phase1 msg i => s.handlePhase1 env i msg
    | .phase1FB msg i => s.handlePhase1FB env i msg
    | .supply txnId msg i => s.processSuppliedTxn env i txnId msg
    | .task k i =>
      match s.tasks[k]? with
      | none => s
      | some t => { s with tasks := s.tasks.eraseIdx k }.runTask env i t
    | .wake d i => s.wakeSubscribedTx env i d
    | .commit d proof => s.commit env d proof
    | .abort d => { s with writebackMessages := Function.update s.writebackMessages d true }.abort
        env d
    | .logP2 d => { s with hasP2 := Function.update s.hasP2 d true }
    | .outOfOrder d => { s with ooMessages := Function.update s.ooMessages d true }

def phase1Machine (env : Env) : Machine State Event := ⟨step env⟩

end Sintr.Phase1
