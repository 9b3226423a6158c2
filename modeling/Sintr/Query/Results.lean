import Mathlib
import Sintr.Client.Queries
import Sintr.Query.Snapshots
import Sintr.Shard.Reads

/-!
# Results of queries

Replicas answer a query with its result and with what they read. The client counts the answers that
agree on both, and accepts once a quorum of them has arrived. In eager mode replicas execute the
query before they have agreed on a snapshot, so that versions of tables and dependencies may differ
among the answers that agree: the smallest version of each table and the dependencies that enough
replicas reported become part of the read set that is accepted.

* `ResultMgr.note`, `Tally.count`: an answer is counted. When the quorum is complete the id of a
  table version is set twice and its timestamp never.
* `handleQueryResult`, `handleFailQuery`, `handleSync`, `retryQuery`: the handlers of the client,
  and `resultMachine` all of them.
-/

namespace Sintr.Results

open Client (QueryEnv QueryResult canonicalReadSet validateTransactionWrite timestampDigest)
open Shard (Halt PolicyMessage)
open Snapshot (LocalSnapshot SyncParams SyncState processSync initMergedSnapshot)

/-! ## Messages -/

structure Report extends QueryResult where
  replicaId : UInt64
  localSs : Option LocalSnapshot := none
  deriving DecidableEq

structure QueryPolicy where
  endorsementPolicy : PolicyMessage
  policyProof : CommittedProof
  policyTimestamp : Timestamp

structure QueryResultReply where
  reqId : UInt64
  signedResult : Option SignedMessage := none
  result : Report := { queryResult := [], replicaId := 0 }
  queryPolicy : List QueryPolicy := []

/-- A replica has failed to execute a query; `fail` is its number. -/
structure FailQuery where
  reqId : UInt64
  signedFail : Option SignedMessage := none
  fail : UInt64 := 0

/-- What the client of a group is given. `parseOrigin` reads the fields of a report that are not in
`QueryResult`. -/
structure ResultEnv extends QueryEnv where
  group : GroupId
  eagerExec : Bool
  eagerPointExec : Bool
  eagerPlusSnapshot : Bool
  simulateFailEagerPlusSnapshot : Bool
  queryMessages : UInt64
  syncMessages : UInt64
  parseOrigin : Bytes → UInt64 × Option LocalSnapshot
  parseFail : Bytes → Option UInt64
  sync : SyncParams
  sync_f : sync.f = config.f
  sync_group : sync.isReplicaInGroup = fun r => config.isReplicaInGroup r group

section
variable (env : ResultEnv)

def ResultEnv.signing : Bool := env.params.validateProofs && env.params.signedMessages

def ResultEnv.parseReport (data : Bytes) : Option Report :=
  (env.parseQueryResult data).map fun q =>
    { q with replicaId := (env.parseOrigin data).1, localSs := (env.parseOrigin data).2 }

def ResultEnv.receive (reply : QueryResultReply) : Except Halt Report :=
  if env.signing then
    match reply.signedResult with
    | none => .error .panicked
    | some m =>
      if !env.verifyData m.processId m.data m.signature then .error .ignored
      else
        match env.parseReport m.data with
        | none => .error .ignored
        | some r => if r.replicaId ≠ m.processId then .error .ignored else .ok r
  else .ok reply.result

/-- The replica of a failure, which need not be the one that signed it. -/
def ResultEnv.receiveFail (reply : FailQuery) : Except Halt UInt64 :=
  if env.signing then
    match reply.signedFail with
    | none => .error .panicked
    | some m =>
      if !env.verifyData m.processId m.data m.signature then .error .ignored
      else
        match env.parseFail m.data with
        | none => .error .ignored
        | some replicaId => .ok replicaId
  else .ok reply.fail

/-- `generateReadSetSingleHash` with timestamps that are not hidden. -/
def ResultEnv.singleHash (rs : ReadSet) : Bytes :=
  env.H (rs.readSet.flatMap (readBytes false) ++
    rs.readPredicates.flatMap fun p => p.instantiations.flatten.flatten)

def ResultEnv.hashOf (r : Report) : Bytes :=
  if env.params.cacheReadSet then r.queryResultHash
  else env.singleHash (canonicalReadSet env.toQueryEnv r.queryReadSet)

end

/-! ## Counting -/

/-- A digest as a key of a `std::map`: strings are compared byte by byte. -/
structure DigestKey where
  digest : Digest
  deriving DecidableEq

def DigestKey.bytes (k : DigestKey) : List Nat := k.digest.map UInt8.toNat

theorem DigestKey.bytes_injective : Function.Injective DigestKey.bytes := by
  intro a b h
  have hdigest : a.digest = b.digest :=
    List.map_injective_iff.2 (fun _ _ hbyte => UInt8.toNat_inj.1 hbyte) h
  cases a
  cases b
  exact congrArg DigestKey.mk hdigest

instance : LinearOrder DigestKey := LinearOrder.lift' DigestKey.bytes DigestKey.bytes_injective

/-- What is known of one result: how often it was reported, and with what. -/
structure ResultMgr where
  freq : Nat := 0
  depCandidates : OrdMap DigestKey Nat := .empty
  minTableVersions : Nat → Option Timestamp := fun _ => none

def lowerVersion (min : Option Timestamp) (version : Timestamp) : Timestamp :=
  match min with
  | none => version
  | some min => if version < min then version else min

def ResultMgr.noteVersion (mgr : ResultMgr) (idx : Nat) (version : Timestamp) : ResultMgr :=
  { mgr with
    minTableVersions := Function.update mgr.minTableVersions idx
      (some (lowerVersion (mgr.minTableVersions idx) version)) }

def setVersion (p : ReadPredicate) (min : Timestamp) : ReadPredicate :=
  let p := { p with tableVersion := { p.tableVersion with id := min.id } }
  -- `set_id` once more, where `set_timestamp` is meant
  { p with tableVersion := { p.tableVersion with id := min.timestamp } }

/-- The loop over the predicates in eager mode, from the `idx`-th on. -/
def ResultMgr.notePreds (quorum : Bool) :
    Nat → ResultMgr → List ReadPredicate → ResultMgr × List ReadPredicate
  | _, mgr, [] => (mgr, [])
  | idx, mgr, p :: ps =>
    let mgr := mgr.noteVersion idx p.tableVersion
    let p := if quorum then setVersion p ((mgr.minTableVersions idx).getD Timestamp.zero) else p
    let rest := notePreds quorum (idx + 1) mgr ps
    (rest.1, p :: rest.2)

def addCandidate (candidates : OrdMap DigestKey Nat) (dep : Dependency) : OrdMap DigestKey Nat :=
  candidates.set ⟨dep.preparedTxnDigest⟩ ((candidates.find ⟨dep.preparedTxnDigest⟩).getD 0 + 1)

def keptDeps (env : ResultEnv) (candidates : OrdMap DigestKey Nat) : List Dependency :=
  (candidates.entries.filter fun e => 2 * env.config.f + 1 ≤ e.2).map fun e =>
    { preparedTxnDigest := e.1.digest, involvedGroup := env.group }

def ResultMgr.note (env : ResultEnv) (eager quorum : Bool) (mgr : ResultMgr) (rs : ReadSet) :
    ResultMgr × ReadSet :=
  let preds := if eager then mgr.notePreds quorum 0 rs.readPredicates else (mgr, rs.readPredicates)
  let candidates := rs.deps.foldl addCandidate preds.1.depCandidates
  if quorum then
    ({ preds.1 with depCandidates := .empty },
      { rs with readPredicates := preds.2, deps := keptDeps env candidates })
  else ({ preds.1 with depCandidates := candidates }, { rs with readPredicates := preds.2 })

/-- The replies to one attempt. `counted` is what has been counted so far; the code does not keep
it. -/
structure Tally where
  resultsVerified : List UInt64 := []
  numResults : Nat := 0
  numFails : Nat := 0
  resultFreq : Bytes → AList fun _ : Bytes => ResultMgr := fun _ => ∅
  counted : List Report := []

namespace Tally

def manager (t : Tally) (hash result : Bytes) : ResultMgr :=
  ((t.resultFreq hash).lookup result).getD {}

def setManager (t : Tally) (hash result : Bytes) (mgr : ResultMgr) : Tally :=
  { t with
    resultFreq := Function.update t.resultFreq hash ((t.resultFreq hash).insert result mgr) }

def ambiguous (t : Tally) (hash : Bytes) : Bool := 1 < (t.resultFreq hash).keys.length

def matching (env : ResultEnv) (t : Tally) (hash result : Bytes) : List Report :=
  t.counted.filter fun r => r.queryResult = result ∧ env.hashOf r = hash

end Tally

/-- A report that has been counted, with the read set that is accepted if it completes the
quorum. -/
structure Counted where
  tally : Tally
  matchingRes : Nat
  hash : Bytes
  report : Report

def Tally.count (env : ResultEnv) (eager : Bool) (t : Tally) (r : Report) : Counted :=
  let hash := env.hashOf r
  let t := { t with
    resultsVerified := r.replicaId :: t.resultsVerified
    numResults := t.numResults + 1
    counted := t.counted ++ [r] }
  let mgr := t.manager hash r.queryResult
  let mgr := { mgr with freq := mgr.freq + 1 }
  if env.params.cacheReadSet then ⟨t.setManager hash r.queryResult mgr, mgr.freq, hash, r⟩
  else
    let noted := mgr.note env eager (mgr.freq == env.resultQuorum)
      (canonicalReadSet env.toQueryEnv r.queryReadSet)
    ⟨t.setManager hash r.queryResult noted.1, mgr.freq, hash, { r with queryReadSet := noted.2 }⟩

/-! ## The client -/

abbrev PolicyMap := Bytes → Option (PolicyMessage × Timestamp)

/-- What the callback gets with a result. The last three fields say how it came about; the code
does not pass them on. -/
structure Accepted where
  readSet : ReadSet
  resultHash : Bytes
  result : Bytes
  sigs : List (Option SignedMessage)
  policies : PolicyMap
  eager : Bool
  readSetHash : Bytes
  matching : List Report

def Counted.accepted (env : ResultEnv) (eager : Bool) (sigs : List (Option SignedMessage))
    (policies : PolicyMap) (c : Counted) : Accepted where
  readSet := c.report.queryReadSet
  resultHash := c.report.queryResultHash
  result := c.report.queryResult
  sigs
  policies
  eager
  readSetHash := c.hash
  matching := c.tally.matching env c.hash c.report.queryResult

inductive Upcall where
  | ok (a : Accepted)
  | fail

/-- A query that waits for the results of its groups. -/
structure PendingQuery where
  reqId : UInt64
  isPoint : Bool
  done : Bool := false
  eagerMode : Bool := false
  snapshotMode : Bool := true
  syncStarted : Bool := false
  numDesignatedReplies : UInt64 := 0
  tally : Tally := {}
  sync : SyncState
  querySigs : Option (List (Option SignedMessage)) := some []
  queryPolicyMap : PolicyMap := fun _ => none
  upcalls : List Upcall := []
  panicked : Bool := false

namespace PendingQuery

variable (env : ResultEnv) (s : PendingQuery)

def panic : PendingQuery := { s with panicked := true }

/-! ### Requests -/

/-- `RequestQuery`. Point queries that are not eager are answered in another way. -/
def requestQuery : PendingQuery :=
  let eager := s.sync.retryVersion == 0 && if s.isPoint then env.eagerPointExec else env.eagerExec
  { s with
    sync := initMergedSnapshot env.sync s.sync.retryVersion
    eagerMode := eager
    snapshotMode := !eager
    numDesignatedReplies :=
      if !eager && s.isPoint then s.numDesignatedReplies
      else if !eager then env.queryMessages
      else if !env.eagerPlusSnapshot then env.syncMessages
      else max env.queryMessages env.syncMessages }

def start (reqId : UInt64) (isPoint : Bool) : PendingQuery :=
  requestQuery env { reqId, isPoint, sync := initMergedSnapshot env.sync 0 }

def retryQuery (reqId : UInt64) (isPoint : Bool) : PendingQuery :=
  if s.querySigs.isSome then s.panic
  else
    requestQuery env
      { s with
        reqId, isPoint
        syncStarted := false
        tally := {}
        sync := { s.sync with retryVersion := s.sync.retryVersion + 1 }
        querySigs := some [] }

/-! ### Snapshots -/

/-- `SyncReplicas`, without the message to the replicas. -/
def syncReplicas : PendingQuery :=
  if env.eagerPlusSnapshot then
    { s with tally := {}, eagerMode := false, snapshotMode := true, syncStarted := true }
  else { s with syncStarted := true }

def checkSyncStart : PendingQuery :=
  if s.syncStarted then s
  else if s.sync.mergeComplete && s.snapshotMode then s.syncReplicas env
  else s

def processLocal (ss : LocalSnapshot) : PendingQuery :=
  checkSyncStart env { s with sync := processSync env.sync s.sync ss }

def handleSync (reqId : UInt64) (ss : LocalSnapshot) : PendingQuery :=
  if reqId ≠ s.reqId ∨ s.done = true then s else s.processLocal env ss

/-! ### Results -/

/-- How many replies to wait for: those that can be expected, but at least `expected`. -/
def maxWait (designated expected : UInt64) : Int32 :=
  (max (designated - UInt64.ofNat env.config.f) expected).toUInt32.toInt32

def expectedResults (noBonus : Bool) : UInt64 :=
  if noBonus then UInt64.ofNat env.resultQuorum
  else UInt64.ofNat env.resultQuorum + UInt64.ofNat env.config.f

def waitedFor (wait : Int32) : Bool := (s.tally.resultsVerified.length : Int) == wait.toInt

def notePolicies (map : PolicyMap) : List QueryPolicy → PolicyMap × Option Halt
  | [] => (map, none)
  | p :: ps =>
    if !env.params.validateProofs then notePolicies map ps
    else
      let id := p.endorsementPolicy.policyId
      match validateTransactionWrite env.toValidationEnv p.policyProof
          (env.toEnv.digest p.policyProof.txn) id p.endorsementPolicy.policy p.policyTimestamp
          (if env.params.hideTimestamps then timestampDigest env.H p.policyTimestamp else []) with
      | .accept =>
        if (map id).all (·.2 < p.policyTimestamp) then
          notePolicies (Function.update map id (some (p.endorsementPolicy, p.policyTimestamp))) ps
        else notePolicies map ps
      | .panic => (map, some .panicked)
      | _ => (map, some .ignored)

/-- The result is accepted, unless the reply comes with a policy that is not valid. -/
def accept (reply : QueryResultReply) (c : Counted) : PendingQuery :=
  let noted := notePolicies env s.queryPolicyMap reply.queryPolicy
  let s := { s with done := true, queryPolicyMap := noted.1 }
  match noted.2 with
  | some .panicked => s.panic
  | some .ignored => s
  | none =>
    { s with
      querySigs := none
      upcalls := s.upcalls ++ [.ok (c.accepted env s.eagerMode (s.querySigs.getD []) noted.1)] }

def fail : PendingQuery := { s with querySigs := none, upcalls := s.upcalls ++ [.fail] }

/-- Whether the snapshots of eager replies are used if the results do not agree. -/
def syncsUponFailure (r : Report) : Bool :=
  s.eagerMode && env.eagerPlusSnapshot && s.sync.retryVersion == 0 && r.localSs.isSome

def trySync (reply : QueryResultReply) (r : Report) (wait : Int32) : PendingQuery :=
  let s := if !s.snapshotMode && s.waitedFor wait then { s with snapshotMode := true } else s
  match r.localSs with
  | none => s
  | some ss =>
    if env.signing && reply.signedResult.any (·.processId != ss.replicaId) then s
    else s.processLocal env ss

def continueWaiting (reply : QueryResultReply) (r : Report) : PendingQuery :=
  let expected := expectedResults env (env.eagerExec && s.eagerMode ||
    env.sync.optimisticTxID && decide (0 < s.sync.retryVersion))
  if s.syncsUponFailure env r then
    if s.numDesignatedReplies ≠ env.queryMessages ∨ env.queryMessages < env.syncMessages then
      s.panic
    else
      let wait := maxWait env env.syncMessages expected
      if wait ≤ 0 then s.panic else s.trySync env reply r wait
  else
    let wait := maxWait env s.numDesignatedReplies expected
    if wait ≤ 0 then s.panic
    else if s.waitedFor wait then s.fail
    else s

def conclude (reply : QueryResultReply) (c : Counted) : PendingQuery :=
  let testSyncPath := env.simulateFailEagerPlusSnapshot && env.eagerPlusSnapshot && s.eagerMode
  if !testSyncPath && c.matchingRes == env.resultQuorum then s.accept env reply c
  else s.continueWaiting env reply c.report

/-- The report is from a replica of the group that has not been heard of, and is not outdated. -/
def takes (r : Report) : Bool :=
  !(!s.eagerMode && r.localSs.isSome) && env.config.isReplicaInGroup r.replicaId env.group &&
    decide (r.replicaId ∉ s.tally.resultsVerified)

def takeReport (reply : QueryResultReply) (r : Report) (sigs : List (Option SignedMessage)) :
    PendingQuery :=
  let c := s.tally.count env s.eagerMode r
  let s := { s with tally := c.tally, querySigs := some (sigs ++ [reply.signedResult]) }
  if c.tally.ambiguous c.hash then s.panic else s.conclude env reply c

def handleQueryResult (reply : QueryResultReply) : PendingQuery :=
  if reply.reqId ≠ s.reqId ∨ s.done = true then s
  else
    match env.receive reply with
    | .error .panicked => s.panic
    | .error .ignored => s
    | .ok r =>
      if !s.takes env r then s
      else
        match s.querySigs with
        | none => s.panic
        | some sigs => s.takeReport env reply r sigs

def handleFailQuery (reply : FailQuery) : PendingQuery :=
  if reply.reqId ≠ s.reqId ∨ s.done = true then s
  else
    match env.receiveFail reply with
    | .error .panicked => s.panic
    | .error .ignored => s
    | .ok replicaId =>
      if !env.config.isReplicaInGroup replicaId env.group then s
      else if replicaId ∈ s.tally.resultsVerified then s
      else
        let s := { s with tally := { s.tally with
          resultsVerified := replicaId :: s.tally.resultsVerified
          numFails := s.tally.numFails + 1 } }
        let expected := expectedResults env (env.eagerExec ||
          env.sync.optimisticTxID && decide (0 < s.sync.retryVersion))
        let wait := maxWait env s.numDesignatedReplies expected
        if s.tally.numFails = env.config.f + 1 ∨ s.waitedFor wait = true then s.fail else s

end PendingQuery

inductive ResultEvent where
  | result (reply : QueryResultReply)
  | failed (reply : FailQuery)
  | sync (reqId : UInt64) (ss : LocalSnapshot)
  | retry (reqId : UInt64) (isPoint : Bool)

def resultMachine (env : ResultEnv) : Machine PendingQuery ResultEvent where
  step s e :=
    if s.panicked then s
    else
      match e with
      | .result reply => s.handleQueryResult env reply
      | .failed reply => s.handleFailQuery env reply
      | .sync reqId ss => s.handleSync env reqId ss
      | .retry reqId isPoint => s.retryQuery env reqId isPoint

end Sintr.Results
