import Sintr.Data.Params
import Sintr.Lib.Quorum

/-!
# Validation of signatures

Decisions travel with the signatures that justify them: Phase1 votes, Phase2 replies, views and
votes for a fallback leader. Each kind is validated in two ways, by a loop on the main thread or by
worker threads that report back (`async…`).

A replica takes its own vote without looking at the signature, if the vote is the one it remembers
(`me`). Group ids have 64 bits in messages, but 32 where a worker's report or a set of verified
groups names them (`toInt`).
-/

namespace Sintr

open Quorum

/-- `GetLogGroup`: the involved group that logs decisions on `d`; with no group the server stops. -/
def getLogGroup (txn : Transaction) (d : Digest) : Option GroupId :=
  txn.involvedGroups[(d.headD 0).toNat % txn.involvedGroups.length]?

/-- A group id after it went through an `int` or a `uint32_t`. -/
def GroupId.toInt (g : GroupId) : GroupId := g.toUInt32.toUInt64

def Config.quorumSize (c : Config) : Nat := 4 * c.f + 1

section
variable (env : Env)

/-! ## Phase1 votes -/

def p1QuorumSize (decision : CommitDecision) (fast : Bool) : Nat :=
  match decision, fast with
  | .commit, true => env.config.n
  | .commit, false => 3 * env.config.f + 1
  | .abort, true => 3 * env.config.f + 1
  | .abort, false => env.config.f + 1

def votedResult : CommitDecision → CCResult
  | .commit => .commit
  | .abort => .abstain

def ccResultOf (commit : Bool) : CCResult := if commit then .commit else .abstain

/-- A vote in the name of this replica that it did not cast is refused. -/
def p1Ballot (decision : CommitDecision) (d : Digest) (me : Option (ProcessId × CCResult))
    (g : GroupId) (s : Signature) : Ballot GroupId ProcessId where
  group := g
  voter := s.processId
  admitted := env.config.isReplicaInGroup s.processId g &&
    !me.any fun m => m.1 == s.processId && m.2 != votedResult decision
  trusted := me.any fun m => m.1 == s.processId && m.2 == votedResult decision
  valid := env.verify s.processId (.vote (decision == .commit) d g) s.signature

def p1Ballots (decision : CommitDecision) (d : Digest) (me : Option (ProcessId × CCResult))
    (gs : GroupedSignatures) : List (Ballot GroupId ProcessId) :=
  gs.flatMap fun g => g.2.map (p1Ballot env decision d me g.1)

/-- `ValidateP1Replies`: every group has exactly a quorum, and for COMMIT every involved group is
there, in a set of `int`s. -/
def validateP1Replies (decision : CommitDecision) (fast : Bool) (txn : Transaction) (d : Digest)
    (gs : GroupedSignatures) (me : Option (ProcessId × CCResult)) : Bool :=
  (gs.all fun g => tally (g.2.map (p1Ballot env decision d me g.1)) [] 0 ==
      some (p1QuorumSize env decision fast)) &&
    (decision == .abort ||
      txn.involvedGroups.all fun g => (gs.map (·.1.toInt)).contains g.toInt)

/-- `asyncValidateP1Replies`: as many groups as are involved have a quorum; for ABORT only the first
group is looked at. Reports name the group by a `uint32_t`. -/
def asyncValidateP1Replies (schedule : List Nat) (decision : CommitDecision) (fast : Bool)
    (txn : Transaction) (d : Digest) (gs : GroupedSignatures)
    (me : Option (ProcessId × CCResult)) : Verdict :=
  match decision with
  | .commit => verifyAsync GroupId.toInt .panic schedule (p1Ballots env .commit d me gs)
      { quorumSize := p1QuorumSize env .commit fast, groupTotals := txn.involvedGroups.length }
  | .abort => verifyAsync GroupId.toInt .panic schedule (p1Ballots env .abort d me (gs.take 1))
      { quorumSize := p1QuorumSize env .abort fast, groupTotals := 1 }

/-! ## Phase2 replies -/

/-- Verification of the votes of one group, by workers. Their callback asserts that all votes are
counted under one name. -/
def verifyGroup (schedule : List Nat) (g : GroupId) (quorumSize : Nat)
    (bs : List (Ballot GroupId ProcessId)) : Verdict :=
  let count : Count GroupId := { quorumSize, groupTotals := 1 }
  if (collect .reject bs [] count []).isRight ∧ bs.any (·.trusted) ∧ bs.any (!·.trusted) ∧
      g.toInt ≠ g then .panic
  else verifyAsync id .reject schedule bs count

/-- A reply in the name of this replica is believed if the decision is the one it logged, in
whatever view. -/
def p2Ballot (admitted : Bool) (decision : CommitDecision) (view : UInt64) (d : Digest)
    (logGroup : GroupId) (me : Option (ProcessId × CommitDecision)) (s : Signature) :
    Ballot GroupId ProcessId where
  group := logGroup
  voter := s.processId
  admitted := admitted
  trusted := me.any fun m => m.1 == s.processId && m.2 == decision
  valid := env.verify s.processId (.p2Decision decision d (some logGroup) (some view)) s.signature

/-- `ValidateP2Replies`. Nothing ties the signers to the logging group. -/
def validateP2Replies (decision : CommitDecision) (view : UInt64) (txn : Transaction) (d : Digest)
    (gs : GroupedSignatures) (me : Option (ProcessId × CommitDecision)) : Verdict :=
  match getLogGroup txn d, gs with
  | none, _ => .panic
  | some lg, [(_, sigs)] =>
    if tally (sigs.map fun s => p2Ballot env
        (!me.any fun m => m.1 == s.processId && m.2 != decision) decision view d lg me s) [] 0 ==
      some env.config.quorumSize then .accept else .reject
  | some _, _ => .reject

def asyncValidateP2Replies (schedule : List Nat) (decision : CommitDecision) (view : UInt64)
    (txn : Transaction) (d : Digest) (gs : GroupedSignatures)
    (me : Option (ProcessId × CommitDecision)) : Verdict :=
  match getLogGroup txn d, gs with
  | none, _ => .panic
  | some lg, [(g, sigs)] =>
    if g ≠ lg then .reject
    else if env.config.f = 1 ∧ sigs.length ≠ 5 then .panic
    else verifyGroup schedule lg env.config.quorumSize
      (sigs.map fun s => p2Ballot env (env.config.isReplicaInGroup s.processId g) decision view d lg
        me s)
  | some _, _ => .reject

end

/-! ## Replies forwarded to the fallback -/

structure P2Reply where
  decision : CommitDecision
  digest : Digest
  group : Option GroupId := none
  view : Option UInt64 := none
  signature : Option Signature := none
  deriving DecidableEq, Repr

section
variable (env : Env)

def fbP2Ballot (decision : CommitDecision) (d : Digest) (logGroup : GroupId)
    (me : Option (ProcessId × CommitDecision)) (r : P2Reply) (s : Signature) :
    Ballot GroupId ProcessId where
  group := logGroup
  voter := s.processId
  admitted := r.decision == decision && r.digest == d &&
    env.config.isReplicaInGroup s.processId logGroup
  trusted := me.any fun m => m.1 == s.processId && m.2 == decision
  valid := env.verify s.processId (.p2Decision r.decision r.digest r.group r.view) s.signature

/-- `asyncValidateFBP2Replies`: `f + 1` matching replies of the logging group, in any views. An
unsigned one makes it return without calling back. -/
def asyncValidateFBP2Replies (schedule : List Nat) (decision : CommitDecision) (txn : Transaction)
    (d : Digest) (rs : List P2Reply) (me : Option (ProcessId × CommitDecision)) : Verdict :=
  if rs.length ≠ env.config.f + 1 then .reject
  else
    match getLogGroup txn d, rs.mapM (fun r => r.signature.map (r, ·)) with
    | none, _ => .panic
    | some _, none => .silent
    | some lg, some rs => verifyGroup schedule lg (env.config.f + 1)
        (rs.map fun r => fbP2Ballot env decision d lg me r.1 r.2)

/-- Without signatures `ProcessP2FB` counts matching replies. -/
def countP2Replies (decision : CommitDecision) (d : Digest) (rs : List P2Reply) : Bool :=
  env.config.f + 1 ≤
    rs.countP fun r => r.signature.isNone && r.decision == decision && r.digest == d

/-! ## Views -/

structure SignedView where
  view : UInt64
  digest : Digest
  replicaId : ProcessId
  signature : Signature
  deriving DecidableEq, Repr

/-- The smallest view that supports moving to `proposed`. -/
def viewBound (proposed : UInt64) (catchup : Bool) : UInt64 := proposed - if catchup then 0 else 1

def viewQuorumSize (catchup : Bool) : Nat :=
  if catchup then env.config.f + 1 else 3 * env.config.f + 1

def viewBallot (proposed : UInt64) (catchup : Bool) (logGroup : GroupId) (d : Digest)
    (myView : UInt64) (v : SignedView) : Ballot GroupId ProcessId where
  group := logGroup
  voter := v.signature.processId
  admitted := env.config.isReplicaInGroup v.signature.processId logGroup && v.digest == d &&
    viewBound proposed catchup ≤ v.view
  trusted := v.signature.processId == env.id && viewBound proposed catchup ≤ myView
  valid := env.verify v.signature.processId (.currentView v.view v.digest v.replicaId)
    v.signature.signature

def verifyFBViews (proposed : UInt64) (catchup : Bool) (logGroup : GroupId) (d : Digest)
    (vs : List SignedView) (myView : UInt64) : Bool :=
  reaches (viewQuorumSize env catchup)
    (vs.map (viewBallot env proposed catchup logGroup d myView)) [] 0

/-- `asyncVerifyFBViews`, which asserts that there is not more to verify than it needs. -/
def asyncVerifyFBViews (schedule : List Nat) (proposed : UInt64) (catchup : Bool)
    (logGroup : GroupId) (d : Digest) (vs : List SignedView) (myView : UInt64) : Verdict :=
  let ballots := vs.map (viewBallot env proposed catchup logGroup d myView)
  let count : Count GroupId := { quorumSize := viewQuorumSize env catchup, groupTotals := 1 }
  if (collect .reject ballots [] count []).isRight ∧
      (jobs ballots).length > viewQuorumSize env catchup then .panic
  else verifyGroup schedule logGroup (viewQuorumSize env catchup) ballots

/-! ## Decisions of a fallback leader -/

/-- A vote to elect a leader is believed if this replica has logged the same decision. -/
def electBallot (decision : CommitDecision) (view : UInt64) (d : Digest) (logGroup : GroupId)
    (me : Option (ProcessId × CommitDecision)) (s : Signature) : Ballot GroupId ProcessId where
  group := logGroup
  voter := s.processId
  admitted := env.config.isReplicaInGroup s.processId logGroup
  trusted := me.any fun m => m.1 == s.processId && m.2 == decision
  valid := env.verify s.processId (.elect d decision view) s.signature

def validateFBDecision (decision : CommitDecision) (view : UInt64) (txn : Transaction) (d : Digest)
    (sigs : List Signature) (me : Option (ProcessId × CommitDecision)) : Verdict :=
  match getLogGroup txn d with
  | none => .panic
  | some lg =>
    if reaches (2 * env.config.f + 1) (sigs.map (electBallot env decision view d lg me)) [] 0
    then .accept else .reject

def asyncValidateFBDecision (schedule : List Nat) (decision : CommitDecision) (view : UInt64)
    (txn : Transaction) (d : Digest) (sigs : List Signature)
    (me : Option (ProcessId × CommitDecision)) : Verdict :=
  match getLogGroup txn d with
  | none => .panic
  | some lg => verifyGroup schedule lg (2 * env.config.f + 1)
      (sigs.map (electBallot env decision view d lg me))

end

/-! ## What workers accept -/

theorem verifyGroup_hasQuorum {schedule : List Nat} {g : GroupId} {q : Nat}
    {bs : List (Ballot GroupId ProcessId)} (hg : ∀ b ∈ bs, b.group = g)
    (h : verifyGroup schedule g q bs = .accept) :
    HasQuorum q (fun b => b.admitted = true ∧ b.ok = true) bs := by
  unfold verifyGroup at h
  dsimp only at h
  split at h
  · cases h
  · exact verifyAsync_hasQuorum (by simp) hg h

end Sintr
