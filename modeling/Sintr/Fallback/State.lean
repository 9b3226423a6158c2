import Sintr.Cert.Signatures
import Sintr.Lib.Machine

/-!
# The Phase2 state of a replica

Once the votes on a transaction are in, its decision is logged at the replicas of one group. If the
client fails, others take over: they have a fallback leader elected, view after view, who decides.
This module has the tables a replica keeps for that, and the functions that change or announce a
decision. `log` is the history of what it did, in order.

The tables of the other components (`ongoing`, `committed`, `aborted`, `writebackMessages`,
`interestedClients`, `p1Votes`) are changed by events of their own.

A reply or vote counts as sent when its content is handed to the signer.
-/

namespace Sintr.Fallback

open Quorum

/-! ## Messages -/

structure Phase2Msg where
  reqId : UInt64
  decision : CommitDecision
  txn : Option Transaction := none
  txnDigest : Option Digest := none
  groupedSigs : GroupedSignatures := []
  simulatedEquiv : Bool := false
  deriving DecidableEq

structure Phase2FBMsg where
  reqId : UInt64
  decision : CommitDecision
  txn : Option Transaction := none
  txnDigest : Digest
  p1Sigs : Option GroupedSignatures := none
  p2Replies : Option (List P2Reply) := none
  deriving DecidableEq

structure InvokeFBMsg where
  reqId : UInt64
  txnDigest : Digest
  p2fb : Option Phase2FBMsg := none
  proposedView : UInt64
  catchup : Bool := false
  viewSigned : Option (List SignedView) := none
  deriving DecidableEq

structure DecisionFBMsg where
  txnDigest : Digest
  decision : CommitDecision
  view : UInt64
  electSigs : List Signature := []
  deriving DecidableEq

structure ElectFBMsg where
  txnDigest : Digest
  decision : CommitDecision
  view : UInt64
  signature : Signature
  deriving DecidableEq

/-- A MoveView message; the sender is the one its MAC is checked for. -/
structure MoveViewMsg where
  processId : ProcessId
  txnDigest : Digest
  view : UInt64
  hmac : Bytes := []
  deriving DecidableEq

/-! ## Tables -/

/-- The logged decision of a transaction and the views it is in. -/
structure P2MetaData where
  currentView : UInt64 := 0
  decisionView : UInt64 := 0
  hasP2 : Bool := false
  p2Decision : CommitDecision := .commit
  /-- The request of the original client, once it has asked. -/
  original : Option UInt64 := none
  deriving Inhabited

/-- The votes that a leader has for a decision in a view. -/
structure ElectQuorum where
  voters : List ProcessId := []
  sigs : List Signature := []
  deriving Inhabited

/-- What a replica did, in order. -/
inductive Entry where
  | store (d : Digest) (decision : CommitDecision)
  | adopt (d : Digest) (view : UInt64) (decision : CommitDecision) (logged : Bool)
  /-- It found the transaction committed or aborted before any decision was logged. -/
  | finished (d : Digest) (decision : CommitDecision)
  | reply (d : Digest) (decision : CommitDecision) (view : Option UInt64)
  | elect (d : Digest) (view : UInt64) (decision : CommitDecision)
  | view (d : Digest) (view : UInt64)
  | decisionFB (d : Digest) (view : UInt64) (decision : CommitDecision) (sigs : List Signature)
  | moveView (d : Digest) (view : UInt64)
  /-- Enough replicas have asked for the view. -/
  | raise (d : Digest) (view : UInt64)
  deriving DecidableEq

/-- A callback that waits for signatures to be checked or made. -/
inductive Task where
  | phase2CB (msg : Phase2Msg) (d : Digest) (valid : Bool)
  | processP2FBCallback (msg : Phase2FBMsg) (valid : Bool)
  | invokeFBProcessP2FBCallback (msg : InvokeFBMsg) (p2fb : Phase2FBMsg) (valid : Bool)
  | invokeFBcallback (d : Digest) (proposedView : UInt64) (valid : Bool)
  | fbDecisionCallback (msg : DecisionFBMsg) (valid : Bool)
  | electFBcallback (msg : ElectFBMsg) (valid : Bool)
  | ownElect (d : Digest) (view : UInt64) (decision : CommitDecision)
  | stop
  deriving DecidableEq

/-- The tables of a replica that the fallback uses. -/
structure State where
  ongoing : Digest → Option Transaction := fun _ => none
  committed : Digest → Bool := fun _ => false
  aborted : Digest → Bool := fun _ => false
  writebackMessages : Digest → Bool := fun _ => false
  interestedClients : Digest → Bool := fun _ => false
  p1Votes : Digest → Option CCResult := fun _ => none
  p2MetaDatas : Digest → P2MetaData := fun _ => {}
  /-- Whether there is an entry in `ElectQuorums`, which the next three tables are parts of. -/
  organizers : Digest → Bool := fun _ => false
  electQuorums : Digest → UInt64 → CommitDecision → ElectQuorum := fun _ _ _ => {}
  viewComplete : Digest → UInt64 → Bool := fun _ _ => false
  /-- Votes to move to a view, and whether the own one is still to be cast. -/
  moveViewCounts : Digest → UInt64 → Nat × Bool := fun _ _ => (0, true)
  tasks : List Task := []
  log : List Entry := []
  crashed : Bool := false

namespace State

variable (env : Env)

def panic (s : State) : State := { s with crashed := true }

def record (s : State) (e : Entry) : State := { s with log := s.log ++ [e] }

def push (s : State) (t : Task) : State := { s with tasks := s.tasks ++ [t] }

def setP2 (s : State) (d : Digest) (m : P2MetaData) : State :=
  { s with p2MetaDatas := Function.update s.p2MetaDatas d m }

def dispatch (s : State) (v : Verdict) (callback : Bool → Task) : State :=
  match v with
  | .accept => s.push (callback true)
  | .reject => s.push (callback false)
  | .silent => s
  | .panic => if env.params.multiThreading then s.push .stop else s.panic

/-- `ForwardWriteback`: a certificate is sent instead. -/
def hasWriteback (s : State) (d : Digest) : Bool := s.committed d || s.writebackMessages d

/-- `ForwardWritebackMulti`: so are all clients that wait. -/
def forwardsMulti (s : State) (d : Digest) : Bool := s.interestedClients d && s.hasWriteback d

def clearInterested (s : State) (d : Digest) : State :=
  { s with interestedClients := Function.update s.interestedClients d false }

def lookupP1Decision (s : State) (d : Digest) : Option (ProcessId × CCResult) :=
  ((s.p1Votes d).filter (· ≠ .wait)).map (env.id, ·)

def lookupP2Decision (s : State) (d : Digest) : Option (ProcessId × CommitDecision) :=
  if (s.p2MetaDatas d).hasP2 then some (env.id, (s.p2MetaDatas d).p2Decision) else none

/-! ## Announcing and changing a decision -/

def replyStored (s : State) (d : Digest) : State :=
  s.record (.reply d (s.p2MetaDatas d).p2Decision (some (s.p2MetaDatas d).decisionView))

def sendView (s : State) (d : Digest) : State := s.record (.view d (s.p2MetaDatas d).currentView)

def store (s : State) (d : Digest) (decision : CommitDecision) : State :=
  (s.setP2 d { s.p2MetaDatas d with p2Decision := decision, hasP2 := true }).record
    (.store d decision)

def replyFinished (s : State) (d : Digest) (decision : CommitDecision) : State :=
  (s.record (.finished d decision)).record (.reply d decision (some 0))

def adopted (m : P2MetaData) (view : UInt64) (decision : CommitDecision) : P2MetaData :=
  let m := if m.currentView < view then { m with currentView := view } else m
  if m.decisionView < view then
    { m with decisionView := view, p2Decision := decision, hasP2 := true }
  else m

/-- `AdoptDecision`: the reply carries the decision that was to be adopted, whether or not it
was. -/
def adoptDecision (s : State) (d : Digest) (view : UInt64) (decision : CommitDecision) : State :=
  if view < (s.p2MetaDatas d).currentView then s
  else ((s.setP2 d (adopted (s.p2MetaDatas d) view decision)).record
    (.adopt d view decision ((s.p2MetaDatas d).decisionView < view))).record
      (.reply d decision (some view))

/-! ## Electing a leader -/

/-- The leader of a view of `d` within its group; the first byte of the digest is a signed
`char`. -/
def leaderIdx (view : UInt64) (d : Digest) : Nat :=
  let c := (d.headD 0).toUInt64
  (view + if c < 128 then c else c - 256).toNat % env.config.n

/-- `SendElectFB`: the vote goes to the leader, or is counted here. -/
def sendElectFB (s : State) (d : Digest) (view : UInt64) (decision : CommitDecision) : State :=
  let s := s.record (.elect d view decision)
  if leaderIdx env view d = env.idx then s.push (.ownElect d view decision) else s

/-- `ElectQuorums.insert`. -/
def openOrganizer (s : State) (d : Digest) : State :=
  { s with organizers := Function.update s.organizers d true }

def setElectQuorum (s : State) (d : Digest) (view : UInt64) (decision : CommitDecision)
    (q : ElectQuorum) : State :=
  { s with electQuorums := fun d' v' c' =>
      if d' = d ∧ v' = view ∧ c' = decision then q else s.electQuorums d' v' c' }

/-- `PreProcessElectFB`: whether the voter is new, and then it is remembered. -/
def preProcessElectFB (s : State) (d : Digest) (view : UInt64) (decision : CommitDecision)
    (voter : ProcessId) : Option State :=
  let q := s.electQuorums d view decision
  if voter ∈ q.voters then none
  else some ((s.openOrganizer d).setElectQuorum d view decision
    { q with voters := voter :: q.voters })

def completeView (s : State) (d : Digest) (view : UInt64) : State :=
  { s with viewComplete := fun d' v' => if d' = d ∧ v' = view then true else s.viewComplete d' v' }

/-- `ProcessElectFB`: with enough votes the leader decides, once per view. If the transaction has
been cleaned since the vote was noted, the vote is lost. -/
def processElectFB (s : State) (d : Digest) (view : UInt64) (decision : CommitDecision)
    (sig : Signature) : State :=
  if !s.organizers d then s
  else if s.viewComplete d view then s
  else
    let q := s.electQuorums d view decision
    let q := { q with sigs := q.sigs ++ [sig] }
    let s := s.setElectQuorum d view decision q
    if q.sigs.length = 2 * env.config.f + 1 then
      ((s.completeView d view).record (.decisionFB d view decision q.sigs)).adoptDecision d view
        decision
    else s

/-! ## Moving to a view with all other replicas -/

def setMoveViewCount (s : State) (d : Digest) (view : UInt64) (c : Nat × Bool) : State :=
  { s.openOrganizer d with moveViewCounts := fun d' v' =>
      if d' = d ∧ v' = view then c else s.moveViewCounts d' v' }

def castMoveView (s : State) (d : Digest) (view : UInt64) : State × Nat :=
  let c := s.moveViewCounts d view
  ((s.setMoveViewCount d view (c.1 + 1, false)).record (.moveView d view), c.1 + 1)

def countMoveView (s : State) (d : Digest) (view : UInt64) (self : Bool) : State × Nat :=
  let c := s.moveViewCounts d view
  if self then if c.2 then s.castMoveView d view else (s, 0)
  else (s.setMoveViewCount d view (c.1 + 1, c.2), c.1 + 1)

def moveTo (s : State) (d : Digest) (view : UInt64) : State :=
  s.setP2 d { s.p2MetaDatas d with currentView := view }

def processMoveView (s : State) (d : Digest) (view : UInt64) (self : Bool) : State :=
  let r := s.countMoveView d view self
  if view ≤ (r.1.p2MetaDatas d).currentView then r.1
  else
    let r := if r.2 = env.config.f + 1 ∧ (r.1.moveViewCounts d view).2 then r.1.castMoveView d view
      else r
    if r.2 = 2 * env.config.f + 1 then (r.1.moveTo d view).record (.raise d view) else r.1

/-- `Clean`, as far as it is about the fallback: a finished transaction has no organizer, but its
decision stays. -/
def clean (s : State) (d : Digest) : State :=
  { s.clearInterested d with
    ongoing := Function.update s.ongoing d none
    organizers := Function.update s.organizers d false
    electQuorums := Function.update s.electQuorums d fun _ _ => {}
    viewComplete := Function.update s.viewComplete d fun _ => false
    moveViewCounts := Function.update s.moveViewCounts d fun _ => (0, true) }

end State

end Sintr.Fallback
