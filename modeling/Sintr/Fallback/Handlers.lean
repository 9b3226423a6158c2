import Sintr.Fallback.State

/-!
# Logging decisions and electing fallback leaders

The handlers of Phase2, Phase2FB, InvokeFB, ElectFB, DecisionFB and MoveView messages and their
callbacks, and the machine whose events are messages, callbacks, and what the other components do to
the tables they share.
-/

namespace Sintr.Fallback

open Quorum

namespace State

variable (env : Env)

/-! ## Phase2 -/

/-- `HandlePhase2CB`. The reply has been made out for `d`, but what it says is looked up, and
logged, under `key`. A message that asks for it is taken for valid. -/
def phase2CB (s : State) (msg : Phase2Msg) (d key : Digest) (valid : Bool) : State :=
  if !(valid || msg.simulatedEquiv) then s.panic
  else
    let s := if (s.p2MetaDatas key).hasP2 then s else s.store key msg.decision
    let s := s.setP2 key { s.p2MetaDatas key with original := some msg.reqId }
    s.record (.reply d (s.p2MetaDatas key).p2Decision
      (if env.params.validateProofs then some (s.p2MetaDatas key).decisionView else none))

/-- `ManagePhase2Validation`. On the main thread a valid message gets no answer. -/
def managePhase2Validation (s : State) (schedule : List Nat) (msg : Phase2Msg) (d : Digest)
    (txn : Transaction) : State :=
  let me := if msg.simulatedEquiv then none else s.lookupP1Decision env d
  if env.params.multiThreading then
    s.dispatch env (asyncValidateP1Replies env schedule msg.decision false txn d msg.groupedSigs me)
      (.phase2CB msg d)
  else if validateP1Replies env msg.decision false txn d msg.groupedSigs me then s
  else s.phase2CB env msg d d false

/-- The digest a Phase2 message is about; without validation it is not looked at. -/
def phase2Digest (msg : Phase2Msg) : Option Digest :=
  if env.params.validateProofs then msg.txnDigest.or (msg.txn.map env.digest) else some []

def phase2Txn (s : State) (msg : Phase2Msg) : Option Transaction :=
  match msg.txnDigest with
  | none => msg.txn
  | some d => (s.ongoing d).or (msg.txn.filter fun txn => env.digest txn == d)

/-- `HandlePhase2`. A message without its transaction waits for the Phase1 that brings it; it is
then handled again. -/
def handlePhase2 (s : State) (schedule : List Nat) (msg : Phase2Msg) : State :=
  match phase2Digest env msg with
  | none => s
  | some d =>
    let m := s.p2MetaDatas d
    if m.hasP2 then
      (s.setP2 d { m with original := some msg.reqId }).record
        (.reply d m.p2Decision (if env.params.validateProofs then some m.decisionView else none))
    else if s.committed d then s.replyFinished d .commit
    else if s.aborted d then s.replyFinished d .abort
    else if !(env.params.validateProofs && env.params.signedMessages) then
      s.record (.reply d msg.decision none)
    else
      match s.phase2Txn env msg with
      | none => s
      | some txn => s.managePhase2Validation env schedule msg d txn

/-! ## Phase2FB -/

def processP2FBCallback (s : State) (msg : Phase2FBMsg) (valid : Bool) : State :=
  let d := msg.txnDigest
  if !valid || s.hasWriteback d then s
  else if (s.p2MetaDatas d).hasP2 then s.replyStored d
  else
    ((s.setP2 d { s.p2MetaDatas d with decisionView := 0 }).store d msg.decision).replyStored d

/-- The transaction of a fallback message: the one that is ongoing, or else the one that comes with
the message. -/
def fallbackTxn (s : State) (msg : Phase2FBMsg) : Option Transaction :=
  (s.ongoing msg.txnDigest).or msg.txn

/-- `ProcessP2FB`. Unsigned replies are counted, but when there are too few it goes on to its last
line, which takes the message for valid. -/
def processP2FB (s : State) (schedule : List Nat) (msg : Phase2FBMsg) : State :=
  let d := msg.txnDigest
  match s.fallbackTxn msg with
  | none => s
  | some txn =>
    match msg.p2Replies, msg.p1Sigs with
    | some rs, _ =>
      if env.params.signedMessages then
        s.dispatch env (asyncValidateFBP2Replies env
          (if env.params.multiThreading then schedule else []) msg.decision txn d rs
          (s.lookupP2Decision env d)) (.processP2FBCallback msg)
      else if countP2Replies env msg.decision d rs then s.processP2FBCallback msg true
      else (s.processP2FBCallback msg false).processP2FBCallback msg true
    | none, some gs =>
      let me := s.lookupP1Decision env d
      if env.params.multiThreading then
        s.dispatch env (asyncValidateP1Replies env schedule msg.decision false txn d gs me)
          (.processP2FBCallback msg)
      else
        s.processP2FBCallback msg (validateP1Replies env msg.decision false txn d gs me)
    | none, none => s

def handlePhase2FB (s : State) (schedule : List Nat) (msg : Phase2FBMsg) : State :=
  if s.hasWriteback msg.txnDigest then s
  else if (s.p2MetaDatas msg.txnDigest).hasP2 then s.replyStored msg.txnDigest
  else s.processP2FB env schedule msg

/-! ## InvokeFB -/

/-- `InvokeFBcallback`: vote for the leader of the proposed view, if it is a later one. -/
def invokeFBcallback (s : State) (d : Digest) (proposedView : UInt64) (valid : Bool) : State :=
  let m := s.p2MetaDatas d
  if !valid || s.hasWriteback d then s
  else if !m.hasP2 then s
  else if !env.params.allToAllFb && proposedView ≤ m.currentView then s.sendView d
  else (s.moveTo d proposedView).sendElectFB env d proposedView m.p2Decision

def verifyViews (s : State) (schedule : List Nat) (msg : InvokeFBMsg) (logGroup : GroupId) :
    State :=
  let d := msg.txnDigest
  match msg.viewSigned with
  | none => s
  | some vs =>
    let myView := (s.p2MetaDatas d).currentView
    if env.params.multiThreading then
      s.dispatch env (asyncVerifyFBViews env schedule msg.proposedView msg.catchup logGroup d vs
        myView) (.invokeFBcallback d msg.proposedView)
    else s.invokeFBcallback env d msg.proposedView
      (verifyFBViews env msg.proposedView msg.catchup logGroup d vs myView)

/-- Move on with the decision that is logged: all together to the next view, or to the proposed one
if enough views support it. -/
def invoke (s : State) (schedule : List Nat) (msg : InvokeFBMsg) (logGroup : GroupId) : State :=
  let d := msg.txnDigest
  let m := s.p2MetaDatas d
  if env.params.allToAllFb then
    (s.processMoveView env d (m.currentView + 1) true).sendElectFB env d (m.currentView + 1)
      m.p2Decision
  else s.verifyViews env schedule msg logGroup

def invokeFBProcessP2FBCallback (s : State) (schedule : List Nat) (msg : InvokeFBMsg)
    (p2fb : Phase2FBMsg) (valid : Bool) : State :=
  let d := msg.txnDigest
  if !valid || s.hasWriteback d then s
  else
    (if (s.p2MetaDatas d).hasP2 then s
      else s.store d p2fb.decision).invoke env schedule msg env.groupIdx

/-- `InvokeFBProcessP2FB`. Replies without signatures are compared with the digest of the message
inside. -/
def invokeFBProcessP2FB (s : State) (schedule : List Nat) (msg : InvokeFBMsg)
    (p2fb : Phase2FBMsg) : State :=
  let d := msg.txnDigest
  match (s.ongoing d).or p2fb.txn with
  | none => s
  | some txn =>
    match getLogGroup txn d with
    | none => s.panic
    | some logGroup =>
      if env.groupIdx ≠ logGroup then s
      else
        match p2fb.p2Replies, p2fb.p1Sigs with
        | some rs, _ =>
          if env.params.signedMessages then
            s.dispatch env (asyncValidateFBP2Replies env
              (if env.params.multiThreading then schedule else []) p2fb.decision txn d rs
              (s.lookupP2Decision env d)) (.invokeFBProcessP2FBCallback msg p2fb)
          else s.invokeFBProcessP2FBCallback env schedule msg p2fb
            (countP2Replies env p2fb.decision p2fb.txnDigest rs)
        | none, some gs =>
          let me := s.lookupP1Decision env d
          if env.params.multiThreading then
            s.dispatch env (asyncValidateP1Replies env schedule p2fb.decision false txn d gs me)
              (.invokeFBProcessP2FBCallback msg p2fb)
          else s.invokeFBProcessP2FBCallback env schedule msg p2fb
            (validateP1Replies env p2fb.decision false txn d gs me)
        | none, none => s

def handleInvokeFB (s : State) (schedule : List Nat) (msg : InvokeFBMsg) : State :=
  let d := msg.txnDigest
  let m := s.p2MetaDatas d
  if s.hasWriteback d then s
  else if !env.params.allToAllFb && msg.proposedView ≤ m.currentView then s.sendView d
  else if !m.hasP2 then
    match msg.p2fb with
    | none => s
    | some p2fb => s.invokeFBProcessP2FB env schedule msg p2fb
  else
    match (s.ongoing d).or (msg.p2fb.bind (·.txn)) with
    | none => s
    | some txn =>
      match getLogGroup txn d with
      | none => s.panic
      | some logGroup =>
        if env.groupIdx ≠ logGroup then s else s.invoke env schedule msg logGroup

/-! ## ElectFB and DecisionFB -/

/-- `HandleElectFB`. On the main thread the signature has been moved out of the message before it
is verified. -/
def handleElectFB (s : State) (msg : ElectFBMsg) : State :=
  let d := msg.txnDigest
  let signer := msg.signature.processId
  if !env.params.signedMessages then s.panic
  else if !env.config.isReplicaInGroup signer env.groupIdx then s
  else if leaderIdx env msg.view d ≠ env.idx then s
  else if s.forwardsMulti d then s.clearInterested d
  else
    match s.preProcessElectFB d msg.view msg.decision signer with
    | none => s
    | some s =>
      let signed := Signed.elect d msg.decision msg.view
      if env.params.multiThreading then
        s.push (.electFBcallback msg (env.verify signer signed msg.signature.signature))
      else if env.verify signer signed [] then
        s.processElectFB env d msg.view msg.decision msg.signature
      else s

def electFBcallback (s : State) (msg : ElectFBMsg) (valid : Bool) : State :=
  let d := msg.txnDigest
  if !valid then s
  else if s.forwardsMulti d then s.clearInterested d
  else s.processElectFB env d msg.view msg.decision msg.signature

def ownElect (s : State) (d : Digest) (view : UInt64) (decision : CommitDecision) : State :=
  match s.preProcessElectFB d view decision env.id with
  | none => s
  | some s => s.processElectFB env d view decision ⟨env.id, env.sign (.elect d decision view)⟩

def fbDecisionCallback (s : State) (msg : DecisionFBMsg) (valid : Bool) : State :=
  let d := msg.txnDigest
  if !valid then s
  else if s.forwardsMulti d then s.clearInterested d
  else s.adoptDecision d msg.view msg.decision

/-- `HandleDecisionFB`. On the main thread nobody looks at the result of the validation. -/
def handleDecisionFB (s : State) (schedule : List Nat) (msg : DecisionFBMsg) : State :=
  let d := msg.txnDigest
  if s.forwardsMulti d then s.clearInterested d
  else if msg.view < (s.p2MetaDatas d).currentView || msg.view == 0 then s
  else
    match s.ongoing d with
    | none => s
    | some txn =>
      let me := s.lookupP2Decision env d
      if env.params.multiThreading then
        s.dispatch env (asyncValidateFBDecision env schedule msg.decision msg.view txn d
          msg.electSigs me) (.fbDecisionCallback msg)
      else
        match validateFBDecision env msg.decision msg.view txn d msg.electSigs me with
        | .panic => s.panic
        | _ => s.fbDecisionCallback msg true

/-- `ValidateHMACedMessage`: the session key is that of the sender's index in any group. -/
def validMoveView (msg : MoveViewMsg) : Bool :=
  !env.params.signedMessages ||
    env.verifyHMAC (msg.processId % UInt64.ofNat env.config.n) msg.txnDigest msg.view msg.hmac

def handleMoveView (s : State) (msg : MoveViewMsg) : State :=
  if !validMoveView env msg then s
  else if s.forwardsMulti msg.txnDigest then s.clearInterested msg.txnDigest
  else s.processMoveView env msg.txnDigest msg.view false

/-- `HandlePhase1FB` attaches the logged decision to its answer. -/
def attachP2 (s : State) (d : Digest) : State :=
  if s.hasWriteback d || !(s.p2MetaDatas d).hasP2 then s else s.replyStored d

/-- A callback of Phase2 has only a pointer to the digest: into the message, or to a local variable
of `HandlePhase2` if that has computed it, in whose place there is `stale` by now. -/
def runTask (s : State) (schedule : List Nat) (stale : Digest) : Task → State
  | .phase2CB msg d valid => s.phase2CB env msg d (msg.txnDigest.getD stale) valid
  | .processP2FBCallback msg valid => s.processP2FBCallback msg valid
  | .invokeFBProcessP2FBCallback msg p2fb valid =>
    s.invokeFBProcessP2FBCallback env schedule msg p2fb valid
  | .invokeFBcallback d proposedView valid => s.invokeFBcallback env d proposedView valid
  | .fbDecisionCallback msg valid => s.fbDecisionCallback msg valid
  | .electFBcallback msg valid => s.electFBcallback env msg valid
  | .ownElect d view decision => s.ownElect env d view decision
  | .stop => s.panic

end State

/-! ## The machine -/

/-- What other handlers do to the shared tables. -/
inductive Outside where
  | addOngoing (txn : Transaction)
  | removeOngoing (d : Digest)
  | clean (d : Digest)
  | commit (d : Digest)
  | abort (d : Digest)
  | writeback (d : Digest)
  | addInterested (d : Digest)
  | vote (d : Digest) (result : CCResult)

/-- Messages, closures that are run, and changes from outside. -/
inductive Event where
  | phase2 (msg : Phase2Msg) (schedule : List Nat)
  | phase2FB (msg : Phase2FBMsg) (schedule : List Nat)
  | invokeFB (msg : InvokeFBMsg) (schedule : List Nat)
  | electFB (msg : ElectFBMsg)
  | decisionFB (msg : DecisionFBMsg) (schedule : List Nat)
  | moveView (msg : MoveViewMsg)
  | phase1FB (d : Digest)
  | task (k : Nat) (schedule : List Nat) (stale : Digest := [])
  | outside (o : Outside)

def State.outside (env : Env) (s : State) : Outside → State
  | .addOngoing txn =>
    { s with ongoing := Function.update s.ongoing (env.digest txn) (some txn) }
  | .removeOngoing d => { s with ongoing := Function.update s.ongoing d none }
  | .clean d => s.clean d
  | .commit d => { s with committed := Function.update s.committed d true }
  | .abort d => { s with aborted := Function.update s.aborted d true }
  | .writeback d => { s with writebackMessages := Function.update s.writebackMessages d true }
  | .addInterested d => { s with interestedClients := Function.update s.interestedClients d true }
  | .vote d result => { s with p1Votes := Function.update s.p1Votes d (some result) }

def step (env : Env) (s : State) (e : Event) : State :=
  if s.crashed then s
  else
    match e with
    | .phase2 msg schedule => s.handlePhase2 env schedule msg
    | .phase2FB msg schedule => s.handlePhase2FB env schedule msg
    | .invokeFB msg schedule => s.handleInvokeFB env schedule msg
    | .electFB msg => s.handleElectFB env msg
    | .decisionFB msg schedule => s.handleDecisionFB env schedule msg
    | .moveView msg => s.handleMoveView env msg
    | .phase1FB d => s.attachP2 d
    | .task k schedule stale =>
      match s.tasks[k]? with
      | none => s
      | some t => { s with tasks := s.tasks.eraseIdx k }.runTask env schedule stale t
    | .outside o => s.outside env o

def fallbackMachine (env : Env) : Machine State Event := ⟨step env⟩

end Sintr.Fallback
