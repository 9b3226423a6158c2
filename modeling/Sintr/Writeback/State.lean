import Sintr.Cert.Proof
import Sintr.Lib.Machine

/-!
# How a replica commits and aborts

The decision on a transaction reaches a replica as a Writeback message, from a client or as the
abort proof in a sync message, or as the commit proof in a sync message. It is validated, on the
main thread or by workers, and then entered in `committed` or `aborted`, once. A Writeback that
comes before the Phase1 message of its transaction waits for it in `ooMessages`.

`HandleWriteback` hands a pointer to the digest on. When the message names the digest the pointer is
into the message, otherwise it is to a local variable, and a callback that runs later reads what is
there then: `Event.task` carries that.

`log` is the history: every validation with its arguments and verdict, and every decision. The
tables of other components (`ongoing`, the own votes) are changed by events of their own.
-/

namespace Sintr.Writeback

open Quorum

/-! ## Messages -/

inductive Proof where
  | p1Sigs (gs : GroupedSignatures)
  | p2Sigs (gs : GroupedSignatures)
  | conflict (proof : CommittedProof)
  deriving DecidableEq

structure Msg where
  decision : CommitDecision
  txnDigest : Option Digest := none
  txn : Option Transaction := none
  proof : Option Proof := none
  p2View : Option UInt64 := none
  deriving DecidableEq

inductive TxnInfo where
  | abort (abortProof : Option Msg)
  | commitProof (proof : CommittedProof)
  deriving DecidableEq

/-! ## Validations -/

/-- What is validated, with the replica's own vote or logged decision. -/
inductive Evidence where
  | p1 (gs : GroupedSignatures) (me : Option (ProcessId × CCResult))
  | p2 (gs : GroupedSignatures) (view : UInt64) (me : Option (ProcessId × CommitDecision))
  | conflict (proof : CommittedProof)
  | commitProof (proof : CommittedProof)
  deriving DecidableEq

structure Check where
  decision : CommitDecision
  txn : Transaction
  digest : Digest
  evidence : Evidence
  schedule : List Nat
  deriving DecidableEq

namespace Check

variable (env : Env)

/-- The verdict of the validator `ManageWritebackValidation` or `ProcessSuppliedTxn` calls. -/
def verdict (c : Check) : Verdict :=
  match c.evidence with
  | .p1 gs me =>
    if env.params.multiThreading then
      asyncValidateP1Replies env c.schedule c.decision true c.txn c.digest gs me
    else if validateP1Replies env c.decision true c.txn c.digest gs me then .accept else .reject
  | .p2 gs view me =>
    if env.params.multiThreading then
      asyncValidateP2Replies env c.schedule c.decision view c.txn c.digest gs me
    else validateP2Replies env c.decision view c.txn c.digest gs me
  | .conflict proof =>
    if env.params.multiThreading then
      asyncValidateCommittedConflict env c.schedule proof (env.digest proof.txn) c.txn
    else validateCommittedConflict env proof (env.digest proof.txn) c.txn
  | .commitProof proof => asyncValidateCommittedProof env c.schedule proof c.digest

def immediate (c : Check) : Bool :=
  match c.evidence with
  | .conflict proof =>
    proof.txn.isGenesis || proof.sigs.isNone || !transactionsConflict env proof.txn c.txn
  | .commitProof proof => proof.sigs.isNone
  | _ => false

end Check

/-! ## State -/

inductive Entry where
  | checked (c : Check) (v : Verdict)
  | commit (d : Digest) (proof : Option CommittedProof)
  | commitToStore (d : Digest)
  | abort (d : Digest)
  | invalid (d : Digest)
  deriving DecidableEq

inductive Task where
  | writebackCallback (msg : Msg) (txn : Transaction) (valid : Bool)
  | handleWriteback (msg : Msg)
  | commitWithProof (d : Digest) (proof : CommittedProof)
  | stop
  deriving DecidableEq

/-- The tables of a replica that finish transactions. -/
structure State where
  ongoing : Digest → Option Transaction := fun _ => none
  /-- Committed transactions with their proofs (none without `validateProofs`). -/
  committed : Digest → Option (Option CommittedProof) := fun _ => none
  aborted : Digest → Bool := fun _ => false
  writebackMessages : Digest → Option Msg := fun _ => none
  /-- Writebacks that wait for their transaction. -/
  ooMessages : Digest → Option Msg := fun _ => none
  suppliedSync : Digest → Bool := fun _ => false
  p1Votes : Digest → Option CCResult := fun _ => none
  p2Decisions : Digest → Option CommitDecision := fun _ => none
  tasks : List Task := []
  log : List Entry := []
  crashed : Bool := false

namespace State

variable (env : Env)

def panic (s : State) : State := { s with crashed := true }

def record (s : State) (e : Entry) : State := { s with log := s.log ++ [e] }

def push (s : State) (t : Task) : State := { s with tasks := s.tasks ++ [t] }

def decided (s : State) (d : Digest) : Bool := (s.committed d).isSome || s.aborted d

def addOngoing (s : State) (d : Digest) (txn : Transaction) : State :=
  { s with ongoing := Function.update s.ongoing d (some txn) }

def clean (s : State) (d : Digest) : State :=
  { s with ongoing := Function.update s.ongoing d none }

/-- `Clean` with `hard`, for a transaction that turned out invalid. -/
def cleanHard (s : State) (d : Digest) : State :=
  if (s.ongoing d).isSome then
    ({ s with aborted := Function.update s.aborted d true }.clean d).record (.invalid d)
  else s

def lookupP1Decision (s : State) (d : Digest) : Option (ProcessId × CCResult) :=
  ((s.p1Votes d).filter (· ≠ .wait)).map (env.id, ·)

def lookupP2Decision (s : State) (d : Digest) : Option (ProcessId × CommitDecision) :=
  (s.p2Decisions d).map (env.id, ·)

/-! ## Decisions -/

/-- `CommitWithProof`, and `Commit` once it has made the proof: only the first one counts. -/
def commitWithProof (s : State) (d : Digest) (proof : Option CommittedProof) : State :=
  if (s.committed d).isSome then s
  else
    let s := { s with committed := Function.update s.committed d (some proof) }
    ((s.record (.commit d proof)).record (.commitToStore d)).clean d

end State

def Msg.committedProof (env : Env) (msg : Msg) (txn : Transaction) : Option CommittedProof :=
  if !env.params.validateProofs then none
  else if !env.params.signedMessages then some { txn }
  else
    match msg.proof with
    | some (.p1Sigs gs) => some { txn, sigs := some (.p1 gs) }
    | some (.p2Sigs gs) => some { txn, sigs := some (.p2 gs), p2View := some (msg.p2View.getD 0) }
    | _ => some { txn, p2View := some 0 }

namespace State

variable (env : Env)

/-- `Abort`, after the message is kept for those who ask. -/
def abort (s : State) (d : Digest) (msg : Msg) (txn : Transaction) : State :=
  let s := { s with
    writebackMessages := Function.update s.writebackMessages d
      (some ((s.writebackMessages d).getD { msg with txn := some txn })),
    aborted := Function.update s.aborted d true }
  (s.record (.abort d)).clean d

/-- What `WritebackCallback` does for a valid message. -/
def applyWriteback (s : State) (msg : Msg) (d : Digest) (txn : Transaction) : State :=
  if s.decided d then s
  else
    match msg.decision with
    | .commit => s.commitWithProof d (msg.committedProof env txn)
    | .abort => s.abort d msg txn

def writebackCallback (s : State) (msg : Msg) (d : Digest) (txn : Transaction) (valid : Bool) :
    State :=
  if !valid then s.panic
  else if env.params.mainThreadDispatching && env.params.dispatchCallbacks then
    s.push (.writebackCallback msg txn true)
  else s.applyWriteback env msg d txn

/-! ## Validation -/

def validate (s : State) (msg : Msg) (c : Check) : State :=
  let v := c.verdict env
  let s := s.record (.checked c v)
  if env.params.multiThreading && !c.immediate env then
    match v with
    | .accept => s.push (.writebackCallback msg c.txn true)
    | .reject => s.push (.writebackCallback msg c.txn false)
    | .silent => s
    | .panic => s.push .stop
  else
    match v with
    | .accept => s.writebackCallback env msg c.digest c.txn true
    | .reject => s.writebackCallback env msg c.digest c.txn false
    | .silent => s
    | .panic => s.panic

def manageWritebackValidation (s : State) (msg : Msg) (d : Digest) (txn : Transaction)
    (schedule : List Nat) : State :=
  let valid := s.writebackCallback env msg d txn true
  if !env.params.validateProofs then valid
  else
    match msg.proof with
    | some (.p1Sigs gs) =>
      if env.params.signedMessages then
        s.validate env msg ⟨msg.decision, txn, d, .p1 gs (s.lookupP1Decision env d), schedule⟩
      else valid
    | some (.p2Sigs gs) =>
      if env.params.signedMessages then
        match msg.p2View with
        | none => s
        | some view => s.validate env msg
            ⟨msg.decision, txn, d, .p2 gs view (s.lookupP2Decision env d), schedule⟩
      else valid
    | some (.conflict proof) =>
      if msg.decision = .abort then s.validate env msg ⟨.abort, txn, d, .conflict proof, schedule⟩
      else if env.params.signedMessages then s.panic
      else valid
    | none => if env.params.signedMessages then s.panic else valid

/-- `Clean` again, since a client may have put the transaction back into `ongoing`. -/
def reclean (s : State) (d : Digest) : State :=
  if env.params.multiThreading || env.params.mainThreadDispatching then s.clean d else s

def handleWriteback (s : State) (msg : Msg) (schedule : List Nat) : State :=
  match msg.txnDigest, msg.txn with
  | none, none => s.panic
  | some d, txn =>
    if s.decided d then s.reclean env d
    else
      match s.ongoing d, txn with
      | some txn, _ => s.manageWritebackValidation env msg d txn schedule
      | none, some txn =>
        if d = env.digest txn then s.manageWritebackValidation env msg d txn schedule else s
      | none, none =>
        { s with ooMessages :=
            Function.update s.ooMessages d (some ((s.ooMessages d).getD msg)) }
  | none, some txn =>
    if s.decided (env.digest txn) then s.reclean env (env.digest txn)
    else s.manageWritebackValidation env msg (env.digest txn) txn schedule

/-- `HandlePhase1`, up to the check of the transaction: a Writeback that has waited is handled in
its place. `hasP1` says that there is a result already. -/
def handlePhase1 (s : State) (txn : Transaction) (hasP1 : Bool) (schedule : List Nat) : State :=
  let d := env.digest txn
  match s.ooMessages d with
  | some msg =>
    let s := (s.addOngoing d txn).handleWriteback env msg schedule
    { s with ooMessages := Function.update s.ooMessages d none }
  | none => if hasP1 || s.decided d then s else s.addOngoing d txn

def validateProof (s : State) (proof : CommittedProof) (c : Check) : State :=
  let v := c.verdict env
  let s := s.record (.checked c v)
  match v with
  | .accept => s.push (.commitWithProof c.digest proof)
  | .silent => s
  | _ => if c.immediate env then s.panic else s.push .stop

def processSuppliedTxn (s : State) (d : Digest) (info : TxnInfo) (schedule : List Nat) : State :=
  if s.suppliedSync d then s
  else
    let s := { s with suppliedSync := Function.update s.suppliedSync d true }
    if s.decided d then s
    else
      match info with
      | .abort none => s.panic
      | .abort (some msg) =>
        if env.params.parallelQueries && env.params.mainThreadDispatching then
          s.push (.handleWriteback msg)
        else s.handleWriteback env msg schedule
      | .commitProof proof =>
        if proof.txn.isGenesis then s
        else if d ≠ env.digest proof.txn then s.panic
        else s.validateProof env proof ⟨.commit, proof.txn, d, .commitProof proof, schedule⟩

def runTask (s : State) (stale : Digest) (schedule : List Nat) : Task → State
  | .writebackCallback msg txn valid =>
    if valid then s.applyWriteback env msg (msg.txnDigest.getD stale) txn else s.panic
  | .handleWriteback msg => s.handleWriteback env msg schedule
  | .commitWithProof d proof => s.commitWithProof d (some proof)
  | .stop => s.panic

end State

/-! ## Steps -/

/-- Messages, callbacks, and what other handlers do to the tables. -/
inductive Event where
  | writeback (msg : Msg) (schedule : List Nat)
  | phase1 (txn : Transaction) (hasP1 : Bool) (schedule : List Nat)
  | supply (d : Digest) (info : TxnInfo) (schedule : List Nat)
  | task (k : Nat) (stale : Digest) (schedule : List Nat)
  /-- The fallback or sync puts a transaction into `ongoing`. -/
  | addOngoing (txn : Transaction)
  | cleanHard (d : Digest)
  | vote (d : Digest) (result : CCResult)
  | log (d : Digest) (decision : CommitDecision)
  deriving DecidableEq

variable (env : Env)

def step (s : State) (e : Event) : State :=
  if s.crashed then s
  else
    match e with
    | .writeback msg schedule => s.handleWriteback env msg schedule
    | .phase1 txn hasP1 schedule => s.handlePhase1 env txn hasP1 schedule
    | .supply d info schedule => s.processSuppliedTxn env d info schedule
    | .task k stale schedule =>
      match s.tasks[k]? with
      | some t => { s with tasks := s.tasks.eraseIdx k }.runTask env stale schedule t
      | none => s
    | .addOngoing txn => s.addOngoing (env.digest txn) txn
    | .cleanHard d => s.cleanHard d
    | .vote d result => { s with p1Votes := Function.update s.p1Votes d (some result) }
    | .log d decision => { s with p2Decisions := Function.update s.p2Decisions d (some decision) }

def machine : Machine State Event := ⟨step env⟩

end Sintr.Writeback
