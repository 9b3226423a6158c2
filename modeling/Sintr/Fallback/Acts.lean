import Mathlib.Logic.Relation
import Sintr.Fallback.Handlers

/-!
# What the handlers do

The handlers differ in how they find and check their proofs, but what they then do to the state is
one of a few actions. `Does env s₀ e` lists them for an event `e` in the state `s₀`, each with what
the event must have brought for it (`Stores`, `Adopts`, `Pushes`). `step_acts` says that every event
of the machine is a sequence of actions; whatever else is known of the handlers follows from it.

A proof is checked when its message comes, and acted on later, when a callback reports the verdict.
What is known of the verdict has to be carried by the callback in between.
-/

namespace Sintr.Fallback

open Quorum Relation

/-! ## Proofs in fallback messages -/

/-- The proof in a fallback message convinced one of the validators, for the transaction `txn`. -/
def Validated (env : Env) (msg : Phase2FBMsg) (txn : Transaction) (d : Digest) : Prop :=
  match msg.p2Replies, msg.p1Sigs with
  | some rs, _ =>
    if env.params.signedMessages then
      ∃ schedule me, asyncValidateFBP2Replies env schedule msg.decision txn d rs me = .accept
    else countP2Replies env msg.decision d rs = true
  | none, some gs =>
    ∃ me, validateP1Replies env msg.decision false txn d gs me = true ∨
      ∃ schedule, asyncValidateP1Replies env schedule msg.decision false txn d gs me = .accept
  | none, none => False

section
variable {env : Env} {msg : Phase2FBMsg} {txn : Transaction} {d : Digest} {rs : List P2Reply}

theorem Validated.replies {schedule : List Nat} {me : Option (ProcessId × CommitDecision)}
    (hrs : msg.p2Replies = some rs) (hsigned : env.params.signedMessages = true)
    (h : asyncValidateFBP2Replies env schedule msg.decision txn d rs me = .accept) :
    Validated env msg txn d := by
  simp only [Validated, hrs, hsigned, if_true]
  exact ⟨schedule, me, h⟩

theorem Validated.counted (hrs : msg.p2Replies = some rs)
    (hsigned : ¬env.params.signedMessages = true)
    (h : countP2Replies env msg.decision d rs = true) : Validated env msg txn d := by
  simp only [Validated, hrs]
  rwa [if_neg hsigned]

theorem Validated.votes {gs : GroupedSignatures} {me : Option (ProcessId × CCResult)}
    (hrs : msg.p2Replies = none) (hgs : msg.p1Sigs = some gs)
    (h : validateP1Replies env msg.decision false txn d gs me = true ∨
      ∃ schedule, asyncValidateP1Replies env schedule msg.decision false txn d gs me = .accept) :
    Validated env msg txn d := by
  simp only [Validated, hrs, hgs]
  exact ⟨me, h⟩

end

/-- The proof was validated, or it consists of unsigned replies, of which enough are for `d'` or
not. -/
def ValidatedOr (env : Env) (msg : Phase2FBMsg) (txn : Transaction) (d d' : Digest)
    (enough : Bool) : Prop :=
  Validated env msg txn d ∨ ∃ rs, env.params.signedMessages = false ∧ msg.p2Replies = some rs ∧
    countP2Replies env msg.decision d' rs = enough

/-! ## What an event brings -/

/-- The event is a callback of Phase2 that no longer finds the digest its reply is made out for. -/
def Stale (s : State) : Event → Prop
  | .task k _ stale =>
    match s.tasks[k]? with
    | some (.phase2CB msg d _) => msg.txnDigest.getD stale ≠ d
    | _ => False
  | _ => False

instance (s : State) : DecidablePred (Stale s) := fun e => by
  unfold Stale
  split
  · split <;> infer_instance
  · infer_instance

/-- The event brings a first decision that has passed, as its proof was accepted or for other
reasons. -/
inductive Stores (env : Env) (s : State) : Event → Digest → CommitDecision → Prop where
  | equivocation (msg : Phase2Msg) (schedule : List Nat) (d : Digest)
      (h : msg.simulatedEquiv = true) : Stores env s (.phase2 msg schedule) d msg.decision
  | phase2CB (k : Nat) (schedule : List Nat) (stale : Digest) (msg : Phase2Msg) (d : Digest)
      (valid : Bool) (h : s.tasks[k]? = some (.phase2CB msg d valid))
      (hv : (valid || msg.simulatedEquiv) = true) :
      Stores env s (.task k schedule stale) (msg.txnDigest.getD stale) msg.decision
  | phase2FB (msg : Phase2FBMsg) (schedule : List Nat) (txn : Transaction)
      (htxn : s.fallbackTxn msg = some txn)
      (h : ValidatedOr env msg txn msg.txnDigest msg.txnDigest false) :
      Stores env s (.phase2FB msg schedule) msg.txnDigest msg.decision
  | phase2FBCallback (k : Nat) (schedule : List Nat) (stale : Digest) (msg : Phase2FBMsg)
      (h : s.tasks[k]? = some (.processP2FBCallback msg true)) :
      Stores env s (.task k schedule stale) msg.txnDigest msg.decision
  | invokeFB (msg : InvokeFBMsg) (schedule : List Nat) (p2fb : Phase2FBMsg) (txn : Transaction)
      (hp2fb : msg.p2fb = some p2fb) (htxn : (s.ongoing msg.txnDigest).or p2fb.txn = some txn)
      (h : ValidatedOr env p2fb txn msg.txnDigest p2fb.txnDigest true) :
      Stores env s (.invokeFB msg schedule) msg.txnDigest p2fb.decision
  | invokeFBCallback (k : Nat) (schedule : List Nat) (stale : Digest) (msg : InvokeFBMsg)
      (p2fb : Phase2FBMsg) (h : s.tasks[k]? = some (.invokeFBProcessP2FBCallback msg p2fb true)) :
      Stores env s (.task k schedule stale) msg.txnDigest p2fb.decision

/-- The event brings the decision of a view: in a DecisionFB message that has passed, or with the
last of the votes by which the replica itself becomes the leader. -/
inductive Adopts (env : Env) (s : State) : Event → Digest → UInt64 → CommitDecision → Prop where
  | decisionFB (msg : DecisionFBMsg) (schedule : List Nat) (txn : Transaction)
      (hmt : env.params.multiThreading = false) (htxn : s.ongoing msg.txnDigest = some txn) :
      Adopts env s (.decisionFB msg schedule) msg.txnDigest msg.view msg.decision
  | fbDecisionCallback (k : Nat) (schedule : List Nat) (stale : Digest) (msg : DecisionFBMsg)
      (h : s.tasks[k]? = some (.fbDecisionCallback msg true)) :
      Adopts env s (.task k schedule stale) msg.txnDigest msg.view msg.decision
  | electFB (msg : ElectFBMsg) (hq : (s.electQuorums msg.txnDigest msg.view
        msg.decision).sigs.length = 2 * env.config.f) :
      Adopts env s (.electFB msg) msg.txnDigest msg.view msg.decision
  | electFBcallback (k : Nat) (schedule : List Nat) (stale : Digest) (msg : ElectFBMsg)
      (h : s.tasks[k]? = some (.electFBcallback msg true))
      (hq : (s.electQuorums msg.txnDigest msg.view msg.decision).sigs.length =
        2 * env.config.f) :
      Adopts env s (.task k schedule stale) msg.txnDigest msg.view msg.decision
  | ownElect (k : Nat) (schedule : List Nat) (stale : Digest) (d : Digest) (v : UInt64)
      (c : CommitDecision) (h : s.tasks[k]? = some (.ownElect d v c))
      (hq : (s.electQuorums d v c).sigs.length = 2 * env.config.f) :
      Adopts env s (.task k schedule stale) d v c

/-- The event is a vote for a leader. -/
def Elects (s : State) : Event → Prop
  | .electFB _ => True
  | .task k _ _ =>
    match s.tasks[k]? with
    | some (.electFBcallback ..) => True
    | some (.ownElect ..) => True
    | _ => False
  | _ => False

/-- The callbacks that the event may leave behind, with what a validator has said. -/
inductive Pushes (env : Env) (s : State) : Event → Task → Prop where
  | phase2CB (msg : Phase2Msg) (schedule : List Nat) (d : Digest) (valid : Bool) :
      Pushes env s (.phase2 msg schedule) (.phase2CB msg d valid)
  | phase2FB (msg : Phase2FBMsg) (schedule : List Nat) (txn : Transaction) (valid : Bool)
      (htxn : s.fallbackTxn msg = some txn)
      (h : valid = true → Validated env msg txn msg.txnDigest) :
      Pushes env s (.phase2FB msg schedule) (.processP2FBCallback msg valid)
  | invokeFB (msg : InvokeFBMsg) (schedule : List Nat) (p2fb : Phase2FBMsg) (txn : Transaction)
      (valid : Bool) (hp2fb : msg.p2fb = some p2fb)
      (htxn : (s.ongoing msg.txnDigest).or p2fb.txn = some txn)
      (h : valid = true → Validated env p2fb txn msg.txnDigest) :
      Pushes env s (.invokeFB msg schedule) (.invokeFBProcessP2FBCallback msg p2fb valid)
  | views (e : Event) (d : Digest) (v : UInt64) (valid : Bool) :
      Pushes env s e (.invokeFBcallback d v valid)
  | decisionFB (msg : DecisionFBMsg) (schedule : List Nat) (txn : Transaction) (valid : Bool)
      (htxn : s.ongoing msg.txnDigest = some txn)
      (h : valid = true → asyncValidateFBDecision env schedule msg.decision msg.view txn
        msg.txnDigest msg.electSigs (s.lookupP2Decision env msg.txnDigest) = .accept) :
      Pushes env s (.decisionFB msg schedule) (.fbDecisionCallback msg valid)
  | electFB (msg : ElectFBMsg) (valid : Bool) :
      Pushes env s (.electFB msg) (.electFBcallback msg valid)
  | ownElect (e : Event) (d : Digest) (v : UInt64) (c : CommitDecision) :
      Pushes env s e (.ownElect d v c)
  | stop (e : Event) : Pushes env s e .stop

/-- Another component has ended the transaction so. -/
def State.ended (s : State) (d : Digest) : CommitDecision → Bool
  | .commit => s.committed d
  | .abort => s.aborted d

/-! ## Actions -/

/-- What a handler does for `e`, which has come in the state `s₀`. -/
inductive Does (env : Env) (s₀ : State) (e : Event) (s : State) : State → Prop where
  | sendView (d : Digest) : Does env s₀ e s (s.sendView d)
  | original (d : Digest) (r : Option UInt64) :
      Does env s₀ e s (s.setP2 d { s.p2MetaDatas d with original := r })
  | reply (d : Digest) (v : Option UInt64) (h : (s.p2MetaDatas d).hasP2 = true)
      (hv : ∀ w, v = some w → w = (s.p2MetaDatas d).decisionView) :
      Does env s₀ e s (s.record (.reply d (s.p2MetaDatas d).p2Decision v))
  | misreply (d : Digest) (c : CommitDecision) (v : Option UInt64) (h : Stale s₀ e) :
      Does env s₀ e s (s.record (.reply d c v))
  | replyFinished (d : Digest) (c : CommitDecision) (h : (s.p2MetaDatas d).hasP2 = false)
      (hc : s₀.ended d c = true) : Does env s₀ e s (s.replyFinished d c)
  | echo (d : Digest) (c : CommitDecision) (h : (s.p2MetaDatas d).hasP2 = false) :
      Does env s₀ e s (s.record (.reply d c none))
  | reset (d : Digest) (h : (s.p2MetaDatas d).hasP2 = false) :
      Does env s₀ e s (s.setP2 d { s.p2MetaDatas d with decisionView := 0 })
  | store (d : Digest) (c : CommitDecision) (h : (s.p2MetaDatas d).hasP2 = false)
      (hc : Stores env s₀ e d c) : Does env s₀ e s (s.store d c)
  | elect (d : Digest) (v : UInt64) (h : (s.p2MetaDatas d).hasP2 = true)
      (hv : (s.p2MetaDatas d).currentView < v) :
      Does env s₀ e s ((s.moveTo d v).record (.elect d v (s.p2MetaDatas d).p2Decision))
  | electAll (d : Digest) (v : UInt64) (h : (s.p2MetaDatas d).hasP2 = true)
      (ha : env.params.allToAllFb = true) :
      Does env s₀ e s (s.record (.elect d v (s.p2MetaDatas d).p2Decision))
  | adoptDecision (d : Digest) (v : UInt64) (c : CommitDecision) (hc : Adopts env s₀ e d v c) :
      Does env s₀ e s (s.adoptDecision d v c)
  | moveTo (d : Digest) (v : UInt64) (ha : env.params.allToAllFb = true) :
      Does env s₀ e s (s.moveTo d v)
  | moveView (d : Digest) (v : UInt64) (self : Bool)
      (h : self = false → ∃ msg, e = .moveView msg ∧ State.validMoveView env msg = true ∧
        msg.txnDigest = d ∧ msg.view = v) :
      Does env s₀ e s (s.processMoveView env d v self)
  | preProcessElectFB (d : Digest) (v : UInt64) (c : CommitDecision) (voter : ProcessId)
      (s' : State) (h : s.preProcessElectFB d v c voter = some s') (he : Elects s₀ e) :
      Does env s₀ e s s'
  | processElectFB (d : Digest) (v : UInt64) (c : CommitDecision) (sig : Signature)
      (he : Elects s₀ e)
      (hc : (s.electQuorums d v c).sigs.length = 2 * env.config.f → Adopts env s₀ e d v c) :
      Does env s₀ e s (s.processElectFB env d v c sig)
  | push (t : Task) (h : Pushes env s₀ e t) : Does env s₀ e s (s.push t)
  | panic : Does env s₀ e s s.panic
  | clearInterested (d : Digest) : Does env s₀ e s (s.clearInterested d)

def Acts (env : Env) (s₀ : State) (e : Event) : State → State → Prop :=
  ReflTransGen (Does env s₀ e)

namespace State

variable {env : Env} (s : State) (d : Digest)

@[simp] theorem record_p2MetaDatas (e : Entry) : (s.record e).p2MetaDatas = s.p2MetaDatas := rfl

@[simp] theorem setP2_self (m : P2MetaData) : (s.setP2 d m).p2MetaDatas d = m := by
  simp [setP2]

@[simp] theorem store_self (decision : CommitDecision) :
    (s.store d decision).p2MetaDatas d =
      { s.p2MetaDatas d with p2Decision := decision, hasP2 := true } := by
  simp [store]

theorem hasP2_storeFirst (decision : CommitDecision) :
    ((if (s.p2MetaDatas d).hasP2 then s else s.store d decision).p2MetaDatas d).hasP2 = true := by
  split
  · assumption
  · simp

theorem preProcessElectFB_some {s' : State} {view : UInt64} {c : CommitDecision}
    {voter : ProcessId} (h : s.preProcessElectFB d view c voter = some s') :
    voter ∉ (s.electQuorums d view c).voters ∧ s' = (s.openOrganizer d).setElectQuorum d view c
      { s.electQuorums d view c with voters := voter :: (s.electQuorums d view c).voters } := by
  unfold preProcessElectFB at h
  dsimp only at h
  split_ifs at h with hold
  exact ⟨hold, (Option.some.inj h).symm⟩

/-! What the larger actions leave alone. -/

theorem adoptDecision_eq (view : UInt64) (c : CommitDecision) :
    ∃ p2 log, s.adoptDecision d view c = { s with p2MetaDatas := p2, log := log } := by
  unfold adoptDecision
  split_ifs
  · exact ⟨_, _, rfl⟩
  · exact ⟨_, _, rfl⟩

theorem processElectFB_eq (env : Env) (view : UInt64) (c : CommitDecision) (sig : Signature) :
    ∃ p2 quorums views log, s.processElectFB env d view c sig =
      { s with p2MetaDatas := p2, electQuorums := quorums, viewComplete := views, log := log } := by
  unfold processElectFB
  dsimp only
  split_ifs
  · exact ⟨_, _, _, _, rfl⟩
  · exact ⟨_, _, _, _, rfl⟩
  · obtain ⟨p2, log, heq⟩ := adoptDecision_eq (((s.setElectQuorum d view c
      { s.electQuorums d view c with sigs := (s.electQuorums d view c).sigs ++ [sig] }).completeView
        d view).record (.decisionFB d view c ((s.electQuorums d view c).sigs ++ [sig]))) d view c
    exact ⟨p2, _, _, log, heq⟩
  · exact ⟨_, _, _, _, rfl⟩

theorem castMoveView_eq (view : UInt64) :
    ∃ orgs counts log, (s.castMoveView d view).1 =
      { s with organizers := orgs, moveViewCounts := counts, log := log } :=
  ⟨_, _, _, rfl⟩

theorem countMoveView_eq (view : UInt64) (self : Bool) :
    ∃ orgs counts log, (s.countMoveView d view self).1 =
      { s with organizers := orgs, moveViewCounts := counts, log := log } := by
  unfold countMoveView
  dsimp only
  split_ifs
  · exact s.castMoveView_eq d view
  · exact ⟨_, _, _, rfl⟩
  · exact ⟨_, _, _, rfl⟩

theorem processMoveView_eq (env : Env) (view : UInt64) (self : Bool) :
    ∃ p2 orgs counts log, s.processMoveView env d view self =
      { s with p2MetaDatas := p2, organizers := orgs, moveViewCounts := counts, log := log } := by
  obtain ⟨orgs, counts, log, heq⟩ := s.countMoveView_eq d view self
  unfold processMoveView
  generalize s.countMoveView d view self = r at heq ⊢
  obtain ⟨s', n⟩ := r
  obtain rfl : s' = _ := heq
  dsimp only
  split_ifs <;> exact ⟨_, _, _, _, rfl⟩

theorem processMoveView_decision (view : UInt64) (self : Bool) :
    ((s.processMoveView env d view self).p2MetaDatas d).hasP2 = (s.p2MetaDatas d).hasP2 ∧
      ((s.processMoveView env d view self).p2MetaDatas d).p2Decision =
        (s.p2MetaDatas d).p2Decision := by
  obtain ⟨orgs, counts, log, heq⟩ := s.countMoveView_eq d view self
  unfold processMoveView
  generalize s.countMoveView d view self = r at heq ⊢
  obtain ⟨s', n⟩ := r
  obtain rfl : s' = _ := heq
  dsimp only
  split_ifs <;> simp [castMoveView, setMoveViewCount, openOrganizer, moveTo]

end State

/-! ## Every handler acts -/

namespace Acts

variable {env : Env} {s₀ : State} {e : Event} {s s' s'' : State} {d : Digest}
  {c : CommitDecision} {valid : Bool} {v : UInt64}

theorem refl (s : State) : Acts env s₀ e s s := ReflTransGen.refl

theorem trans (h : Acts env s₀ e s s') (h' : Acts env s₀ e s' s'') : Acts env s₀ e s s'' :=
  ReflTransGen.trans h h'

theorem single (h : Does env s₀ e s s') : Acts env s₀ e s s' := ReflTransGen.single h

theorem ite {p : Prop} [Decidable p] (h : p → Acts env s₀ e s s') (h' : ¬p → Acts env s₀ e s s'') :
    Acts env s₀ e s (if p then s' else s'') := by
  split
  · exact h ‹_›
  · exact h' ‹_›

theorem panic (s : State) : Acts env s₀ e s s.panic := single .panic

theorem clearInterested (s : State) (d : Digest) : Acts env s₀ e s (s.clearInterested d) :=
  single (.clearInterested d)

theorem dispatch (s : State) {v : Verdict} {callback : Bool → Task}
    (haccept : v = .accept → Pushes env s₀ e (callback true))
    (hreject : Pushes env s₀ e (callback false)) : Acts env s₀ e s (s.dispatch env v callback) := by
  cases v with
  | accept => exact single (.push _ (haccept rfl))
  | reject => exact single (.push _ hreject)
  | silent => exact refl s
  | panic => exact ite (fun _ => single (.push _ (.stop e))) fun _ => panic s

theorem reply (h : (s.p2MetaDatas d).hasP2 = true) :
    Acts env s₀ e s (s.record (.reply d (s.p2MetaDatas d).p2Decision
      (if env.params.validateProofs then some (s.p2MetaDatas d).decisionView else none))) := by
  refine single (.reply d _ h fun w hw => ?_)
  split at hw
  · exact (Option.some.inj hw).symm
  · cases hw

theorem replyStored (h : (s.p2MetaDatas d).hasP2 = true) : Acts env s₀ e s (s.replyStored d) :=
  single (.reply d _ h fun _ hw => (Option.some.inj hw).symm)

theorem storeFirst (s : State) (hc : Stores env s₀ e d c) :
    Acts env s₀ e s (if (s.p2MetaDatas d).hasP2 then s else s.store d c) :=
  ite (fun _ => refl s) fun h => single (.store d c (Bool.eq_false_iff.2 h) hc)

/-! ### Phase2 and Phase2FB -/

theorem phase2CB (s : State) (msg : Phase2Msg) {key : Digest} (hkey : key = d ∨ Stale s₀ e)
    (hc : (valid || msg.simulatedEquiv) = true → Stores env s₀ e key msg.decision) :
    Acts env s₀ e s (s.phase2CB env msg d key valid) := by
  unfold State.phase2CB
  refine ite (fun _ => panic s) fun hv => ?_
  -- whether the decision was logged before or is now, the answer is the logged one
  refine (storeFirst s (hc (by simpa only [Bool.not_eq_true', Bool.not_eq_false] using hv))).trans
    ((single (.original key (some msg.reqId))).trans ?_)
  obtain rfl | hstale := hkey
  · refine reply ?_
    rw [State.setP2_self]
    exact s.hasP2_storeFirst key msg.decision
  · exact single (.misreply d _ _ hstale)

theorem handlePhase2 (s : State) (schedule : List Nat) (msg : Phase2Msg)
    (hended : ∀ d c, s.ended d c = true → s₀.ended d c = true) :
    Acts env s₀ (.phase2 msg schedule) s (s.handlePhase2 env schedule msg) := by
  unfold State.handlePhase2
  split
  · exact refl s
  · rename_i d _
    refine ite (fun h => ?_) fun h => ?_
    · refine (single (.original d (some msg.reqId))).trans ?_
      have hr : Acts env s₀ (.phase2 msg schedule)
          (s.setP2 d { s.p2MetaDatas d with original := some msg.reqId }) _ :=
        reply (d := d) (by simpa using h)
      rwa [State.setP2_self] at hr
    · have hP2 := Bool.eq_false_iff.2 h
      refine ite (fun hend => single (.replyFinished d .commit hP2 (hended _ _ hend))) fun _ =>
        ite (fun hend => single (.replyFinished d .abort hP2 (hended _ _ hend))) fun _ =>
        ite (fun _ => single (.echo d _ hP2)) fun _ => ?_
      split
      · exact refl s
      · exact ite (fun _ => dispatch s (fun _ => .phase2CB ..) (.phase2CB ..)) fun _ =>
          ite (fun _ => refl s) fun _ => phase2CB s msg (.inl rfl) fun hequiv =>
            .equivocation msg schedule d (by simpa using hequiv)

theorem processP2FBCallback (s : State) (msg : Phase2FBMsg)
    (hc : valid = true → Stores env s₀ e msg.txnDigest msg.decision) :
    Acts env s₀ e s (s.processP2FBCallback msg valid) := by
  refine ite (fun _ => refl s) fun hv => ite (fun h => replyStored h) fun h => ?_
  refine (single (.reset msg.txnDigest (Bool.eq_false_iff.2 h))).trans
    ((single (.store msg.txnDigest msg.decision ?_ (hc (by simp_all)))).trans (replyStored ?_))
  · simpa using h
  · simp

theorem processP2FB (s : State) (schedule : List Nat) (msg : Phase2FBMsg) :
    Acts env s (.phase2FB msg schedule) s (s.processP2FB env schedule msg) := by
  unfold State.processP2FB
  dsimp only
  split
  · exact refl s
  · rename_i txn htxn
    have hreject : Pushes env s (.phase2FB msg schedule) (.processP2FBCallback msg false) :=
      .phase2FB msg schedule txn false htxn nofun
    split
    · rename_i rs hrs
      refine ite (fun hsigned => dispatch s (fun hv => .phase2FB msg schedule txn true htxn
        fun _ => .replies hrs hsigned hv) hreject) fun hsigned => ite (fun hcount => ?_)
        fun hcount => ?_
      · exact processP2FBCallback s msg fun _ =>
          .phase2FB msg schedule txn htxn (.inl (.counted hrs hsigned hcount))
      · have hfew : Acts env s (.phase2FB msg schedule) s (s.processP2FBCallback msg false) :=
          processP2FBCallback s msg nofun
        exact hfew.trans (processP2FBCallback _ msg fun _ => .phase2FB msg schedule txn htxn
          (.inr ⟨rs, Bool.eq_false_iff.2 hsigned, hrs, Bool.eq_false_iff.2 hcount⟩))
    · rename_i gs hrs hgs
      refine ite (fun _ => dispatch s (fun hv => .phase2FB msg schedule txn true htxn
        fun _ => .votes hrs hgs (.inr ⟨_, hv⟩)) hreject) fun _ =>
        processP2FBCallback s msg fun hv => ?_
      exact .phase2FB msg schedule txn htxn (.inl (.votes hrs hgs (.inl hv)))
    · exact refl s

theorem handlePhase2FB (s : State) (schedule : List Nat) (msg : Phase2FBMsg) :
    Acts env s (.phase2FB msg schedule) s (s.handlePhase2FB env schedule msg) :=
  ite (fun _ => refl s) fun _ => ite replyStored fun _ => processP2FB s schedule msg

/-! ### InvokeFB -/

theorem sendElectFB (h : Acts env s₀ e s (s'.record (.elect d v c))) :
    Acts env s₀ e s (s'.sendElectFB env d v c) :=
  ite (fun _ => h.trans (single (.push _ (.ownElect ..)))) fun _ => h

theorem electAll (ha : env.params.allToAllFb = true) (h : (s.p2MetaDatas d).hasP2 = true)
    (v : UInt64) : Acts env s₀ e s (s.sendElectFB env d v (s.p2MetaDatas d).p2Decision) :=
  sendElectFB (single (.electAll d v h ha))

theorem invokeFBcallback (s : State) (d : Digest) (v : UInt64) (valid : Bool) :
    Acts env s₀ e s (s.invokeFBcallback env d v valid) := by
  refine ite (fun _ => refl s) fun _ => ite (fun _ => refl s) fun hP2 =>
    ite (fun _ => single (.sendView d)) fun hview => ?_
  have h : (s.p2MetaDatas d).hasP2 = true := by simpa using hP2
  by_cases ha : env.params.allToAllFb = true
  · refine (single (.moveTo d v ha)).trans ?_
    have he : Acts env s₀ e (s.moveTo d v) _ :=
      electAll (d := d) ha (by simpa [State.moveTo] using h) v
    rwa [State.moveTo, State.setP2_self] at he
  · exact sendElectFB (single (.elect d v h (by simpa [ha] using hview)))

theorem invoke (s : State) (schedule : List Nat) (msg : InvokeFBMsg) (logGroup : GroupId)
    (h : (s.p2MetaDatas msg.txnDigest).hasP2 = true) :
    Acts env s₀ e s (s.invoke env schedule msg logGroup) := by
  refine ite (fun ha => ?_) fun _ => ?_
  · let v := (s.p2MetaDatas msg.txnDigest).currentView + 1
    refine (single (.moveView msg.txnDigest v true nofun)).trans ?_
    obtain ⟨hP2, hdec⟩ :
        ((s.processMoveView env msg.txnDigest v true).p2MetaDatas _).hasP2 = _ ∧ _ :=
      s.processMoveView_decision msg.txnDigest v true
    rw [← hdec]
    exact electAll ha (hP2.trans h) _
  · unfold State.verifyViews
    dsimp only
    split
    · exact refl s
    · exact ite (fun _ => dispatch s (fun _ => .views ..) (.views ..)) fun _ =>
        invokeFBcallback s _ _ _

theorem invokeFBProcessP2FBCallback (s : State) (schedule : List Nat) (msg : InvokeFBMsg)
    (p2fb : Phase2FBMsg) (hc : valid = true → Stores env s₀ e msg.txnDigest p2fb.decision) :
    Acts env s₀ e s (s.invokeFBProcessP2FBCallback env schedule msg p2fb valid) :=
  ite (fun _ => refl s) fun hv => (storeFirst s (hc (by simp_all))).trans
    (invoke _ schedule msg env.groupIdx (s.hasP2_storeFirst _ _))

theorem invokeFBProcessP2FB (s : State) (schedule : List Nat) (msg : InvokeFBMsg)
    (p2fb : Phase2FBMsg) (hp2fb : msg.p2fb = some p2fb) :
    Acts env s (.invokeFB msg schedule) s (s.invokeFBProcessP2FB env schedule msg p2fb) := by
  unfold State.invokeFBProcessP2FB
  dsimp only
  split
  · exact refl s
  · rename_i txn htxn
    have hreject : Pushes env s (.invokeFB msg schedule)
        (.invokeFBProcessP2FBCallback msg p2fb false) :=
      .invokeFB msg schedule p2fb txn false hp2fb htxn nofun
    split
    · exact panic s
    · refine ite (fun _ => refl s) fun _ => ?_
      split
      · rename_i rs hrs
        refine ite (fun hsigned => dispatch s (fun hv => .invokeFB msg schedule p2fb txn true hp2fb
          htxn fun _ => .replies hrs hsigned hv) hreject) fun hsigned =>
            invokeFBProcessP2FBCallback s schedule msg p2fb fun hv => ?_
        exact .invokeFB msg schedule p2fb txn hp2fb htxn
          (.inr ⟨rs, Bool.eq_false_iff.2 hsigned, hrs, hv⟩)
      · rename_i gs hrs hgs
        refine ite (fun _ => dispatch s (fun hv => .invokeFB msg schedule p2fb txn true hp2fb htxn
          fun _ => .votes hrs hgs (.inr ⟨_, hv⟩)) hreject) fun _ =>
            invokeFBProcessP2FBCallback s schedule msg p2fb fun hv => ?_
        exact .invokeFB msg schedule p2fb txn hp2fb htxn (.inl (.votes hrs hgs (.inl hv)))
      · exact refl s

theorem handleInvokeFB (s : State) (schedule : List Nat) (msg : InvokeFBMsg) :
    Acts env s (.invokeFB msg schedule) s (s.handleInvokeFB env schedule msg) := by
  refine ite (fun _ => refl s) fun _ => ite (fun _ => single (.sendView _)) fun _ =>
    ite (fun _ => ?_) fun hP2 => ?_
  · split
    · exact refl s
    · exact invokeFBProcessP2FB s schedule msg _ ‹_›
  · split
    · exact refl s
    · split
      · exact panic s
      · exact ite (fun _ => refl s) fun _ => invoke s schedule msg _ (by simpa using hP2)

/-! ### ElectFB and DecisionFB -/

theorem elected (he : Elects s₀ e) {voter : ProcessId} {sig : Signature}
    (h : s.preProcessElectFB d v c voter = some s')
    (hc : (s.electQuorums d v c).sigs.length = 2 * env.config.f → Adopts env s₀ e d v c) :
    Acts env s₀ e s (s'.processElectFB env d v c sig) := by
  refine (single (.preProcessElectFB d v c voter s' h he)).trans
    (single (.processElectFB d v c sig he fun hq => hc ?_))
  rw [(s.preProcessElectFB_some d h).2] at hq
  simpa [State.setElectQuorum] using hq

theorem handleElectFB (s : State) (msg : ElectFBMsg) :
    Acts env s (.electFB msg) s (s.handleElectFB env msg) := by
  refine ite (fun _ => panic s) fun _ => ite (fun _ => refl s) fun _ =>
    ite (fun _ => refl s) fun _ => ite (fun _ => clearInterested s _) fun _ => ?_
  split
  · exact refl s
  · rename_i h
    have he : Elects s (.electFB msg) := trivial
    have hpre : Acts env s _ s _ := single (.preProcessElectFB _ _ _ _ _ h he)
    exact ite (fun _ => hpre.trans (single (.push _ (.electFB ..)))) fun _ =>
      ite (fun _ => elected he h fun hq => .electFB msg hq) fun _ => hpre

theorem fbDecisionCallback (s : State) (msg : DecisionFBMsg)
    (hc : valid = true → Adopts env s₀ e msg.txnDigest msg.view msg.decision) :
    Acts env s₀ e s (s.fbDecisionCallback msg valid) :=
  ite (fun _ => refl s) fun hv => ite (fun _ => clearInterested s _) fun _ =>
    single (.adoptDecision _ _ _ (hc (by simpa using hv)))

theorem handleDecisionFB (s : State) (schedule : List Nat) (msg : DecisionFBMsg) :
    Acts env s (.decisionFB msg schedule) s (s.handleDecisionFB env schedule msg) := by
  refine ite (fun _ => clearInterested s _) fun _ => ite (fun _ => refl s) fun _ => ?_
  split
  · exact refl s
  · rename_i txn htxn
    refine ite (fun _ => dispatch s (fun hv => .decisionFB msg schedule txn true htxn fun _ => hv)
      (.decisionFB msg schedule txn false htxn nofun)) fun hmt => ?_
    split
    · exact panic s
    · exact fbDecisionCallback s msg fun _ =>
        .decisionFB msg schedule txn (Bool.eq_false_iff.2 hmt) htxn

/-! ### Callbacks -/

theorem runTask {k : Nat} {schedule : List Nat} {stale : Digest} {t : Task}
    (hk : s.tasks[k]? = some t) :
    Acts env s (.task k schedule stale) { s with tasks := s.tasks.eraseIdx k }
      ({ s with tasks := s.tasks.eraseIdx k }.runTask env schedule stale t) := by
  generalize hs' : ({ s with tasks := s.tasks.eraseIdx k } : State) = s'
  have hq : s'.electQuorums = s.electQuorums := by rw [← hs']
  cases t with
  | phase2CB msg d valid =>
    refine phase2CB s' msg ?_ fun hv => .phase2CB k schedule stale msg d valid hk hv
    by_cases hd : msg.txnDigest.getD stale = d
    · exact .inl hd
    · exact .inr (by simpa only [Stale, hk] using hd)
  | processP2FBCallback msg valid =>
    refine processP2FBCallback s' msg fun hv => ?_
    subst hv
    exact .phase2FBCallback k schedule stale msg hk
  | invokeFBProcessP2FBCallback msg p2fb valid =>
    refine invokeFBProcessP2FBCallback s' schedule msg p2fb fun hv => ?_
    subst hv
    exact .invokeFBCallback k schedule stale msg p2fb hk
  | invokeFBcallback d v valid => exact invokeFBcallback s' d v valid
  | fbDecisionCallback msg valid =>
    refine fbDecisionCallback s' msg fun hv => ?_
    subst hv
    exact .fbDecisionCallback k schedule stale msg hk
  | electFBcallback msg valid =>
    refine ite (fun _ => refl s') fun hv => ite (fun _ => clearInterested s' _) fun _ =>
      single (.processElectFB _ _ _ _ (by simp [Elects, hk]) fun hlen => ?_)
    have hvalid : valid = true := by simpa using hv
    subst hvalid
    exact .electFBcallback k schedule stale msg hk (hq ▸ hlen)
  | ownElect d v c =>
    simp only [State.runTask, State.ownElect]
    split
    · exact refl s'
    · rename_i h
      exact elected (by simp [Elects, hk]) h fun hlen =>
        .ownElect k schedule stale d v c hk (hq ▸ hlen)
  | stop => exact panic s'

end Acts

/-- Every event is a sequence of actions, unless another component takes its turn. -/
theorem step_acts (env : Env) (s : State) (e : Event) :
    (∃ o, e = .outside o ∧ s.crashed = false ∧ step env s e = s.outside env o) ∨
      ∃ s', (s' = s ∨ ∃ k schedule stale t, e = .task k schedule stale ∧ s.tasks[k]? = some t ∧
          s' = { s with tasks := s.tasks.eraseIdx k }) ∧
        Acts env s e s' (step env s e) := by
  by_cases hcrash : s.crashed = true
  · exact .inr ⟨s, .inl rfl, by simpa [step, hcrash] using .refl s⟩
  unfold step
  rw [if_neg hcrash]
  cases e with
  | outside o => exact .inl ⟨o, rfl, Bool.eq_false_iff.2 hcrash, rfl⟩
  | phase2 msg schedule =>
    exact .inr ⟨s, .inl rfl, .handlePhase2 s schedule msg fun _ _ h => h⟩
  | phase2FB msg schedule => exact .inr ⟨s, .inl rfl, .handlePhase2FB s schedule msg⟩
  | invokeFB msg schedule => exact .inr ⟨s, .inl rfl, .handleInvokeFB s schedule msg⟩
  | electFB msg => exact .inr ⟨s, .inl rfl, .handleElectFB s msg⟩
  | decisionFB msg schedule => exact .inr ⟨s, .inl rfl, .handleDecisionFB s schedule msg⟩
  | moveView msg =>
    refine .inr ⟨s, .inl rfl, .ite (fun _ => .refl s) fun hv => .ite
      (fun _ => .clearInterested s _) fun _ => .single (.moveView _ _ false fun _ => ?_)⟩
    exact ⟨msg, rfl, by simpa using hv, rfl, rfl⟩
  | phase1FB d =>
    unfold State.attachP2
    refine .inr ⟨s, .inl rfl, .ite (fun _ => .refl s) fun h => .replyStored ?_⟩
    simp only [Bool.or_eq_true, not_or, Bool.not_eq_true'] at h
    simpa using h.2
  | task k schedule stale =>
    dsimp only
    split
    · exact .inr ⟨s, .inl rfl, .refl s⟩
    · rename_i t hk
      exact .inr ⟨_, .inr ⟨k, schedule, stale, t, rfl, hk, rfl⟩, .runTask hk⟩

end Sintr.Fallback
