import Mathlib.Data.List.Perm.Subperm
import Sintr.Fallback.Acts

/-!
# The election of a fallback leader

A leader collects ElectFB messages. It notes who votes before the signature of the message is
verified, and counts the signature after that, on another thread. With `2f + 1` signatures for a
decision it sends them on in a DecisionFB message. `Clean` throws away what was noted and counted,
also that the leader has decided.

* `leader_decides`: one certified DecisionFB per view, and one for every view with `2f + 1` votes,
  unless a forged message comes before a vote or the transaction is cleaned.
-/

namespace Sintr.Fallback

open List

namespace ElectFBMsg

def signer (msg : ElectFBMsg) : ProcessId := msg.signature.processId

/-- A vote of a replica of the group. -/
def Genuine (env : Env) (msg : ElectFBMsg) : Prop :=
  env.config.InGroup msg.signer env.groupIdx ∧
    env.verify msg.signer (.elect msg.txnDigest msg.decision msg.view) msg.signature.signature
deriving Decidable

def For (v : UInt64) (c : CommitDecision) (msg : ElectFBMsg) : Prop :=
  msg.view = v ∧ msg.decision = c
deriving Decidable

end ElectFBMsg

/-- `IsReplicaInGroup` is right about the sender. -/
def Recognised (env : Env) : Event → Prop
  | .electFB msg =>
    env.config.isReplicaInGroup msg.signer env.groupIdx =
      decide (env.config.InGroup msg.signer env.groupIdx)
  | _ => True

instance (env : Env) : DecidablePred (Recognised env) := fun e => by
  unfold Recognised
  split <;> infer_instance

/-- The replica has not stopped, the transaction is not finished, and no forged message for it comes
before the vote of the replica that it names. -/
def ElectMeets (env : Env) (d : Digest) (s : State) (e : Event) : Prop :=
  s.crashed = false ∧ s.hasWriteback d = false ∧
    match e with
    | .electFB msg => msg.txnDigest = d → msg.Genuine env ∨
      msg.signer ∈ (s.electQuorums d msg.view msg.decision).voters
    | _ => True

instance (env : Env) (d : Digest) (s : State) : DecidablePred (ElectMeets env d s) := fun e => by
  unfold ElectMeets
  split <;> infer_instance

/-- The signatures of a DecisionFB message: `2f + 1` of different replicas of the group, on the
decision it announces. -/
structure Certified (env : Env) (d : Digest) (v : UInt64) (c : CommitDecision)
    (sigs : List Signature) : Prop where
  length : sigs.length = 2 * env.config.f + 1
  nodup : (sigs.map (·.processId)).Nodup
  genuine : ∀ sig ∈ sigs, ElectFBMsg.Genuine env ⟨d, c, v, sig⟩

/-- What a leader is given: messages are signed and verified on other threads, and its own
signatures are valid. -/
structure LeaderEnv (env : Env) : Prop where
  signed : env.params.signedMessages = true
  threads : env.params.multiThreading = true
  member : env.config.InGroup env.id env.groupIdx
  sign : ∀ m, env.verify env.id m (env.sign m) = true

/-! ## Decisions and votes of one transaction -/

def Entry.decision (d : Digest) : Entry → Option (UInt64 × CommitDecision × List Signature)
  | .decisionFB d' v c sigs => if d' = d then some (v, c, sigs) else none
  | _ => none

/-- A vote with a valid signature that is yet to be counted. -/
def Task.vote (d : Digest) : Task → Option ElectFBMsg
  | .electFBcallback msg true => if msg.txnDigest = d then some msg else none
  | _ => none

namespace State

variable {s : State} {d : Digest} {v : UInt64} {c : CommitDecision}

/-- The DecisionFB messages that were sent. -/
def decisions (s : State) (d : Digest) : List (UInt64 × CommitDecision × List Signature) :=
  s.log.filterMap (Entry.decision d)

def verifying (s : State) (d : Digest) : List ElectFBMsg := s.tasks.filterMap (Task.vote d)

@[simp] theorem decisions_record (e : Entry) :
    (s.record e).decisions d = s.decisions d ++ (e.decision d).toList := by
  unfold decisions record
  rw [filterMap_append]
  cases h : e.decision d <;> simp [h]

@[simp] theorem verifying_push (t : Task) :
    (s.push t).verifying d = s.verifying d ++ (t.vote d).toList := by
  unfold verifying push
  rw [filterMap_append]
  cases h : t.vote d <;> simp [h]

theorem verifying_eraseIdx {k : Nat} {t : Task} (h : s.tasks[k]? = some t) :
    (s.verifying d).Perm ((t.vote d).toList ++
      { s with tasks := s.tasks.eraseIdx k : State }.verifying d) := by
  obtain ⟨hk, rfl⟩ := List.getElem?_eq_some_iff.1 h
  have hperm := (getElem_cons_eraseIdx_perm hk).symm.filterMap (Task.vote d)
  rw [filterMap_cons] at hperm
  unfold verifying
  cases hv : (s.tasks[k]).vote d <;> simpa [hv] using hperm

end State

/-- Nothing happens to the votes on the transaction. -/
structure SameVotes (d : Digest) (s s' : State) : Prop where
  quorums : s'.electQuorums d = s.electQuorums d
  views : s'.viewComplete d = s.viewComplete d
  decisions : s'.decisions d = s.decisions d
  opened : s.organizers d = true → s'.organizers d = true

section
variable {env : Env} {d d' : Digest} {s s' s'' : State} {v : UInt64} {c : CommitDecision}

theorem SameVotes.refl (s : State) : SameVotes d s s := ⟨rfl, rfl, rfl, id⟩

theorem SameVotes.trans (h : SameVotes d s s') (h' : SameVotes d s' s'') : SameVotes d s s'' :=
  ⟨h'.quorums.trans h.quorums, h'.views.trans h.views, h'.decisions.trans h.decisions,
    h'.opened ∘ h.opened⟩

theorem SameVotes.setP2 (s : State) (d' : Digest) (m : P2MetaData) :
    SameVotes d s (s.setP2 d' m) :=
  ⟨rfl, rfl, rfl, id⟩

theorem SameVotes.record {e : Entry} (he : e.decision d = none) : SameVotes d s (s.record e) :=
  ⟨rfl, rfl, by simp [he], id⟩

theorem SameVotes.adoptDecision (s : State) (d' : Digest) (v : UInt64) (c : CommitDecision) :
    SameVotes d s (s.adoptDecision d' v c) := by
  unfold State.adoptDecision
  split
  · exact .refl s
  · exact (SameVotes.setP2 s d' _).trans ((SameVotes.record rfl).trans (.record rfl))

theorem organizers_open (h : s.organizers d = true) : (s.openOrganizer d').organizers d = true := by
  by_cases hd : d = d'
  · simp [State.openOrganizer, hd]
  · simpa [State.openOrganizer, Function.update_of_ne hd] using h

theorem SameVotes.setMoveViewCount (s : State) (d' : Digest) (v : UInt64) (n : Nat × Bool) :
    SameVotes d s (s.setMoveViewCount d' v n) :=
  ⟨rfl, rfl, rfl, organizers_open⟩

theorem SameVotes.castMoveView (s : State) (d' : Digest) (v : UInt64) :
    SameVotes d s (s.castMoveView d' v).1 :=
  (SameVotes.setMoveViewCount s d' v _).trans (.record rfl)

theorem SameVotes.processMoveView (s : State) (d' : Digest) (v : UInt64) (self : Bool) :
    SameVotes d s (s.processMoveView env d' v self) := by
  have hcount : SameVotes d s (s.countMoveView d' v self).1 := by
    unfold State.countMoveView
    dsimp only
    split_ifs
    · exact .castMoveView s d' v
    · exact .refl s
    · exact .setMoveViewCount s d' v _
  have hraise (t : State) : SameVotes d t ((t.moveTo d' v).record (.raise d' v)) :=
    (SameVotes.setP2 t d' _).trans (.record rfl)
  unfold State.processMoveView
  dsimp only
  split_ifs
  · exact hcount
  · exact hcount.trans ((SameVotes.castMoveView _ d' v).trans (hraise _))
  · exact hcount.trans (.castMoveView _ d' v)
  · exact hcount.trans (hraise _)
  · exact hcount

/-! ## Other handlers -/

theorem Does.sameVotes {s₀ : State} {e : Event} (h : Does env s₀ e s s') (he : ¬ Elects s₀ e) :
    SameVotes d s s' ∧ s'.verifying d = s.verifying d := by
  cases h with
  | sendView | reply | misreply | echo | electAll => exact ⟨.record rfl, rfl⟩
  | replyFinished => exact ⟨(SameVotes.record rfl).trans (.record rfl), rfl⟩
  | store | elect => exact ⟨(SameVotes.setP2 s _ _).trans (.record rfl), rfl⟩
  | original | reset | moveTo => exact ⟨.setP2 s _ _, rfl⟩
  | panic | clearInterested => exact ⟨⟨rfl, rfl, rfl, id⟩, rfl⟩
  | adoptDecision d' v c =>
    refine ⟨.adoptDecision s d' v c, ?_⟩
    obtain ⟨p2, log, heq⟩ := s.adoptDecision_eq d' v c
    rw [heq]
    rfl
  | moveView d' v self =>
    refine ⟨.processMoveView s d' v self, ?_⟩
    obtain ⟨p2, orgs, counts, log, heq⟩ := s.processMoveView_eq d' env v self
    rw [heq]
    rfl
  | preProcessElectFB _ _ _ _ _ _ helects | processElectFB _ _ _ _ helects =>
    exact absurd helects he
  | push t h =>
    refine ⟨⟨rfl, rfl, rfl, id⟩, ?_⟩
    rw [State.verifying_push]
    cases h with
    | electFB msg valid => exact absurd trivial he
    | _ => exact append_nil _

theorem Task.vote_eq_none {k : Nat} {schedule : List Nat} {stale : Digest} {t : Task}
    (hk : s.tasks[k]? = some t) (he : ¬ Elects s (.task k schedule stale)) : t.vote d = none := by
  cases t with
  | electFBcallback msg valid => exact absurd (by simp [Elects, hk]) he
  | _ => rfl

/-- An event that is no vote leaves the votes on a transaction alone, unless it cleans it. -/
theorem step_sameVotes {e : Event} (he : ¬ Elects s e) (hclean : e ≠ .outside (.clean d)) :
    SameVotes d s (step env s e) ∧ ((step env s e).verifying d).Perm (s.verifying d) := by
  obtain ⟨o, rfl, -, heq⟩ | ⟨s', hs', hacts⟩ := step_acts env s e
  · rw [heq]
    cases o with
    | clean d' =>
      have hd : d ≠ d' := fun hd => hclean (hd ▸ rfl)
      refine ⟨⟨?_, ?_, rfl, fun h => ?_⟩, .refl _⟩
      · simp [State.outside, State.clean, Function.update_of_ne hd]
      · simp [State.outside, State.clean, Function.update_of_ne hd]
      · simpa [State.outside, State.clean, Function.update_of_ne hd] using h
    | _ => exact ⟨⟨rfl, rfl, rfl, id⟩, .refl _⟩
  · have hsame : SameVotes d s' (step env s e) ∧ (step env s e).verifying d = s'.verifying d := by
      generalize step env s e = t at hacts ⊢
      induction hacts with
      | refl => exact ⟨.refl _, rfl⟩
      | tail _ hdoes ih =>
        obtain ⟨hvotes, hver⟩ := hdoes.sameVotes (d := d) he
        exact ⟨ih.1.trans hvotes, hver.trans ih.2⟩
    obtain rfl | ⟨k, schedule, stale, t, rfl, hk, rfl⟩ := hs'
    · exact ⟨hsame.1, .of_eq hsame.2⟩
    · have herase : SameVotes d s { s with tasks := s.tasks.eraseIdx k } := ⟨rfl, rfl, rfl, id⟩
      refine ⟨herase.trans hsame.1, ?_⟩
      have hperm := State.verifying_eraseIdx (d := d) hk
      rw [Task.vote_eq_none hk he] at hperm
      rw [hsame.2]
      exact hperm.symm

/-! ## Votes -/

variable {msg : ElectFBMsg} {P P' : List ElectFBMsg} {F : Prop} {es : List Event}

theorem setElectQuorum_self (s : State) (d : Digest) (v₀ v : UInt64) (c₀ c : CommitDecision)
    (q : ElectQuorum) : (s.setElectQuorum d v₀ c₀ q).electQuorums d v c =
      if v₀ = v ∧ c₀ = c then q else s.electQuorums d v c := by
  simp [State.setElectQuorum, eq_comm]

theorem SameVotes.setElectQuorum (hd : d ≠ d') (s : State) (v : UInt64) (c : CommitDecision)
    (q : ElectQuorum) : SameVotes d s (s.setElectQuorum d' v c q) :=
  ⟨by simp [State.setElectQuorum, hd], rfl, rfl, id⟩

theorem SameVotes.preProcessElectFB (hd : d ≠ d') {voter : ProcessId}
    (h : s.preProcessElectFB d' v c voter = some s') : SameVotes d s s' := by
  rw [(s.preProcessElectFB_some d' h).2]
  have hopen : SameVotes d s (s.openOrganizer d') := ⟨rfl, rfl, rfl, organizers_open⟩
  exact hopen.trans (.setElectQuorum hd _ ..)

theorem SameVotes.processElectFB (hd : d ≠ d') (sig : Signature) :
    SameVotes d s (s.processElectFB env d' v c sig) := by
  unfold State.processElectFB
  dsimp only
  split_ifs
  · exact .refl s
  · exact .refl s
  · have hcomplete (t : State) : SameVotes d t (t.completeView d' v) :=
      ⟨rfl, by simp [State.completeView, hd], rfl, id⟩
    refine SameVotes.trans (SameVotes.trans (SameVotes.trans (.setElectQuorum hd s v c _)
      (hcomplete _)) (.record ?_)) (.adoptDecision _ d' v c)
    simp [Entry.decision, Ne.symm hd]
  · exact .setElectQuorum hd s v c _

/-- What a vote changes once its sender is noted. -/
theorem preProcessElectFB_votes
    (h : s.preProcessElectFB d msg.view msg.decision msg.signer = some s') :
    msg.signer ∉ (s.electQuorums d msg.view msg.decision).voters ∧
      (∀ v c, s'.electQuorums d v c = { s.electQuorums d v c with
        voters := (if msg.For v c then [msg.signer] else []) ++ (s.electQuorums d v c).voters }) ∧
      s'.viewComplete = s.viewComplete ∧ s'.decisions d = s.decisions d ∧
      s'.organizers d = true ∧ s'.tasks = s.tasks := by
  obtain ⟨hnew, rfl⟩ := s.preProcessElectFB_some d h
  refine ⟨hnew, fun v c => ?_, rfl, rfl, by simp [State.setElectQuorum, State.openOrganizer], rfl⟩
  rw [setElectQuorum_self]
  by_cases hfor : msg.view = v ∧ msg.decision = c
  · obtain ⟨rfl, rfl⟩ := hfor
    simp [ElectFBMsg.For]
  · simp [ElectFBMsg.For, hfor, State.openOrganizer]

/-- The signatures on the transaction, with that of the message. -/
def counted (s : State) (d : Digest) (msg : ElectFBMsg) : UInt64 → CommitDecision → ElectQuorum :=
  fun v c => { s.electQuorums d v c with
    sigs := (s.electQuorums d v c).sigs ++ if msg.For v c then [msg.signature] else [] }

theorem processElectFB_votes (env : Env) (s : State) (d : Digest) (msg : ElectFBMsg) :
    let s' := s.processElectFB env d msg.view msg.decision msg.signature
    let sigs := (counted s d msg msg.view msg.decision).sigs
    s'.tasks = s.tasks ∧ s'.organizers = s.organizers ∧
      ((s.organizers d = true → s.viewComplete d msg.view = true) ∧ s' = s ∨
        s.viewComplete d msg.view = false ∧ s'.electQuorums d = counted s d msg ∧
          (sigs.length ≠ 2 * env.config.f + 1 ∧ s'.viewComplete d = s.viewComplete d ∧
              s'.decisions d = s.decisions d ∨
            sigs.length = 2 * env.config.f + 1 ∧
              (∀ v, s'.viewComplete d v = if v = msg.view then true else s.viewComplete d v) ∧
              s'.decisions d = s.decisions d ++ [(msg.view, msg.decision, sigs)])) := by
  intro s' sigs
  obtain ⟨p2, quorums, views, log, heq⟩ :=
    s.processElectFB_eq d env msg.view msg.decision msg.signature
  refine ⟨by simp only [s', heq], by simp only [s', heq], ?_⟩
  have hsigs : (s.electQuorums d msg.view msg.decision).sigs ++ [msg.signature] = sigs := by
    simp [sigs, counted, ElectFBMsg.For]
  have hcounted : (s.setElectQuorum d msg.view msg.decision
      { s.electQuorums d msg.view msg.decision with sigs := sigs }).electQuorums d =
        counted s d msg := by
    funext v c
    rw [setElectQuorum_self, ← hsigs]
    by_cases hfor : msg.view = v ∧ msg.decision = c
    · obtain ⟨rfl, rfl⟩ := hfor
      simp [counted, ElectFBMsg.For]
    · simp [counted, ElectFBMsg.For, hfor]
  simp only [s', State.processElectFB, hsigs]
  split_ifs with horg hcomplete hlen
  · exact .inl ⟨fun h => by simp [h] at horg, rfl⟩
  · exact .inl ⟨fun _ => hcomplete, rfl⟩
  · refine .inr ⟨by simpa using hcomplete, ?_, .inr ⟨hlen, fun v => ?_, ?_⟩⟩
    · rw [(SameVotes.adoptDecision _ d msg.view msg.decision).quorums]
      exact hcounted
    · rw [(SameVotes.adoptDecision _ d msg.view msg.decision).views]
      simp [State.record, State.completeView, State.setElectQuorum]
    · rw [(SameVotes.adoptDecision _ d msg.view msg.decision).decisions, State.decisions_record]
      simp [Entry.decision, State.decisions, State.completeView, State.setElectQuorum]
  · exact .inr ⟨by simpa using hcomplete, hcounted, .inl ⟨hlen, rfl, rfl⟩⟩

/-- What can happen to the votes on a transaction and to those that are yet to be counted. If `F`
then none is lost. -/
inductive Collects (env : Env) (d : Digest) (F : Prop) :
    List ElectFBMsg × State → List ElectFBMsg × State → Prop
  | drop {P P' : List ElectFBMsg} {s s' : State} (hs : SameVotes d s s') (hP : P'.Subperm P)
      (hlost : F → P ⊆ P') : Collects env d F (P, s) (P', s')
  | note {P : List ElectFBMsg} {s s' : State} {msg : ElectFBMsg} (hd : msg.txnDigest = d)
      (hmsg : msg.Genuine env)
      (hpre : s.preProcessElectFB d msg.view msg.decision msg.signer = some s') :
      Collects env d F (P, s) (msg :: P, s')
  | block {P : List ElectFBMsg} {s s' : State} {msg : ElectFBMsg} (hF : ¬ F)
      (hpre : s.preProcessElectFB d msg.view msg.decision msg.signer = some s') :
      Collects env d F (P, s) (P, s')
  | count {P : List ElectFBMsg} {s : State} {msg : ElectFBMsg} :
      Collects env d F (msg :: P, s)
        (P, s.processElectFB env d msg.view msg.decision msg.signature)

theorem Collects.same (hs : SameVotes d s s') (hP : P'.Perm P) :
    Relation.ReflTransGen (Collects env d F) (P, s) (P', s') :=
  .single (.drop hs hP.subperm fun _ _ hx => hP.mem_iff.2 hx)

theorem handleElectFB_cases (henv : LeaderEnv env) (s : State) (msg : ElectFBMsg) :
    let s' := s.handleElectFB env msg
    ((∀ d, SameVotes d s s' ∧ s'.verifying d = s.verifying d) ∧
      (env.config.isReplicaInGroup msg.signer env.groupIdx = true →
        State.leaderIdx env msg.view msg.txnDigest = env.idx →
        s.hasWriteback msg.txnDigest = false →
        msg.signer ∈ (s.electQuorums msg.txnDigest msg.view msg.decision).voters)) ∨
    env.config.isReplicaInGroup msg.signer env.groupIdx = true ∧ ∃ t,
      s.preProcessElectFB msg.txnDigest msg.view msg.decision msg.signer = some t ∧
      s' = t.push (.electFBcallback msg (env.verify msg.signer
        (.elect msg.txnDigest msg.decision msg.view) msg.signature.signature)) := by
  unfold State.handleElectFB
  simp only [henv.signed, henv.threads, Bool.not_true, Bool.false_eq_true, if_false, if_true]
  split_ifs with hgroup hleader hfin
  · exact .inl ⟨fun _ => ⟨.refl s, rfl⟩, fun h => by simp_all [ElectFBMsg.signer]⟩
  · exact .inl ⟨fun _ => ⟨.refl s, rfl⟩, fun _ h => (hleader h).elim⟩
  · exact .inl ⟨fun _ => ⟨⟨rfl, rfl, rfl, id⟩, rfl⟩,
      fun _ _ h => by simp [State.forwardsMulti, h] at hfin⟩
  · cases hpre : s.preProcessElectFB msg.txnDigest msg.view msg.decision
      msg.signature.processId with
    | none =>
      refine .inl ⟨fun _ => ⟨.refl s, rfl⟩, fun _ _ _ => ?_⟩
      unfold State.preProcessElectFB at hpre
      dsimp only at hpre
      split_ifs at hpre with hold
      exact hold
    | some t => exact .inr ⟨by simpa [ElectFBMsg.signer] using hgroup, t, hpre, rfl⟩

theorem handleElectFB_collects (henv : LeaderEnv env) (he : Recognised env (.electFB msg))
    (hF : F → ElectMeets env d s (.electFB msg)) :
    Relation.ReflTransGen (Collects env d F) (s.verifying d, s)
      ((s.handleElectFB env msg).verifying d, s.handleElectFB env msg) := by
  obtain ⟨hsame, -⟩ | ⟨hin, t, hpre, heq⟩ := handleElectFB_cases henv s msg
  · exact Collects.same (hsame d).1 (.of_eq (hsame d).2)
  have hvotes := preProcessElectFB_votes hpre
  have hver : t.verifying d = s.verifying d := congrArg (filterMap _) hvotes.2.2.2.2.2
  rw [heq, State.verifying_push, hver]
  by_cases hd : msg.txnDigest = d
  · subst hd
    cases hb : env.verify msg.signer (.elect msg.txnDigest msg.decision msg.view)
      msg.signature.signature with
    | true =>
      have hgroup : env.config.InGroup msg.signer env.groupIdx := of_decide_eq_true (he ▸ hin)
      refine .trans (.single (.note rfl ⟨hgroup, hb⟩ hpre)) (Collects.same ⟨rfl, rfl, rfl, id⟩ ?_)
      simp [Task.vote]
    | false =>
      refine .trans (.single (.block (fun hf => ?_) hpre)) (Collects.same ⟨rfl, rfl, rfl, id⟩ ?_)
      · obtain hg | hold := (hF hf).2.2 rfl
        · rw [hg.2] at hb
          cases hb
        · exact hvotes.1 hold
      · simp [Task.vote]
  · refine Collects.same ((SameVotes.preProcessElectFB (Ne.symm hd) hpre).trans
      ⟨rfl, rfl, rfl, id⟩) (.of_eq ?_)
    cases env.verify msg.signer (.elect msg.txnDigest msg.decision msg.view)
      msg.signature.signature <;> simp [Task.vote, hd]

theorem verifying_processElectFB (s : State) (d' : Digest) (sig : Signature) :
    (s.processElectFB env d' v c sig).verifying d = s.verifying d := by
  obtain ⟨p2, quorums, views, log, heq⟩ := s.processElectFB_eq d' env v c sig
  rw [heq]
  rfl

theorem electFBcallback_collects {valid : Bool} (hF : F → s.hasWriteback d = false) :
    Relation.ReflTransGen (Collects env d F)
      ((Task.vote d (.electFBcallback msg valid)).toList ++ s.verifying d, s)
      ((s.electFBcallback env msg valid).verifying d, s.electFBcallback env msg valid) := by
  unfold State.electFBcallback
  dsimp only
  cases valid with
  | false => exact Collects.same (.refl s) (by simp [Task.vote])
  | true =>
    rw [if_neg (by simp)]
    by_cases hd : msg.txnDigest = d
    · have hvote : (Task.vote d (.electFBcallback msg true)).toList = [msg] := by
        simp [Task.vote, hd]
      rw [hvote, hd]
      split_ifs with hfin
      · refine .single (.drop ⟨rfl, rfl, rfl, id⟩ (sublist_cons_self msg _).subperm fun hf => ?_)
        simp [State.forwardsMulti, hF hf] at hfin
      · rw [verifying_processElectFB]
        exact .single .count
    · have hvote : (Task.vote d (.electFBcallback msg true)).toList = [] := by
        simp [Task.vote, hd]
      rw [hvote, nil_append]
      split_ifs
      · exact Collects.same ⟨rfl, rfl, rfl, id⟩ (.refl _)
      · rw [verifying_processElectFB]
        exact Collects.same (.processElectFB (Ne.symm hd) _) (.refl _)

theorem ownElect_collects (henv : LeaderEnv env) (s : State) (d' : Digest) (v : UInt64)
    (c : CommitDecision) :
    Relation.ReflTransGen (Collects env d F) (s.verifying d, s)
      ((s.ownElect env d' v c).verifying d, s.ownElect env d' v c) := by
  unfold State.ownElect
  split
  · exact .refl
  · rename_i t hpre
    let msg : ElectFBMsg := ⟨d', c, v, ⟨env.id, env.sign (.elect d' c v)⟩⟩
    have hmsg : msg.Genuine env := ⟨henv.member, henv.sign _⟩
    change s.preProcessElectFB d' msg.view msg.decision msg.signer = some t at hpre
    have hver : t.verifying d = s.verifying d :=
      congrArg (filterMap _) (preProcessElectFB_votes hpre).2.2.2.2.2
    rw [verifying_processElectFB, hver]
    by_cases hd : d' = d
    · subst hd
      have hcount : Collects env d' F (msg :: s.verifying d', t) _ := .count
      exact .trans (.single (.note rfl hmsg hpre)) (.single hcount)
    · exact Collects.same ((SameVotes.preProcessElectFB (Ne.symm hd) hpre).trans
        (.processElectFB (Ne.symm hd) _)) (.refl _)

theorem step_collects (henv : LeaderEnv env) {e : Event} (he : Recognised env e)
    (hclean : e ≠ .outside (.clean d)) (hF : F → ElectMeets env d s e) :
    Relation.ReflTransGen (Collects env d F) (s.verifying d, s)
      ((step env s e).verifying d, step env s e) := by
  by_cases helects : Elects s e
  swap
  · have hsame : SameVotes d s (step env s e) ∧ _ := step_sameVotes helects hclean
    exact Collects.same hsame.1 hsame.2
  by_cases hcrash : s.crashed = true
  · simpa [step, hcrash] using .refl
  unfold step
  rw [if_neg hcrash]
  cases e with
  | electFB msg => exact handleElectFB_collects henv he hF
  | task k schedule stale =>
    dsimp only
    split
    · exact .refl
    · rename_i t hk
      have hperm := State.verifying_eraseIdx (d := d) hk
      have herase : SameVotes d s { s with tasks := s.tasks.eraseIdx k } := ⟨rfl, rfl, rfl, id⟩
      refine .trans (Collects.same herase hperm.symm) ?_
      cases t with
      | electFBcallback msg valid => exact electFBcallback_collects fun hf => (hF hf).2.1
      | ownElect d' v c => exact ownElect_collects henv _ d' v c
      | _ => simp [Elects, hk] at helects
  | _ => exact helects.elim

/-! ## What was collected -/

/-- Who has signed for a decision, counted or not. -/
def signersFor (q : UInt64 → CommitDecision → ElectQuorum) (P : List ElectFBMsg) (v : UInt64)
    (c : CommitDecision) : List ProcessId :=
  (P.filter (·.For v c)).map (·.signer) ++ (q v c).sigs.map (·.processId)

structure LeaderInv (env : Env) (d : Digest) (F : Prop) (es : List Event) (P : List ElectFBMsg)
    (s : State) : Prop where
  distinct : ∀ v c, (s.electQuorums d v c).voters.Nodup
  signers : ∀ v c, (signersFor (s.electQuorums d) P v c).Subperm (s.electQuorums d v c).voters
  heard : ∀ v c, F → s.viewComplete d v = false →
    (s.electQuorums d v c).voters ⊆ signersFor (s.electQuorums d) P v c
  noted : F → ∀ msg, .electFB msg ∈ es → msg.Genuine env → msg.txnDigest = d →
    State.leaderIdx env msg.view d = env.idx →
    msg.signer ∈ (s.electQuorums d msg.view msg.decision).voters
  valid : ∀ msg ∈ P, msg.txnDigest = d ∧ msg.Genuine env
  opened : ∀ msg ∈ P, s.organizers d = true
  genuine : ∀ v c, ∀ sig ∈ (s.electQuorums d v c).sigs, ElectFBMsg.Genuine env ⟨d, c, v, sig⟩
  short : ∀ v c, s.viewComplete d v = false →
    (s.electQuorums d v c).sigs.length ≤ 2 * env.config.f
  once : ((s.decisions d).map (·.1)).Nodup
  complete : ∀ v, s.viewComplete d v = true ↔ v ∈ (s.decisions d).map (·.1)
  certified : ∀ v c sigs, (v, c, sigs) ∈ s.decisions d → Certified env d v c sigs

theorem signersFor_cons (q : UInt64 → CommitDecision → ElectQuorum) (v : UInt64)
    (c : CommitDecision) :
    signersFor q (msg :: P) v c =
      (if msg.For v c then [msg.signer] else []) ++ signersFor q P v c := by
  unfold signersFor
  split_ifs with h <;> simp [h]

namespace LeaderInv

theorem note (h : LeaderInv env d F es P s)
    (hpre : s.preProcessElectFB d msg.view msg.decision msg.signer = some s')
    (hP : P' = msg :: P ∧ msg.txnDigest = d ∧ msg.Genuine env ∨ P' = P ∧ ¬ F) :
    LeaderInv env d F es P' s' := by
  obtain ⟨hnew, hq, hv, hdec, hopen, -⟩ := preProcessElectFB_votes hpre
  have hsigners : ∀ v c, signersFor (s'.electQuorums d) P' v c =
      signersFor (s.electQuorums d) P' v c := by
    intro v c
    rw [signersFor, hq]
    rfl
  refine ⟨fun v c => ?_, fun v c => ?_, fun v c hF hc r hr => ?_,
    fun hF x hx hg hd hl => ?_, fun x hx => ?_, fun _ _ => hopen, fun v c => ?_,
    fun v c hc => ?_, hdec ▸ h.once, hdec ▸ hv ▸ h.complete, hdec ▸ h.certified⟩
  · rw [hq]
    dsimp only
    split_ifs with hfor
    · obtain ⟨rfl, rfl⟩ := hfor
      exact nodup_cons.2 ⟨hnew, h.distinct _ _⟩
    · exact h.distinct v c
  · rw [hsigners, hq]
    obtain ⟨rfl, -⟩ | ⟨rfl, -⟩ := hP
    · rw [signersFor_cons]
      exact (subperm_append_left _).2 (h.signers v c)
    · exact (h.signers v c).trans (sublist_append_right _ _).subperm
  · rw [hq] at hr
    rw [hv] at hc
    rw [hsigners]
    obtain ⟨rfl, -⟩ | ⟨-, hnot⟩ := hP
    · rw [signersFor_cons]
      exact (mem_append.1 hr).elim (mem_append_left _)
        fun hr => mem_append_right _ (h.heard v c hF hc hr)
    · exact absurd hF hnot
  · rw [hq]
    exact mem_append_right _ (h.noted hF x hx hg hd hl)
  · obtain ⟨rfl, hmsg⟩ | ⟨rfl, -⟩ := hP
    · exact (mem_cons.1 hx).elim (· ▸ hmsg) (h.valid x)
    · exact h.valid x hx
  · rw [hq]
    exact h.genuine v c
  · rw [hq]
    exact h.short v c (hv ▸ hc)

theorem drop (h : LeaderInv env d F es P s) (hs : SameVotes d s s') (hP : P'.Subperm P)
    (hlost : ∀ v c, F → s.viewComplete d v = false → ∀ msg ∈ P, msg.For v c → msg ∈ P') :
    LeaderInv env d F es P' s' := by
  obtain ⟨hq, hv, hdec, hopen⟩ := hs
  refine ⟨hq ▸ h.distinct, fun v c => ?_, fun v c hF hc r hr => ?_,
    hq ▸ h.noted, fun x hx => h.valid x (hP.subset hx), fun x hx => hopen (h.opened x
    (hP.subset hx)), hq ▸ h.genuine, hv ▸ hq ▸ h.short, hdec ▸ h.once, hdec ▸ hv ▸ h.complete,
    hdec ▸ h.certified⟩
  · obtain ⟨l, hperm, hsub⟩ := hP
    have hle : (signersFor (s.electQuorums d) P' v c).Subperm
        (signersFor (s.electQuorums d) P v c) :=
      (subperm_append_right _).2 ⟨_, (hperm.filter _).map _, (hsub.filter _).map _⟩
    rw [hq]
    exact hle.trans (h.signers v c)
  · rw [hq] at hr ⊢
    rw [hv] at hc
    refine (mem_append.1 (h.heard v c hF hc hr)).elim (fun hr => ?_) (mem_append_right _)
    obtain ⟨x, hx, rfl⟩ := mem_map.1 hr
    obtain ⟨hx, hfor⟩ := mem_filter.1 hx
    have hfor := of_decide_eq_true hfor
    exact mem_append_left _ (mem_map_of_mem
      (mem_filter.2 ⟨hlost v c hF hc x hx hfor, decide_eq_true hfor⟩))

/-- A signature that is counted moves from the messages to the signatures. -/
theorem signersFor_counted (v : UInt64) (c : CommitDecision) :
    (signersFor (s.electQuorums d) (msg :: P) v c).Perm (signersFor (counted s d msg) P v c) := by
  rw [signersFor_cons, signersFor, signersFor, counted, map_append]
  split_ifs <;> grind [ElectFBMsg.signer]

theorem counted_genuine (h : LeaderInv env d F es (msg :: P) s) (v : UInt64) (c : CommitDecision) :
    ∀ sig ∈ (counted s d msg v c).sigs, ElectFBMsg.Genuine env ⟨d, c, v, sig⟩ := by
  intro sig hsig
  obtain hold | hnew := mem_append.1 hsig
  · exact h.genuine v c sig hold
  · split_ifs at hnew with hfor
    · obtain ⟨rfl, rfl⟩ := hfor
      obtain rfl := mem_singleton.1 hnew
      obtain ⟨rfl, hmsg⟩ := h.valid _ mem_cons_self
      exact hmsg
    · simp at hnew

theorem counted_nodup (h : LeaderInv env d F es (msg :: P) s) (v : UInt64) (c : CommitDecision) :
    ((counted s d msg v c).sigs.map (·.processId)).Nodup := by
  obtain ⟨l, hperm, hsub⟩ := h.signers v c
  have hall := (hperm.trans (signersFor_counted v c)).nodup_iff.1 ((h.distinct v c).sublist hsub)
  exact hall.of_append_right

theorem counted_length (h : LeaderInv env d F es (msg :: P) s) {v : UInt64} (c : CommitDecision)
    (hv : s.viewComplete d v = false) :
    (counted s d msg v c).sigs.length ≤ 2 * env.config.f + if msg.For v c then 1 else 0 := by
  have := h.short v c hv
  rw [counted, length_append]
  split_ifs <;> simp <;> omega

theorem count (h : LeaderInv env d F es (msg :: P) s) :
    LeaderInv env d F es P (s.processElectFB env d msg.view msg.decision msg.signature) := by
  obtain ⟨-, horg, ⟨hc, heq⟩ | ⟨hnot, hq, hcases⟩⟩ := processElectFB_votes env s d msg
  · rw [heq]
    refine h.drop (.refl s) (sublist_cons_self _ _).subperm ?_
    rintro v c - hv x hx ⟨rfl, rfl⟩
    refine (mem_cons.1 hx).resolve_left fun hx => ?_
    rw [hx, hc (h.opened msg mem_cons_self)] at hv
    cases hv
  have hopen : ∀ v, (s.processElectFB env d msg.view msg.decision
      msg.signature).viewComplete d v = false → s.viewComplete d v = false := by
    obtain ⟨-, hv, -⟩ | ⟨-, hv, -⟩ := hcases
    · exact fun v hc => hv ▸ hc
    · grind
  have hvoters : ∀ v c, (counted s d msg v c).voters = (s.electQuorums d v c).voters :=
    fun _ _ => rfl
  refine ⟨fun v c => ?_, fun v c => ?_, fun v c hF hc r hr => ?_,
    fun hF x hx hg hd hl => ?_, fun x hx => h.valid x (mem_cons_of_mem _ hx),
    fun x hx => horg ▸ h.opened msg mem_cons_self, fun v c => ?_, fun v c hc => ?_, ?_,
    fun v => ?_, fun v c sigs hmem => ?_⟩
  · rw [hq, hvoters]
    exact h.distinct v c
  · rw [hq, hvoters]
    exact (signersFor_counted v c).symm.subperm.trans (h.signers v c)
  · rw [hq] at hr ⊢
    exact (signersFor_counted v c).mem_iff.1 (h.heard v c hF (hopen v hc) hr)
  · rw [hq, hvoters]
    exact h.noted hF x hx hg hd hl
  · rw [hq]
    exact h.counted_genuine v c
  · have := h.counted_length c (hopen v hc)
    rw [hq]
    split_ifs at this with hfor
    · obtain ⟨rfl, rfl⟩ := hfor
      grind
    · exact this
  all_goals obtain ⟨-, hv, hdec⟩ | ⟨hlen, hv, hdec⟩ := hcases
  · exact hdec ▸ h.once
  · have hnew : msg.view ∉ (s.decisions d).map (·.1) := by
      rw [← h.complete, hnot]
      simp
    rw [hdec, map_append]
    exact h.once.append (by simp) (by simpa using hnew)
  · exact hdec ▸ hv ▸ h.complete v
  · rw [hv, hdec, map_append, mem_append, ← h.complete]
    grind
  · exact h.certified v c sigs (hdec ▸ hmem)
  · rw [hdec, mem_append] at hmem
    obtain hmem | hmem := hmem
    · exact h.certified v c sigs hmem
    · obtain ⟨rfl, rfl, rfl⟩ := by simpa using hmem
      exact ⟨hlen, h.counted_nodup _ _, h.counted_genuine _ _⟩

theorem collects {x y : List ElectFBMsg × State}
    (hxy : Relation.ReflTransGen (Collects env d F) x y) (h : LeaderInv env d F es x.1 x.2) :
    LeaderInv env d F es y.1 y.2 := by
  induction hxy with
  | refl => exact h
  | tail _ hstep ih =>
    cases hstep with
    | drop hs hP hlost => exact ih.drop hs hP fun v c hF _ x hx _ => hlost hF hx
    | note hd hmsg hpre => exact ih.note hpre (.inl ⟨rfl, hd, hmsg⟩)
    | block hF hpre => exact ih.note hpre (.inr ⟨rfl, hF⟩)
    | count => exact ih.count

theorem run (henv : LeaderEnv env) (h : LeaderInv env d F [] (s.verifying d) s)
    (hes : (fallbackMachine env).Along (fun s e => (Recognised env e ∧ e ≠ .outside (.clean d)) ∧
      (F → ElectMeets env d s e)) s es) :
    LeaderInv env d F es (((fallbackMachine env).run s es).verifying d)
      ((fallbackMachine env).run s es) := by
  refine Machine.run_history (I := fun es s => LeaderInv env d F es (s.verifying d) s) h
    (fun es e h he => ?_) hes
  have hstep := h.collects (step_collects henv he.1.1 he.1.2 he.2)
  refine { hstep with noted := fun hF msg hmsg hgenuine hd hleader => ?_ }
  obtain hmsg | hmsg := mem_append.1 hmsg
  · exact hstep.noted hF msg hmsg hgenuine hd hleader
  · obtain rfl := mem_singleton.1 hmsg
    subst hd
    obtain ⟨hlive, hopen, -⟩ := he.2 hF
    have heq : (fallbackMachine env).step ((fallbackMachine env).run s es) (.electFB msg) =
        ((fallbackMachine env).run s es).handleElectFB env msg := by
      simp [fallbackMachine, step, show (Machine.run ⟨step env⟩ s es).crashed = false from hlive]
    rw [heq]
    obtain ⟨hsame, hold⟩ | ⟨-, t, hpre, ht⟩ :=
      handleElectFB_cases henv ((fallbackMachine env).run s es) msg
    · rw [(hsame _).1.quorums]
      exact hold (he.1.1.trans (decide_eq_true hgenuine.1)) hleader hopen
    · rw [ht]
      change msg.signer ∈ (t.electQuorums msg.txnDigest msg.view msg.decision).voters
      rw [(preProcessElectFB_votes hpre).2.1]
      simp [ElectFBMsg.For]

end LeaderInv

end

/-- For a transaction that is not cleaned a leader sends at most one DecisionFB message for a view,
with signatures of `2f + 1` replicas. If valid messages of `2f + 1` replicas for a decision have
arrived, then it has sent one. -/
theorem leader_decides (env : Env) (henv : LeaderEnv env) (s : State)
    (hempty : s.electQuorums = fun _ _ _ => {}) (hviews : s.viewComplete = fun _ _ => false)
    (htasks : s.tasks = []) (hlog : s.log = []) (es : List Event)
    (hes : ∀ e ∈ es, Recognised env e) (d : Digest) (hclean : .outside (.clean d) ∉ es) :
    let s' := (fallbackMachine env).run s es
    ((s'.decisions d).map (·.1)).Nodup ∧
      (∀ v c sigs, (v, c, sigs) ∈ s'.decisions d → Certified env d v c sigs) ∧
      ∀ v c, (fallbackMachine env).Along (ElectMeets env d) s es →
        State.leaderIdx env v d = env.idx →
        ∀ who : Finset ProcessId, 2 * env.config.f + 1 ≤ who.card →
        (∀ r ∈ who, ∃ msg, .electFB msg ∈ es ∧ msg.Genuine env ∧ msg.txnDigest = d ∧
          msg.For v c ∧ msg.signer = r) →
        (∀ msg ∈ s'.verifying d, ¬ msg.For v c) →
        ∃ c' sigs, (v, c', sigs) ∈ s'.decisions d := by
  intro s'
  have hstart : ∀ F, LeaderInv env d F [] (s.verifying d) s := by
    intro F
    constructor <;>
      simp [State.verifying, State.decisions, signersFor, hempty, hviews, htasks, hlog]
  have hcond : (fallbackMachine env).Along
      (fun _ e => Recognised env e ∧ e ≠ .outside (.clean d)) s es :=
    Machine.along_of_forall fun e he => ⟨hes e he, fun heq => hclean (heq ▸ he)⟩
  have hinv : LeaderInv env d False es (s'.verifying d) s' :=
    .run henv (hstart _) (hcond.mono fun _ _ h => ⟨h, nofun⟩)
  refine ⟨hinv.once, hinv.certified, fun v c hmeets hleader who hcard hwho hdone => ?_⟩
  have hd : LeaderInv env d True es (s'.verifying d) s' :=
    .run henv (hstart _) ((hcond.and hmeets).mono fun _ _ h => ⟨h.1, fun _ => h.2⟩)
  cases hv : s'.viewComplete d v with
  | true =>
    obtain ⟨⟨v', c', sigs⟩, hmem, rfl⟩ := List.mem_map.1 ((hinv.complete v).1 hv)
    exact ⟨c', sigs, hmem⟩
  | false =>
    have hsub : who ⊆ ((s'.electQuorums d v c).sigs.map (·.processId)).toFinset := by
      intro r hr
      obtain ⟨msg, hmsg, hgenuine, hdigest, ⟨rfl, rfl⟩, rfl⟩ := hwho r hr
      have hmem := hd.heard _ _ trivial hv (hd.noted trivial msg hmsg hgenuine hdigest hleader)
      rw [signersFor, List.filter_eq_nil_iff.2 (by simpa using hdone)] at hmem
      exact List.mem_toFinset.2 hmem
    have hle := (Finset.card_le_card hsub).trans (List.toFinset_card_le _)
    have := hinv.short v c hv
    rw [List.length_map] at hle
    omega

/-- A vote of replica `r` in view 5, of which replica 0 is the leader. -/
def voteOf (r : UInt64) (signature : Bytes) : ElectFBMsg := ⟨[7], .commit, 5, ⟨r, signature⟩⟩

def threeVotes : List Event :=
  [.electFB (voteOf 1 [1]), .electFB (voteOf 2 [2]), .electFB (voteOf 3 [3])]

def leading : Env := { Env.sample with params := { multiThreading := true } }

/-- With `f = 1` a forged message in the name of replica 1 comes before the votes of replicas 1, 2
and 3. On one thread the votes do not count even without it. If the transaction is cleaned after
the decision, the same messages have the leader send another one for the view. -/
theorem vote_blocked :
    let s := (fallbackMachine leading).run {}
      (.electFB (voteOf 1 [0]) :: threeVotes ++ List.replicate 4 (.task 0 []))
    let s' := (fallbackMachine leading).run {} (threeVotes ++ List.replicate 3 (.task 0 []) ++
      .outside (.clean [7]) :: threeVotes ++ List.replicate 3 (.task 0 []))
    s.tasks.length = 0 ∧ s.decisions [7] = [] ∧
      ((fallbackMachine .sample).run {} threeVotes).decisions [7] = [] ∧
      (s'.decisions [7]).map (·.1) = [5, 5] := by
  decide +kernel

theorem leader_decides_three :
    let s := (fallbackMachine leading).run {} (threeVotes ++ List.replicate 3 (.task 0 []))
    ∃ c sigs, (5, c, sigs) ∈ s.decisions [7] := by
  have henv : LeaderEnv leading := ⟨rfl, rfl, by decide +kernel, fun _ => rfl⟩
  refine (leader_decides leading henv {} rfl rfl rfl rfl _ (by decide +kernel) [7]
    (by simp [threeVotes])).2.2 5 .commit (by decide +kernel) (by decide +kernel) {1, 2, 3}
    (by decide +kernel) ?_ (by decide +kernel)
  intro r hr
  simp only [Finset.mem_insert, Finset.mem_singleton] at hr
  obtain rfl | rfl | rfl := hr
  · exact ⟨voteOf 1 [1], by simp [threeVotes], by decide +kernel⟩
  · exact ⟨voteOf 2 [2], by simp [threeVotes], by decide +kernel⟩
  · exact ⟨voteOf 3 [3], by simp [threeVotes], by decide +kernel⟩

end Sintr.Fallback
