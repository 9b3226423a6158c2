import Sintr.Shard.Phase1
import Sintr.Shard.Phase2

/-!
# Forged replies

`ProcessP1R` and `HandlePhase2Reply` note who sent a reply before they verify it, and the process
stops over a vote that is signed but does not fit. So a forged reply that names a replica keeps the
reply of this replica from being counted.
-/

namespace Sintr.Shard

open Option

/-! ## A transaction at a shard client -/

structure Session where
  phase1 : Outcome
  phase2 : State

inductive Reply where
  | phase1 (r : Phase1Reply)
  | phase2 (r : Phase2Reply)
  | decisionTimer

namespace Outcome

def pending : Outcome → Option PendingPhase1
  | .waits p => some p
  | _ => none

/-- What comes after the decision is dropped. -/
def next (f : PendingPhase1 → Outcome) (o : Outcome) : Outcome := o.pending.elim o f

theorem eq_waits {o : Outcome} {p : PendingPhase1} (h : o.pending = some p) : o = .waits p := by
  unfold pending at h
  split at h
  · rw [some.inj h]
  · cases h

def stopped : Outcome → Bool
  | .stops => true
  | _ => false

end Outcome

def Session.crashed (c : Session) : Bool := c.phase1.stopped || c.phase2.panicked

section
variable (S : ShardEnv) (phase1DecisionTimeout : Nat)

def Session.handle (c : Session) (e : Reply) : Session :=
  if c.crashed then c
  else
    match e with
    | .phase1 r => { c with phase1 := c.phase1.next (processP1R S phase1DecisionTimeout r) }
    | .phase2 r => { c with phase2 := handlePhase2Reply S r c.phase2 }
    | .decisionTimer => { c with phase1 := c.phase1.next decisionTimer }

def sessionMachine : Machine Session Reply := ⟨Session.handle S phase1DecisionTimeout⟩

variable (txn : Transaction) (d : Digest) (decision : CommitDecision)

def fits (r : Phase1Reply) (cc : ConcurrencyControl) : Bool :=
  cc.txnDigest == some d &&
    match cc.ccr with
    | .abort =>
      let conflict := cc.committedConflict.getD default
      validateCommittedConflict S.env conflict (S.env.digest conflict.txn) txn = .accept
    | .commit => r.insufficientEndorsements.isNone
    | .abstain => true
    | _ => false

def Phase1Reply.matching (r : Phase1Reply) : Bool :=
  match r.cc with
  | some ⟨.abort, conflict, d', g⟩ => fits S txn d r ⟨.abort, conflict, d', g⟩
  | _ => (r.signedCC.bind (S.authenticate S.parseCC)).any fun cc =>
    fits S txn d r cc && cc.involvedGroup == some S.group

def Phase2Reply.matching (r : Phase2Reply) : Bool :=
  (r.signedP2Decision.bind (S.authenticate S.parseP2Decision)).any
    (· == ⟨decision, some d, some S.group, some 0⟩)

def Reply.matching : Reply → Bool
  | .phase1 r => r.matching S txn d
  | .phase2 r => r.matching S d decision
  | .decisionTimer => true

end

/-- There is nothing to verify in the reply, its sender has been heard from, or the votes or the
request that it is for are done. -/
def Reply.ignored (c : Session) : Reply → Bool
  | .phase1 r => c.phase1.pending.all fun p =>
      !(r.cc.any (·.ccr = .abort)) && r.signedCC.all (·.processId ∈ p.replies.seen)
  | .phase2 r => (c.phase2.pendingPhase2s r.reqId).all fun p =>
      r.signedP2Decision.all (·.processId ∈ p.replies.seen)
  | .decisionTimer => false

variable {S : ShardEnv} {timeout : Nat} {txn : Transaction} {d : Digest} {decision : CommitDecision}
  {c : Session} {e : Reply} {r : Phase1Reply} {p : PendingPhase1} {cc : ConcurrencyControl}

/-! ## Replies that are ignored -/

theorem processP1R_ignored (habort : r.cc.any (·.ccr = .abort) = false)
    (hseen : r.signedCC.all (·.processId ∈ p.replies.seen) = true) :
    processP1R S timeout r p = .waits p := by
  unfold processP1R
  split
  · rename_i hcc
    simp [hcc] at habort
  · split
    · rfl
    · rename_i m hm
      rw [hm, all_some, decide_eq_true_eq] at hseen
      rw [if_pos hseen]

theorem handlePhase2Reply_ignored {r : Phase2Reply} {s : State}
    (h : (s.pendingPhase2s r.reqId).all fun p =>
      r.signedP2Decision.all (·.processId ∈ p.replies.seen)) : handlePhase2Reply S r s = s := by
  unfold handlePhase2Reply
  split
  · rename_i p m hp hm
    rw [hp, hm, all_some, all_some, decide_eq_true_eq] at h
    rw [if_pos h]
  · rfl

theorem handle_ignored (h : e.ignored c = true) : c.handle S timeout e = c := by
  unfold Session.handle
  split_ifs
  · rfl
  cases e with
  | phase1 r =>
    have hnext : c.phase1.next (processP1R S timeout r) = c.phase1 := by
      simp only [Reply.ignored] at h
      unfold Outcome.next
      cases hp : c.phase1.pending with
      | none => rfl
      | some p =>
        rw [hp, all_some, Bool.and_eq_true, Bool.not_eq_true'] at h
        rw [elim_some, processP1R_ignored h.1 h.2]
        exact (Outcome.eq_waits hp).symm
    exact congrArg (Session.mk · c.phase2) hnext
  | phase2 r => exact congrArg (Session.mk c.phase1) (handlePhase2Reply_ignored h)
  | decisionTimer => cases h

/-! ## Replies that match -/

def Outcome.Open (txn : Transaction) (d : Digest) : Outcome → Prop
  | .waits p => p.txn = txn ∧ p.txnDigest = d ∧
      ¬ (p.validator.state = .fastCommit ∨ p.validator.state = .fastAbort)
  | .decides _ => True
  | .stops => False

theorem act_open (htxn : p.txn = txn) (hd : p.txnDigest = d)
    (hcommit : p.validator.state = .fastCommit → r.insufficientEndorsements.isNone = true) :
    (p.act timeout r cc).Open txn d := by
  unfold PendingPhase1.act PendingPhase1.tentative PendingPhase1.decide
  cases hs : p.validator.state with
  | fastCommit => simp [isNone_iff_eq_none.1 (hcommit hs), Outcome.Open]
  | slowCommitTentative | slowAbortTentative | slowAbortTentative2 =>
    dsimp only
    split_ifs <;> simp [Outcome.Open, htxn, hd, hs]
  | _ => simp [Outcome.Open, htxn, hd, hs]

theorem processMessage_fits {v : Phase1Validator}
    (hstate : ¬ (v.state = .fastCommit ∨ v.state = .fastAbort)) (h : fits S txn d r cc = true) :
    ∃ v', v.processMessage S.env txn d cc = some v' ∧
      (v'.state = .fastCommit → r.insufficientEndorsements.isNone = true) := by
  rw [fits, Bool.and_eq_true, beq_iff_eq] at h
  obtain ⟨hd, h⟩ := h
  unfold Phase1Validator.processMessage
  rw [if_neg (by simp [hd]), if_neg hstate]
  cases hccr : cc.ccr <;> simp only [hccr] at h ⊢
  case commit => exact ⟨_, rfl, fun _ => h⟩
  case abstain =>
    refine ⟨_, rfl, fun hfast => absurd (.inl ?_) hstate⟩
    unfold Phase1Validator.abstain at hfast
    dsimp only at hfast
    split_ifs at hfast
    exact hfast
  case abort => exact ⟨_, if_pos (of_decide_eq_true h), fun hfast => by cases hfast⟩
  all_goals cases h

theorem processP1R_open (hp : (Outcome.waits p).Open txn d)
    (h : r.matching S txn d = true) : (processP1R S timeout r p).Open txn d := by
  obtain ⟨rfl, rfl, hstate⟩ := hp
  unfold Phase1Reply.matching at h
  unfold processP1R
  split
  · rename_i hcc
    simp only [hcc] at h
    obtain ⟨v, hv, hcommit⟩ := processMessage_fits hstate h
    simp only [hv]
    exact act_open rfl rfl hcommit
  · rename_i hno
    split at h
    · exact absurd ‹_› (hno _ _ _)
    · obtain ⟨cc, hcc, hfits⟩ := (any_eq_true _ _).1 h
      obtain ⟨m, hm, hauth⟩ := bind_eq_some_iff.1 hcc
      rw [Bool.and_eq_true] at hfits
      obtain ⟨v, hv, hcommit⟩ := processMessage_fits hstate hfits.1
      simp only [hm, hauth, hv]
      split_ifs
      · exact ⟨rfl, rfl, hstate⟩
      · exact act_open rfl rfl hcommit

theorem decisionTimer_open (hp : (Outcome.waits p).Open txn d) : (decisionTimer p).Open txn d := by
  unfold decisionTimer
  split
  · exact hp
  · trivial

theorem handlePhase2Reply_alive {r : Phase2Reply} {s : State} (hs : s.panicked = false)
    (h : r.matching S d decision = true) :
    (handlePhase2Reply S r s).panicked = false := by
  obtain ⟨p2, hp2, hview⟩ := (any_eq_true _ _).1 h
  obtain ⟨m, hm, hauth⟩ := bind_eq_some_iff.1 hp2
  rw [beq_iff_eq] at hview
  subst hview
  unfold handlePhase2Reply
  rw [hm]
  split
  · rename_i p m' hp hm'
    cases hm'
    simp only [hauth, ne_eq, not_true_eq_false, if_false]
    split_ifs <;> exact hs
  · exact hs

/-! ## Runs -/

structure Session.Alive (txn : Transaction) (d : Digest) (c : Session) : Prop where
  phase1 : c.phase1.Open txn d
  phase2 : c.phase2.panicked = false

theorem Session.Alive.not_crashed (h : c.Alive txn d) : c.crashed = false := by
  have hopen := h.phase1
  unfold Session.crashed Outcome.stopped
  rw [h.phase2, Bool.or_false]
  split
  · rename_i hstops
    rw [hstops] at hopen
    exact hopen.elim
  · rfl

theorem Outcome.Open.next {o : Outcome} (h : o.Open txn d) {f : PendingPhase1 → Outcome}
    (hf : ∀ p, (Outcome.waits p).Open txn d → (f p).Open txn d) : (o.next f).Open txn d := by
  cases o with
  | waits p => exact hf p h
  | decides dec => exact h
  | stops => exact h

theorem Session.Alive.handle (h : c.Alive txn d) (he : e.matching S txn d decision = true) :
    (c.handle S timeout e).Alive txn d := by
  unfold Session.handle
  split_ifs
  · exact h
  cases e with
  | phase1 r => exact ⟨h.phase1.next fun _ hp => processP1R_open hp he, h.phase2⟩
  | phase2 r => exact ⟨h.phase1, handlePhase2Reply_alive h.phase2 he⟩
  | decisionTimer => exact ⟨h.phase1.next fun _ hp => decisionTimer_open hp, h.phase2⟩

/-- **Forged replies do no harm** as long as each of them is ignored: the client does not crash, and
it is in the state in which the matching replies alone would have left it. -/
theorem forged_run (S : ShardEnv) (timeout : Nat) (txn : Transaction) (d : Digest)
    (decision : CommitDecision) {s₀ : State} (hs : s₀.panicked = false) {es : List Reply}
    (hes : (sessionMachine S timeout).Along
      (fun c e => e.matching S txn d decision = true ∨ e.ignored c = true)
      ⟨.waits { txn, txnDigest := d }, s₀⟩ es) :
    let run := (sessionMachine S timeout).run ⟨.waits { txn, txnDigest := d }, s₀⟩
    (run es).crashed = false ∧ run es = run (es.filter (Reply.matching S txn d decision)) := by
  have hstart : Session.Alive txn d ⟨.waits { txn, txnDigest := d }, s₀⟩ :=
    ⟨⟨rfl, rfl, by simp⟩, hs⟩
  have hignored : ∀ c e, e.ignored c = true → (sessionMachine S timeout).step c e = c :=
    fun c e he => handle_ignored he
  have halive := Machine.run_along (I := Session.Alive txn d) (fun c e he h => ?_) hstart hes
  · refine ⟨halive.not_crashed, Machine.run_filter (fun c e he => ?_) hes⟩
    exact he.imp_right (hignored c e)
  · rcases he with he | he
    · exact h.handle he
    · rwa [hignored c e he]

/-! ## Samples -/

section
open ShardEnv

def sampleSession : Session where
  phase1 := .waits { txn := sampleTxn, txnDigest := [7] }
  phase2 := ({} : State).setPhase2 0
    (some { txn := sampleTxn, txnDigest := [7], decision := .commit })

def sampleVote (d : Digest) (id : ProcessId) : Reply :=
  .phase1 { signedCC := some (signSample id (.vote true d 0)) }

def forgedVote (id : ProcessId) : Reply := .phase1 { signedCC := some ⟨[], id, []⟩ }

theorem forged_run_after :
    let run := (sessionMachine sample 0).run sampleSession
    (run [sampleVote [7] 0, forgedVote 0]).crashed = false ∧
      run [sampleVote [7] 0, forgedVote 0] = run ([sampleVote [7] 0, forgedVote 0].filter
        (Reply.matching sample sampleTxn [7] .commit)) :=
  forged_run sample 0 sampleTxn [7] .commit rfl
    ⟨.inl (by decide +kernel), .inr (by decide +kernel), trivial⟩

/-- A forged reply comes first, in each of the phases; or a replica votes on another transaction. -/
theorem forged_first :
    let run := (sessionMachine sample 0).run sampleSession
    let commits := fun c : Session => c.phase1.pending.map (·.validator.commits)
    let logged := fun c : Session => (c.phase2.pendingPhase2s 0).map (·.matchingReplies)
    commits (run [sampleVote [7] 0]) = some 1 ∧
    commits (run [forgedVote 0, sampleVote [7] 0]) = some 0 ∧
    logged (run [.phase2 (sampleReply [7] 0)]) = some 1 ∧
    logged (run [.phase2 ⟨0, some ⟨[], 0, []⟩⟩, .phase2 (sampleReply [7] 0)]) = some 0 ∧
    (run [sampleVote [8] 0]).crashed = true := by
  decide +kernel

end

end Sintr.Shard
