import Sintr.Cert.Soundness
import Sintr.Lib.BallotBox
import Sintr.Shard.Messages

/-!
# Phase1 votes at a shard client

A shard client counts the votes of its group on a transaction. `Phase1Validator` turns them into a
state, and `ProcessP1R` decides on it, at once or when a timer fires. The votes are then handed to
the client as signatures, sorted by what was voted for.

A vote is counted if its digest is that of the transaction. The group that it names is not looked
at.

* `Phase1Validator.Sound`: what the counts are in each state; kept by `processMessage`.
* `PendingPhase1.Inv`: the signatures are as many as the counts; kept by `processP1R`.
-/

namespace Sintr.Shard

open List

/-! ## The validator -/

inductive ValidationState where
  | notEnough
  | fastCommit
  | fastAbort
  | fastAbstain
  | slowCommitTentative
  | slowCommitFinal
  | slowAbortTentative
  | slowAbortTentative2
  | slowAbortFinal
  deriving DecidableEq, Repr

/-- The client decides in such a state, whatever the votes to come. -/
def ValidationState.settled : ValidationState → Bool
  | .fastCommit | .fastAbort | .fastAbstain | .slowCommitFinal | .slowAbortFinal => true
  | _ => false

/-- The counts of votes and the state they lead to. -/
structure Phase1Validator where
  state : ValidationState := .notEnough
  commits : Nat := 0
  abstains : Nat := 0
  deriving DecidableEq, Repr

namespace Phase1Validator

section
variable (env : Env)

def commit (v : Phase1Validator) : Phase1Validator :=
  let commits := v.commits + 1
  { v with
    commits
    state :=
      if commits = env.config.n then .fastCommit
      else if 3 * env.config.f + 1 ≤ commits ∧ v.abstains = 0 then .slowCommitTentative
      else if 3 * env.config.f + 1 ≤ commits then .slowCommitFinal
      else v.state }

/-- One more ABSTAIN. The differences are those of unsigned numbers. -/
def abstain (v : Phase1Validator) : Phase1Validator :=
  let abstains := v.abstains + 1
  { v with
    abstains
    state :=
      if 3 * env.config.f + 1 ≤ abstains then .fastAbstain
      else if v.state = .slowCommitTentative then .slowCommitFinal
      else if env.config.f + 1 ≤ abstains ∧
          3 * env.config.f + 1 ≤ (env.config.n + 2 ^ 32 - abstains) % 2 ^ 32 then
        .slowAbortTentative
      else if env.config.f + 1 ≤ abstains then .slowAbortTentative2
      else if env.config.f + 1 ≤ abstains ∧
          (env.config.n + 2 ^ 32 - v.commits) % 2 ^ 32 < 3 * env.config.f + 1 then
        .slowAbortFinal
      else v.state }

/-- `ProcessMessage` of an honest client; `none` if the process stops, as it does whenever a vote is
not valid. -/
def processMessage (txn : Transaction) (d : Digest) (cc : ConcurrencyControl)
    (v : Phase1Validator) : Option Phase1Validator :=
  if cc.txnDigest.getD [] ≠ d then none
  else if v.state = .fastCommit ∨ v.state = .fastAbort then none
  else
    match cc.ccr with
    | .abort =>
      let conflict := cc.committedConflict.getD default
      if validateCommittedConflict env conflict (env.digest conflict.txn) txn = .accept then
        some { v with state := .fastAbort }
      else none
    | .commit => some (v.commit env)
    | .abstain => some (v.abstain env)
    | _ => none

def processVotes (txn : Transaction) (d : Digest) :
    List ConcurrencyControl → Phase1Validator → Option Phase1Validator
  | [], v => some v
  | cc :: votes, v =>
    if v.state.settled then some v
    else (v.processMessage env txn d cc).bind (processVotes txn d votes)

def Counts (v : Phase1Validator) : Prop :=
  match v.state with
  | .notEnough | .fastAbort => True
  | .fastCommit => v.commits = env.config.n
  | .fastAbstain => 3 * env.config.f + 1 ≤ v.abstains
  | .slowCommitTentative | .slowCommitFinal => 3 * env.config.f + 1 ≤ v.commits
  | .slowAbortTentative | .slowAbortTentative2 | .slowAbortFinal => env.config.f + 1 ≤ v.abstains

structure Sound (v : Phase1Validator) : Prop where
  counts : v.Counts env
  few : 0 < env.config.n → v.commits < env.config.n ∨ v.state = .fastCommit

end

variable {env : Env} {v : Phase1Validator}

theorem Sound.init : Sound env {} := ⟨trivial, fun h => .inl h⟩

theorem Sound.commits_le (h : v.Sound env) (hn : 0 < env.config.n) :
    v.commits ≤ env.config.n := by
  rcases h.few hn with hlt | hfast
  · exact le_of_lt hlt
  · have := h.counts
    unfold Counts at this
    rw [hfast] at this
    exact le_of_eq this

theorem Sound.commit (h : v.Sound env) (hfast : v.state ≠ .fastCommit) :
    (v.commit env).Sound env := by
  have hcounts := h.counts
  have hfew := h.few
  unfold Counts at hcounts
  unfold Phase1Validator.commit
  refine ⟨?_, fun hn => ?_⟩
  · unfold Counts
    dsimp only
    split_ifs with h1 h2 h3
    · exact h1
    · exact h2.1
    · exact h3
    · -- the state stays, and a count has grown
      cases hs : v.state <;> simp only [hs] at hcounts ⊢ <;> first | exact absurd hs hfast | omega
  · have hlt := (hfew hn).resolve_right hfast
    dsimp only
    by_cases h1 : v.commits + 1 = env.config.n
    · exact .inr (if_pos h1)
    · exact .inl (by omega)

theorem Sound.abstain (h : v.Sound env) (hfast : v.state ≠ .fastCommit) :
    (v.abstain env).Sound env := by
  have hcounts := h.counts
  unfold Counts at hcounts
  unfold Phase1Validator.abstain
  refine ⟨?_, fun hn => .inl ((h.few hn).resolve_right hfast)⟩
  unfold Counts
  dsimp only
  split_ifs with h1 h2 h3 h4 h5
  · exact h1
  · rw [h2] at hcounts
    exact hcounts
  · exact h3.1
  · exact h4
  · exact h5.1
  · cases hs : v.state <;> simp only [hs] at hcounts ⊢ <;> omega

theorem processMessage_spec {txn : Transaction} {d : Digest} {cc : ConcurrencyControl}
    {v' : Phase1Validator} (h : v.Sound env)
    (hv' : v.processMessage env txn d cc = some v') : v'.Sound env ∧
      (cc.ccr = .abort ∧ v'.state = .fastAbort ∧ v'.commits = v.commits ∧
          v'.abstains = v.abstains ∨
        cc.ccr = .commit ∧ v'.commits = v.commits + 1 ∧ v'.abstains = v.abstains ∨
        cc.ccr = .abstain ∧ v'.commits = v.commits ∧ v'.abstains = v.abstains + 1) := by
  unfold processMessage at hv'
  split_ifs at hv' with hd hstate
  obtain ⟨hfast, -⟩ := not_or.1 hstate
  split at hv'
  · rename_i hccr
    dsimp only at hv'
    split_ifs at hv'
    cases hv'
    refine ⟨⟨trivial, fun hn => .inl ((h.few hn).resolve_right hfast)⟩, .inl ?_⟩
    exact ⟨hccr, rfl, rfl, rfl⟩
  · rename_i hccr
    cases hv'
    exact ⟨h.commit hfast, .inr (.inl ⟨hccr, rfl, rfl⟩)⟩
  · rename_i hccr
    cases hv'
    exact ⟨h.abstain hfast, .inr (.inr ⟨hccr, rfl, rfl⟩)⟩
  · cases hv'

/-! ### The state as a function of the counts -/

def classify (f commits abstains : Nat) : ValidationState :=
  if commits = 5 * f + 1 then .fastCommit
  else if 3 * f + 1 ≤ abstains then .fastAbstain
  else if 3 * f + 1 ≤ commits then
    if abstains = 0 then .slowCommitTentative else .slowCommitFinal
  else if 2 * f + 1 ≤ abstains then .slowAbortTentative2
  else if f + 1 ≤ abstains then .slowAbortTentative
  else .notEnough

theorem unsettled_classify {f c a : Nat} (h : (classify f c a).settled = false) :
    c ≠ 5 * f + 1 ∧ a ≤ 3 * f ∧ (3 * f + 1 ≤ c → a = 0) := by
  unfold classify at h
  split_ifs at h <;> first | omega | contradiction

theorem classify_of_few {f c a : Nat} (hc : c ≤ 3 * f) (ha : a ≤ 3 * f) :
    classify f c a = if 2 * f + 1 ≤ a then .slowAbortTentative2
      else if f + 1 ≤ a then .slowAbortTentative else .notEnough := by
  rw [classify, if_neg (by omega), if_neg (by omega), if_neg (by omega)]

section
variable {txn : Transaction} {d : Digest} {cc : ConcurrencyControl}
  {votes : List ConcurrencyControl} (hn : env.config.n = 5 * env.config.f + 1)
  (hint : env.config.n < 2 ^ 31)
include hn

theorem commit_classify (hv : v.state = classify env.config.f v.commits v.abstains)
    (hopen : v.state.settled = false) :
    (v.commit env).state = classify env.config.f (v.commits + 1) v.abstains := by
  rw [hv] at hopen
  obtain ⟨hc, ha, hca⟩ := unsettled_classify hopen
  simp only [Phase1Validator.commit, hn, hv]
  by_cases hcommit : v.commits + 1 ≤ 3 * env.config.f
  · rw [classify_of_few hcommit ha, classify_of_few (Nat.le_of_succ_le hcommit) ha]
    simp only [show ¬ v.commits + 1 = 5 * env.config.f + 1 by omega,
      show ¬ 3 * env.config.f + 1 ≤ v.commits + 1 by omega, false_and, if_false]
  · unfold classify
    simp only [show 3 * env.config.f + 1 ≤ v.commits + 1 by omega,
      show ¬ 3 * env.config.f + 1 ≤ v.abstains by omega, true_and, if_true, if_false]

include hint

theorem abstain_classify (hv : v.state = classify env.config.f v.commits v.abstains)
    (hopen : v.state.settled = false) (hroom : v.commits + v.abstains < env.config.n) :
    (v.abstain env).state = classify env.config.f v.commits (v.abstains + 1) := by
  rw [hv] at hopen
  obtain ⟨hc, ha, hca⟩ := unsettled_classify hopen
  simp only [Phase1Validator.abstain, hn, hv] at hroom hint ⊢
  by_cases hall : 3 * env.config.f + 1 ≤ v.abstains + 1
  · rw [if_pos hall, classify, if_neg hc, if_pos hall]
  rw [if_neg hall]
  by_cases hcommit : 3 * env.config.f + 1 ≤ v.commits
  · have hstate : classify env.config.f v.commits v.abstains = .slowCommitTentative := by
      rw [classify, if_neg hc, if_neg (by omega), if_pos hcommit, if_pos (hca hcommit)]
    rw [if_pos hstate, classify, if_neg hc, if_neg hall, if_pos hcommit, if_neg (by omega)]
  · have hfew := Nat.le_of_lt_succ (Nat.lt_of_not_le hcommit)
    have hstate : classify env.config.f v.commits v.abstains ≠ .slowCommitTentative := by
      rw [classify_of_few hfew ha]
      split_ifs <;> simp
    rw [if_neg hstate, classify_of_few hfew ha, classify_of_few hfew (by omega)]
    split_ifs <;> first | rfl | omega

theorem processVotes_classify
    (hvotes : ∀ cc ∈ votes, cc.txnDigest.getD [] = d ∧ (cc.ccr = .commit ∨ cc.ccr = .abstain))
    (hv : v.state = classify env.config.f v.commits v.abstains)
    (hroom : v.commits + v.abstains + votes.length ≤ env.config.n) :
    ∃ v' seen, v.processVotes env txn d votes = some v' ∧ seen <+: votes ∧
      v'.commits = v.commits + seen.countP (·.ccr = .commit) ∧
      v'.abstains = v.abstains + seen.countP (·.ccr = .abstain) ∧
      v'.commits + v'.abstains = v.commits + v.abstains + seen.length ∧
      (seen = votes ∨ v'.state.settled) ∧
      v'.state = classify env.config.f v'.commits v'.abstains := by
  induction votes generalizing v with
  | nil => exact ⟨v, [], rfl, nil_prefix, rfl, rfl, rfl, .inl rfl, hv⟩
  | cons cc votes ih =>
    obtain ⟨⟨hd, hccr⟩, hrest⟩ := forall_mem_cons.1 hvotes
    rw [length_cons] at hroom
    cases hopen : v.state.settled with
    | true => exact ⟨v, [], by simp [processVotes, hopen], by simpa [hopen] using hv⟩
    | false =>
      have hnot : ¬ (v.state = .fastCommit ∨ v.state = .fastAbort) := by
        rintro (h | h) <;> simp [h, ValidationState.settled] at hopen
      rcases hccr with hccr | hccr
      · obtain ⟨v', seen, hrun, hseen⟩ := ih hrest (commit_classify hn hv hopen)
          (by simp only [Phase1Validator.commit]; omega)
        exact ⟨v', cc :: seen, by simpa [processVotes, hopen, processMessage, hd, hnot, hccr],
          by simpa [hccr, Phase1Validator.commit, Nat.add_assoc, Nat.add_left_comm, Nat.add_comm]
            using hseen⟩
      · obtain ⟨v', seen, hrun, hseen⟩ := ih hrest (abstain_classify hn hint hv hopen (by omega))
          (by simp only [Phase1Validator.abstain]; omega)
        exact ⟨v', cc :: seen, by simpa [processVotes, hopen, processMessage, hd, hnot, hccr],
          by simpa [hccr, Phase1Validator.abstain, Nat.add_assoc, Nat.add_left_comm, Nat.add_comm]
            using hseen⟩

/-- **What the state says about the votes**, in whatever order they come. -/
theorem processVotes_states
    (hvotes : ∀ cc ∈ votes, cc.txnDigest.getD [] = d ∧ (cc.ccr = .commit ∨ cc.ccr = .abstain))
    (hlen : votes.length ≤ env.config.n) :
    ∃ v seen, processVotes env txn d votes {} = some v ∧ seen <+: votes ∧
      (seen = votes ∨ v.state.settled) ∧
      v.commits = seen.countP (·.ccr = .commit) ∧ v.abstains = seen.countP (·.ccr = .abstain) ∧
      (v.state = .fastCommit ↔ v.commits = env.config.n) ∧
      (v.state = .fastAbstain ↔ 3 * env.config.f + 1 ≤ v.abstains) ∧
      (v.state = .slowCommitTentative ↔
        v.abstains = 0 ∧ 3 * env.config.f + 1 ≤ v.commits ∧ v.commits < env.config.n) ∧
      (v.state = .slowCommitFinal ↔ 1 ≤ v.abstains ∧ 3 * env.config.f + 1 ≤ v.commits) ∧
      (v.state = .slowAbortTentative ↔ env.config.f + 1 ≤ v.abstains ∧
        v.abstains ≤ 2 * env.config.f ∧ v.commits < 3 * env.config.f + 1) ∧
      (v.state = .slowAbortTentative2 ↔
        2 * env.config.f + 1 ≤ v.abstains ∧ v.abstains ≤ 3 * env.config.f) ∧
      (v.state = .notEnough ↔ v.abstains ≤ env.config.f ∧ v.commits < 3 * env.config.f + 1) ∧
      (votes.length = env.config.n → v.state ≠ .notEnough) := by
  obtain ⟨v, seen, hrun, hseen, hc, ha, hsum, hend, hv⟩ :=
    @processVotes_classify env {} txn d votes hn hint hvotes (by simp [classify]) (by simpa)
  have hle := hseen.length_le
  simp only [Nat.zero_add] at hc ha hsum
  refine ⟨v, seen, hrun, hseen, hend, hc, ha, ?_, ?_, ?_, ?_, ?_, ?_, ?_, fun hall hstate => ?_⟩
  case refine_8 =>
    have hseen : seen = votes := hend.resolve_right (by simp [hstate, ValidationState.settled])
    rw [hv, classify] at hstate
    split_ifs at hstate
    subst hseen
    omega
  all_goals
    rw [hv, classify]
    split_ifs <;> simp <;> omega

end

theorem processVotes_states_six :
    ∃ v, processVotes Env.sample default [] (List.replicate 6 { ccr := .abstain }) {} = some v ∧
      v.state ≠ .notEnough := by
  obtain ⟨v, _, hrun, -, -, -, -, -, -, -, -, -, -, -, hall⟩ :=
    @processVotes_states Env.sample default [] (List.replicate 6 { ccr := .abstain })
      rfl (by decide) (by decide) (by decide)
  exact ⟨v, hrun, hall rfl⟩

end Phase1Validator

/-! ## A transaction that waits for votes -/

/-- A `Phase1Reply`; only an ABORT may be unsigned. -/
structure Phase1Reply where
  cc : Option ConcurrencyControl := none
  signedCC : Option SignedMessage := none
  insufficientEndorsements : Option Bool := none
  deriving DecidableEq

/-- The votes of one group, while it is undecided. -/
structure PendingPhase1 where
  txn : Transaction
  txnDigest : Digest
  replies : Box CCResult ProcessId Signature := {}
  validator : Phase1Validator := {}
  firstDecision : Bool := true
  decisionTimeout : Option CommitDecision := none

structure GroupDecision where
  decision : CommitDecision
  fast : Bool
  conflict : Option CommittedProof := none
  sigs : CCResult → List Signature

/-- How the handling of a reply ends. -/
inductive Outcome where
  | waits (p : PendingPhase1)
  | decides (dec : GroupDecision)
  | stops

section
variable (S : ShardEnv) (phase1DecisionTimeout : Nat)

namespace PendingPhase1

def decide (p : PendingPhase1) (decision : CommitDecision) (fast : Bool) : Outcome :=
  .decides { decision, fast, sigs := p.replies.ballots }

/-- A decision that may get better: it waits, unless there is no timer. -/
def tentative (p : PendingPhase1) (decision : CommitDecision) : Outcome :=
  if phase1DecisionTimeout = 0 ∧ p.firstDecision then p.decide decision false
  else if p.decisionTimeout.isSome then .waits p
  else .waits { p with decisionTimeout := some decision }

def act (r : Phase1Reply) (cc : ConcurrencyControl) (p : PendingPhase1) : Outcome :=
  match p.validator.state with
  | .fastCommit => if r.insufficientEndorsements.isSome then .stops else p.decide .commit true
  | .fastAbort =>
    .decides { decision := .abort, fast := true,
               conflict := some (cc.committedConflict.getD default),
               sigs := p.replies.ballots }
  | .fastAbstain => p.decide .abort true
  | .slowCommitFinal => p.decide .commit false
  | .slowAbortFinal => p.decide .abort false
  | .slowCommitTentative => p.tentative phase1DecisionTimeout .commit
  | .slowAbortTentative | .slowAbortTentative2 => p.tentative phase1DecisionTimeout .abort
  | .notEnough => .waits p

end PendingPhase1

def processP1R (r : Phase1Reply) (p : PendingPhase1) : Outcome :=
  match r.cc with
  | some ⟨.abort, conflict, d, g⟩ =>
    -- a conflict is evidence itself
    match p.validator.processMessage S.env p.txn p.txnDigest ⟨.abort, conflict, d, g⟩ with
    | none => .stops
    | some v => { p with validator := v }.act phase1DecisionTimeout r ⟨.abort, conflict, d, g⟩
  | _ =>
    match r.signedCC with
    | none => .waits p
    | some m =>
      if m.processId ∈ p.replies.seen then .waits p
      else
        match S.authenticate S.parseCC m with
        | none => .waits { p with replies := p.replies.see m.processId }
        | some cc =>
          match p.validator.processMessage S.env p.txn p.txnDigest cc with
          | none => .stops
          | some v =>
            { p with
              validator := v
              replies := p.replies.cast m.processId cc.ccr (signatureOf m) }.act
                phase1DecisionTimeout r cc

def decisionTimer (p : PendingPhase1) : Outcome :=
  match p.decisionTimeout with
  | none => .waits p
  | some decision => p.decide decision false

/-! ## What the signatures show -/

/-- The signature of a vote on the transaction, by a replica that passes as one of the group. -/
def GoodVote (d : Digest) (commit : Bool) (sig : Signature) : Prop :=
  S.env.config.isReplicaInGroup sig.processId S.group = true ∧
    S.env.verify sig.processId (.vote commit d S.group) sig.signature = true

structure PendingPhase1.Inv (txn : Transaction) (d : Digest) (p : PendingPhase1) : Prop where
  txn : p.txn = txn
  digest : p.txnDigest = d
  replies : p.replies.Holds (·.processId)
    fun k sig => ∀ commit, k = ccResultOf commit → GoodVote S d commit sig
  commits : (p.replies.ballots .commit).length = p.validator.commits
  abstains : (p.replies.ballots .abstain).length = p.validator.abstains
  sound : p.validator.Sound S.env
  timer : ∀ decision, p.decisionTimeout = some decision →
    p1QuorumSize S.env decision false ≤ (p.replies.ballots (votedResult decision)).length

/-- Good votes of different replicas, enough of them for the decision and not more than there are
replicas; a conflict stands for itself. -/
def Supports (d : Digest) (dec : GroupDecision) : Prop :=
  match dec.conflict with
  | some _ => dec.decision = .abort ∧ dec.fast = true
  | none =>
    ((dec.sigs (votedResult dec.decision)).map (·.processId)).Nodup ∧
    (∀ sig ∈ dec.sigs (votedResult dec.decision), GoodVote S d (dec.decision == .commit) sig) ∧
    p1QuorumSize S.env dec.decision dec.fast ≤ (dec.sigs (votedResult dec.decision)).length ∧
    (dec.decision = .commit →
      (dec.sigs (votedResult dec.decision)).length ≤ S.env.config.n)

def Outcome.Right (txn : Transaction) (d : Digest) : Outcome → Prop
  | .waits p => p.Inv S txn d
  | .decides dec => Supports S d dec
  | .stops => True

def AboutVote (d : Digest) (r : Phase1Reply) : Prop :=
  ∀ m cc, r.signedCC = some m → S.authenticate S.parseCC m = some cc →
    cc.ccr = .commit ∨ cc.ccr = .abstain → ∃ commit, m.data = S.data (.vote commit d S.group)

end

variable {S : ShardEnv} {txn : Transaction} {d : Digest} {p : PendingPhase1} {r : Phase1Reply}

theorem isReplicaInGroup_pos {c : Config} {id : ProcessId} {g : GroupId}
    (h : c.isReplicaInGroup id g = true) : 0 < c.n := by
  obtain ⟨i, hi, -⟩ := any_eq_true.1 h
  exact Nat.zero_lt_of_lt (mem_range.1 hi)

namespace PendingPhase1

theorem Inv.init : Inv S txn d { txn, txnDigest := d } where
  txn := rfl
  digest := rfl
  replies := Box.Holds.empty
  commits := rfl
  abstains := rfl
  sound := Phase1Validator.Sound.init
  timer _ h := by cases h

theorem Inv.goodVote (h : p.Inv S txn d) (decision : CommitDecision) :
    ∀ sig ∈ p.replies.ballots (votedResult decision),
      GoodVote S d (decision == .commit) sig := by
  intro sig hsig
  apply h.replies.good _ sig hsig
  cases decision <;> rfl

theorem Inv.commits_le (h : p.Inv S txn d) :
    (p.replies.ballots .commit).length ≤ S.env.config.n := by
  cases hsigs : p.replies.ballots .commit with
  | nil => exact Nat.zero_le _
  | cons sig sigs =>
    have hmem : sig ∈ p.replies.ballots .commit := by
      rw [hsigs]
      exact mem_cons_self
    have hpos := isReplicaInGroup_pos (h.goodVote .commit sig hmem).1
    rw [← hsigs, h.commits]
    exact h.sound.commits_le hpos

variable {decision : CommitDecision}

theorem Inv.decide (h : p.Inv S txn d) {fast : Bool}
    (henough : p1QuorumSize S.env decision fast ≤
      (p.replies.ballots (votedResult decision)).length) :
    (p.decide decision fast).Right S txn d := by
  refine ⟨h.replies.nodup _, h.goodVote decision, henough, fun hcommit => ?_⟩
  have hcommit : decision = .commit := hcommit
  subst hcommit
  exact h.commits_le

variable {timeout : Nat} {cc : ConcurrencyControl} {sig : Signature}

theorem Inv.tentative (h : p.Inv S txn d)
    (henough : p1QuorumSize S.env decision false ≤
      (p.replies.ballots (votedResult decision)).length) :
    (p.tentative timeout decision).Right S txn d := by
  unfold PendingPhase1.tentative
  split_ifs
  · exact h.decide henough
  · exact h
  · refine { h with timer := fun decision' hdec => ?_ }
    cases hdec
    exact henough

theorem Inv.act (h : p.Inv S txn d) :
    (p.act timeout r cc).Right S txn d := by
  have hcounts := h.sound.counts
  unfold Phase1Validator.Counts at hcounts
  unfold PendingPhase1.act
  cases hs : p.validator.state <;> simp only [hs] at hcounts ⊢
  case notEnough => exact h
  case fastCommit =>
    split_ifs
    · trivial
    · exact h.decide (le_of_eq (hcounts.symm.trans h.commits.symm))
  case fastAbort => exact ⟨rfl, rfl⟩
  case fastAbstain => exact h.decide (h.abstains ▸ hcounts)
  case slowCommitTentative => exact h.tentative (h.commits ▸ hcounts)
  case slowCommitFinal => exact h.decide (h.commits ▸ hcounts)
  case slowAbortTentative | slowAbortTentative2 => exact h.tentative (h.abstains ▸ hcounts)
  case slowAbortFinal => exact h.decide (h.abstains ▸ hcounts)

theorem Inv.decisionTimer (h : p.Inv S txn d) : (decisionTimer p).Right S txn d := by
  unfold Shard.decisionTimer
  split
  · exact h
  · rename_i decision htimer
    exact h.decide (h.timer decision htimer)

theorem Inv.conflict (h : p.Inv S txn d) {v : Phase1Validator} (hsound : v.Sound S.env)
    (hcommits : v.commits = p.validator.commits) (habstains : v.abstains = p.validator.abstains) :
    Inv S txn d { p with validator := v } :=
  { h with
    commits := h.commits.trans hcommits.symm
    abstains := h.abstains.trans habstains.symm
    sound := hsound }

theorem length_cast_ballots {b : Box CCResult ProcessId Signature} {id : ProcessId}
    {k j : CCResult} :
    ((b.cast id k sig).ballots j).length = (b.ballots j).length + if j = k then 1 else 0 := by
  split_ifs with hj
  · rw [hj, Box.cast_ballots_self, length_append]
    rfl
  · rw [Box.cast_ballots_of_ne _ _ _ hj]
    rfl

theorem Inv.cast (h : p.Inv S txn d) {v : Phase1Validator} {k : CCResult} (hsound : v.Sound S.env)
    (hnew : sig.processId ∉ p.replies.seen)
    (hgood : ∀ commit, k = ccResultOf commit → GoodVote S d commit sig)
    (hcommits : v.commits = p.validator.commits + if .commit = k then 1 else 0)
    (habstains : v.abstains = p.validator.abstains + if .abstain = k then 1 else 0) :
    Inv S txn d { p with validator := v, replies := p.replies.cast sig.processId k sig } where
  txn := h.txn
  digest := h.digest
  replies := h.replies.cast hnew hgood
  commits := by rw [length_cast_ballots, h.commits, hcommits]
  abstains := by rw [length_cast_ballots, h.abstains, habstains]
  sound := hsound
  timer decision hdec := by
    have := h.timer decision hdec
    rw [length_cast_ballots]
    omega

theorem goodVote_of_about {m : SignedMessage} (hr : AboutVote S d r) (hm : r.signedCC = some m)
    (hcc : S.authenticate S.parseCC m = some cc) (commit : Bool)
    (hvote : cc.ccr = ccResultOf commit) : GoodVote S d commit (signatureOf m) := by
  have hccr : cc.ccr = .commit ∨ cc.ccr = .abstain := by
    rw [hvote]
    cases commit
    · exact .inr rfl
    · exact .inl rfl
  obtain ⟨commit', hdata⟩ := hr m cc hm hcc hccr
  obtain ⟨heq, hver⟩ := ShardEnv.verify_of_authenticate hcc hdata (S.parse_vote ..)
  have hsame : commit' = commit := by
    rw [heq] at hvote
    cases commit <;> cases commit' <;> first | rfl | cases hvote
  subst hsame
  exact ⟨(ShardEnv.authenticate_eq_some.1 hcc).1, hver⟩

theorem Inv.processP1R (h : p.Inv S txn d) (hr : AboutVote S d r) :
    (processP1R S timeout r p).Right S txn d := by
  unfold Shard.processP1R
  split
  · -- an ABORT need not be signed
    split
    · trivial
    · rename_i v hv
      obtain ⟨hsound, ⟨-, -, hcommits, habstains⟩ | ⟨hccr, -⟩ | ⟨hccr, -⟩⟩ :=
        Phase1Validator.processMessage_spec h.sound hv
      · exact (h.conflict hsound hcommits habstains).act
      · cases hccr
      · cases hccr
  · split
    · exact h
    · rename_i m hm
      split_ifs with hseen
      · exact h
      · split
        · exact { h with replies := h.replies.see _ }
        · rename_i cc hcc
          split
          · trivial
          · rename_i v hv
            have hgood := goodVote_of_about hr hm hcc
            obtain ⟨hsound, hcount⟩ := Phase1Validator.processMessage_spec h.sound hv
            have hinv : Inv S txn d { p with
                validator := v, replies := p.replies.cast m.processId cc.ccr (signatureOf m) } := by
              apply h.cast hsound hseen hgood
              · rcases hcount with ⟨hccr, -, hc, -⟩ | ⟨hccr, hc, -⟩ | ⟨hccr, hc, -⟩ <;>
                  simp [hccr, hc]
              · rcases hcount with ⟨hccr, -, -, ha⟩ | ⟨hccr, -, ha⟩ | ⟨hccr, -, ha⟩ <;>
                  simp [hccr, ha]
            exact hinv.act

end PendingPhase1

end Sintr.Shard
