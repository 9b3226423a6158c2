import Sintr.Cert.Conflict
import Sintr.Lib.Countdown

/-!
# What validated replies show

* `p1_sound_iff`: Phase1 votes that `ValidateP1Replies` accepts show what a decision needs, a
  quorum of each involved group for COMMIT and of one involved group for ABORT, exactly if the
  groups and signers are the ones they are taken for (`VotesGenuine`).
* `p2_agree_iff`: Phase2 replies that `ValidateP2Replies` accepts show a quorum of the logging
  group, and the workers of `asyncValidateP2Replies` agree with it, exactly on the inputs
  `RepliesAgree`: the two validators make different checks, and the workers never say no.
-/

namespace Sintr

open Quorum List

variable (env : Env)

/-! ## Phase1 votes -/

/-- What votes should show: every involved group has a quorum for COMMIT, or one of them has one
for ABORT. -/
def VotesShow (decision : CommitDecision) (fast : Bool) (txn : Transaction) (d : Digest)
    (gs : GroupedSignatures) : Prop :=
  let contributes (g : GroupId) : Prop := ∃ sigs, (g, sigs) ∈ gs ∧
    SignedBy env (p1QuorumSize env decision fast) (.vote (decision == .commit) d g) g sigs
  match decision with
  | .commit => ∀ g ∈ txn.involvedGroups, contributes g
  | .abort => ∃ g ∈ txn.involvedGroups, contributes g

/-- The votes of a group pass: exactly a quorum of different replicas that pass as members, each
believed. -/
def GroupPasses (decision : CommitDecision) (fast : Bool) (d : Digest)
    (me : Option (ProcessId × CCResult)) (e : GroupId × List Signature) : Prop :=
  e.2.length = p1QuorumSize env decision fast ∧ (e.2.map (·.processId)).Nodup ∧
    ∀ s ∈ e.2, (p1Ballot env decision d me e.1 s).admitted = true ∧
      (p1Ballot env decision d me e.1 s).ok = true

/-- For COMMIT no involved group is missing, as far as 32 bits of its id go. -/
def GroupsPresent (decision : CommitDecision) (txn : Transaction) (gs : GroupedSignatures) : Prop :=
  decision = .commit → ∀ g ∈ txn.involvedGroups, ∃ e ∈ gs, e.1.toInt = g.toInt

/-- The signers are of the group, and the validating replica's own vote is signed. -/
def GenuineVotes (decision : CommitDecision) (d : Digest) (me : Option (ProcessId × CCResult))
    (e : GroupId × List Signature) : Prop :=
  ∀ s ∈ e.2, env.config.InGroup s.processId e.1 ∧
    ((p1Ballot env decision d me e.1 s).trusted = true →
      (p1Ballot env decision d me e.1 s).valid = true)

def VotesGenuine (decision : CommitDecision) (fast : Bool) (txn : Transaction) (d : Digest)
    (gs : GroupedSignatures) (me : Option (ProcessId × CCResult)) : Prop :=
  (∀ e ∈ gs, GroupPasses env decision fast d me e) → GroupsPresent decision txn gs →
    match decision with
    | .commit => ∀ g ∈ txn.involvedGroups, ∃ e ∈ gs, e.1 = g ∧ GenuineVotes env decision d me e
    | .abort => ∃ e ∈ gs, e.1 ∈ txn.involvedGroups ∧ GenuineVotes env decision d me e

variable {env}

variable {fast : Bool} {e : GroupId × List Signature}

theorem tally_p1Ballot {decision : CommitDecision} {d : Digest}
    {me : Option (ProcessId × CCResult)} :
    tally (e.2.map (p1Ballot env decision d me e.1)) [] 0 =
        some (p1QuorumSize env decision fast) ↔ GroupPasses env decision fast d me e := by
  rw [tally_eq_some, length_map, map_map, GroupPasses]
  have hvoter : (Ballot.voter ∘ p1Ballot env decision d me e.1) = (·.processId) := rfl
  rw [hvoter, forall_mem_map]
  constructor
  · rintro ⟨hall, hnd, hlen⟩
    exact ⟨hlen.symm, hnd, hall⟩
  · rintro ⟨hlen, hnd, hall⟩
    exact ⟨hall, hnd, hlen.symm⟩

theorem validateP1Replies_iff {decision : CommitDecision} {txn : Transaction} {d : Digest}
    {gs : GroupedSignatures} {me : Option (ProcessId × CCResult)} :
    validateP1Replies env decision fast txn d gs me = true ↔
      (∀ e ∈ gs, GroupPasses env decision fast d me e) ∧ GroupsPresent decision txn gs := by
  rw [validateP1Replies, Bool.and_eq_true, all_eq_true]
  refine and_congr ?_ ?_
  · simp only [beq_iff_eq, tally_p1Ballot]
  · cases decision with
    | commit =>
      have hne : (CommitDecision.commit == .abort) = false := rfl
      simp only [hne, Bool.false_or, all_eq_true, contains_iff_mem, mem_map,
        GroupsPresent, forall_const]
    | abort => simp [GroupsPresent]

theorem signedBy_iff_genuine {decision : CommitDecision} {d : Digest}
    {me : Option (ProcessId × CCResult)} (h : GroupPasses env decision fast d me e) :
    SignedBy env (p1QuorumSize env decision fast) (.vote (decision == .commit) d e.1) e.1 e.2 ↔
      GenuineVotes env decision d me e := by
  obtain ⟨hlen, hnd, hall⟩ := h
  constructor
  · rintro ⟨l, hsub, hl, -, hgood⟩ s hs
    rw [← hsub.eq_of_length (hl.trans hlen.symm)] at hs
    exact ⟨(hgood s hs).1, fun _ => (hgood s hs).2⟩
  · intro hgenuine
    refine ⟨e.2, List.Sublist.refl _, hlen, hnd, fun s hs => ⟨(hgenuine s hs).1, ?_⟩⟩
    have hok := (hall s hs).2
    rw [Ballot.ok, Bool.or_eq_true] at hok
    exact hok.elim (hgenuine s hs).2 id

theorem p1_sound_iff (env : Env) (decision : CommitDecision) (fast : Bool) (txn : Transaction)
    (d : Digest) (gs : GroupedSignatures) (me : Option (ProcessId × CCResult)) :
    (validateP1Replies env decision fast txn d gs me = true →
      VotesShow env decision fast txn d gs) ↔ VotesGenuine env decision fast txn d gs me := by
  rw [validateP1Replies_iff, and_imp]
  unfold VotesGenuine
  refine imp_congr_right fun hpass => imp_congr_right fun _ => ?_
  have hentry (g : GroupId) : (∃ sigs, (g, sigs) ∈ gs ∧ SignedBy env
        (p1QuorumSize env decision fast) (.vote (decision == .commit) d g) g sigs) ↔
      ∃ e ∈ gs, e.1 = g ∧ GenuineVotes env decision d me e := by
    constructor
    · rintro ⟨sigs, hmem, hsigned⟩
      exact ⟨_, hmem, rfl, (signedBy_iff_genuine (hpass _ hmem)).1 hsigned⟩
    · rintro ⟨e, hmem, rfl, hgenuine⟩
      exact ⟨e.2, hmem, (signedBy_iff_genuine (hpass e hmem)).2 hgenuine⟩
  cases decision with
  | commit =>
    simp only [VotesShow, hentry]
  | abort =>
    simp only [VotesShow, hentry]
    constructor
    · rintro ⟨g, hg, e, he, rfl, hgenuine⟩
      exact ⟨e, he, hg, hgenuine⟩
    · rintro ⟨e, he, hg, hgenuine⟩
      exact ⟨e.1, hg, e, he, rfl, hgenuine⟩

/-- ABORT passes without votes or with those of a group that is not involved; COMMIT with an
unsigned vote of the replica itself, or of a group with the same id modulo 2^32. -/
theorem p1_unsound :
    let env : Env := { Env.sample with
      config := { groups := 2, n := 1, f := 0, hosts := fun g _ => [UInt8.ofNat g] } }
    let txn : Transaction := { clientId := 1, clientSeqNum := 1, involvedGroups := [0] }
    (validateP1Replies env .abort false txn [] [] none = true ∧
      ¬ VotesShow env .abort false txn [] []) ∧
    (validateP1Replies env .abort false txn [] [(1, [⟨1, [1]⟩])] none = true ∧
      ¬ VotesShow env .abort false txn [] [(1, [⟨1, [1]⟩])]) ∧
    (validateP1Replies env .commit true txn [] [(0, [⟨0, []⟩])] (some (0, .commit)) = true ∧
      ¬ VotesShow env .commit true txn [] [(0, [⟨0, []⟩])]) ∧
    (validateP1Replies env .commit true txn [] [(2 ^ 32, [⟨0, [0]⟩])] none = true ∧
      ¬ VotesShow env .commit true txn [] [(2 ^ 32, [⟨0, [0]⟩])]) := by
  intro env txn
  refine ⟨⟨by decide +kernel, ?_⟩, ⟨by decide +kernel, ?_⟩, ⟨by decide +kernel, ?_⟩,
    ⟨by decide +kernel, ?_⟩⟩
  · rintro ⟨g, -, sigs, hmem, -⟩
    cases hmem
  · rintro ⟨g, hg, sigs, hmem, -⟩
    rw [List.mem_singleton.1 hg, List.mem_singleton, Prod.mk.injEq] at hmem
    exact absurd hmem.1 (by decide)
  · intro h
    obtain ⟨sigs, hmem, l, hsub, hlen, -, hall⟩ := h 0 List.mem_cons_self
    rw [List.mem_singleton, Prod.mk.injEq] at hmem
    rw [hmem.2] at hsub
    have hl : l = [⟨0, []⟩] := hsub.eq_of_length hlen
    exact absurd (hall ⟨0, []⟩ (hl ▸ List.mem_cons_self)).2 (by decide)
  · intro h
    obtain ⟨sigs, hmem, -⟩ := h 0 List.mem_cons_self
    rw [List.mem_singleton, Prod.mk.injEq] at hmem
    exact absurd hmem.1 (by decide)

/-! ## Phase2 replies -/

variable (env) in
/-- A quorum of the logging group has logged the decision, the replica's own logged decision
counting as a reply. -/
def RepliesShow (decision : CommitDecision) (view : UInt64) (txn : Transaction) (d : Digest)
    (gs : GroupedSignatures) (me : Option (ProcessId × CommitDecision)) : Prop :=
  ∃ lg, getLogGroup txn d = some lg ∧ ∃ e ∈ gs,
    HasQuorum env.config.quorumSize (fun b => env.config.InGroup b.voter lg ∧ b.ok = true)
      (e.2.map (p2Ballot env true decision view d lg me))

def ownReply (decision : CommitDecision) (me : Option (ProcessId × CommitDecision))
    (s : Signature) : Bool :=
  me.any fun m => m.1 == s.processId && m.2 == decision

variable (env) in
/-- Exactly a quorum of replies, of different replicas, each signed or known, and none in the name
of this replica with another decision. -/
def RepliesPass (decision : CommitDecision) (view : UInt64) (d : Digest) (lg : GroupId)
    (me : Option (ProcessId × CommitDecision)) (sigs : List Signature) : Prop :=
  sigs.length = env.config.quorumSize ∧ (sigs.map (·.processId)).Nodup ∧
    ∀ s ∈ sigs, (!me.any fun m => m.1 == s.processId && m.2 != decision) = true ∧
      (p2Ballot env true decision view d lg me s).ok = true

/-- The signer of a reply does not pass as a member, or was there before, and the replies known
before it are not enough. -/
def ReplyRefused (config : Config) (decision : CommitDecision) (lg : GroupId)
    (me : Option (ProcessId × CommitDecision)) (sigs : List Signature) : Prop :=
  ∃ pre s post, sigs = pre ++ s :: post ∧
    (config.isReplicaInGroup s.processId lg = false ∨ s.processId ∈ pre.map (·.processId)) ∧
    pre.countP (ownReply decision me) < config.quorumSize

/-- The replica's own reply and others are counted under different names. -/
def NamesDiffer (decision : CommitDecision) (lg : GroupId)
    (me : Option (ProcessId × CommitDecision)) (sigs : List Signature) : Prop :=
  lg.toInt ≠ lg ∧ sigs.any (ownReply decision me) = true ∧
    sigs.any (!ownReply decision me ·) = true

variable (env) in
/-- The replies are of one group. If they pass, it is the logging group and the signers are members;
if not, it is another one or a reply is refused. -/
def RepliesAgree (decision : CommitDecision) (view : UInt64) (txn : Transaction) (d : Digest)
    (gs : GroupedSignatures) (me : Option (ProcessId × CommitDecision)) : Prop :=
  ∀ lg g sigs, getLogGroup txn d = some lg → gs = [(g, sigs)] →
    (RepliesPass env decision view d lg me sigs → g = lg ∧
      (∀ s ∈ sigs, env.config.isReplicaInGroup s.processId lg = true ∧
        env.config.InGroup s.processId lg) ∧ ¬ NamesDiffer decision lg me sigs) ∧
    (¬ RepliesPass env decision view d lg me sigs → g ≠ lg ∨
      (¬ (env.config.f = 1 ∧ sigs.length ≠ 5) ∧ ReplyRefused env.config decision lg me sigs))

section
variable {decision : CommitDecision} {view : UInt64} {txn : Transaction} {d : Digest} {lg : GroupId}
  {me : Option (ProcessId × CommitDecision)} {sigs : List Signature} {schedule : List Nat}

theorem tally_p2Ballot :
    tally (sigs.map fun s => p2Ballot env (!me.any fun m => m.1 == s.processId && m.2 != decision)
        decision view d lg me s) [] 0 = some env.config.quorumSize ↔
      RepliesPass env decision view d lg me sigs := by
  rw [tally_eq_some, length_map, map_map, RepliesPass, forall_mem_map]
  constructor
  · rintro ⟨hall, hnd, hlen⟩
    exact ⟨hlen.symm, hnd, hall⟩
  · rintro ⟨hlen, hnd, hall⟩
    exact ⟨hall, hnd, hlen.symm⟩

def workerBallots (env : Env) (decision : CommitDecision) (view : UInt64) (d : Digest)
    (lg : GroupId) (me : Option (ProcessId × CommitDecision)) (sigs : List Signature) :
    List (Ballot GroupId ProcessId) :=
  sigs.map fun s =>
    p2Ballot env (env.config.isReplicaInGroup s.processId lg) decision view d lg me s

theorem workerBallots_group :
    ∀ b ∈ workerBallots env decision view d lg me sigs, b.group = lg := by
  rw [workerBallots, forall_mem_map]
  exact fun _ _ => rfl

theorem workerBallots_pairs :
    ((workerBallots env decision view d lg me sigs).map fun b => (b.group, b.voter)) =
      (sigs.map (·.processId)).map (lg, ·) := by
  rw [workerBallots, map_map, map_map]
  rfl

theorem quorumSize_pos (c : Config) : 0 < c.quorumSize := Nat.succ_pos _

theorem workerBallots_passed (hnd : (sigs.map (·.processId)).Nodup)
    (hin : ∀ s ∈ sigs, env.config.isReplicaInGroup s.processId lg = true) :
    Passed (workerBallots env decision view d lg me sigs) := by
  constructor
  · rw [workerBallots_pairs]
    exact hnd.map (Prod.mk_right_injective lg)
  · rw [workerBallots, forall_mem_map]
    exact hin

theorem verifyGroup_of_passes (hpass : RepliesPass env decision view d lg me sigs)
    (hin : ∀ s ∈ sigs, env.config.isReplicaInGroup s.processId lg = true)
    (hnames : ¬ NamesDiffer decision lg me sigs) (schedule : List Nat) :
    verifyGroup schedule lg env.config.quorumSize
      (workerBallots env decision view d lg me sigs) = .accept := by
  obtain ⟨hlen, hnd, hall⟩ := hpass
  unfold verifyGroup
  dsimp only
  rw [if_neg]
  · refine verifyAsync_of_exact schedule (workerBallots_passed hnd hin) ?_
      workerBallots_group ?_ (quorumSize_pos _)
    · rw [workerBallots, forall_mem_map]
      exact fun s hs => (hall s hs).2
    · rw [workerBallots, length_map, hlen]
  · rintro ⟨-, hany, hother, hid⟩
    rw [workerBallots, any_map] at hany hother
    exact hnames ⟨hid, hany, hother⟩

theorem quiet_workerBallots :
    Count.quiet { quorumSize := env.config.quorumSize, groupTotals := 1 }
        (trustedGroups (workerBallots env decision view d lg me sigs)) = true ↔
      sigs.countP (ownReply decision me) < env.config.quorumSize := by
  rw [trustedGroups_eq workerBallots_group, quiet_replicate (quorumSize_pos _), workerBallots,
    countP_map]
  rfl

theorem collect_reject_iff :
    collect .reject (workerBallots env decision view d lg me sigs) []
        { quorumSize := env.config.quorumSize, groupTotals := 1 } [] = .inl .reject ↔
      ReplyRefused env.config decision lg me sigs := by
  have hpair {pre : List Signature} {s : Signature} : (lg, s.processId) ∈
      ((workerBallots env decision view d lg me pre).map fun b => (b.group, b.voter)) ↔
        s.processId ∈ pre.map (·.processId) := by
    rw [workerBallots_pairs, mem_map_of_injective (Prod.mk_right_injective lg)]
  rw [collect_refuses_iff (by simp)]
  constructor
  · rintro ⟨pre, b, post, heq, hb, hquiet⟩
    rw [workerBallots, map_eq_append_iff] at heq
    obtain ⟨pre, rest, rfl, rfl, hrest⟩ := heq
    obtain ⟨s, post, rfl, rfl, rfl⟩ := map_eq_cons_iff.1 hrest
    refine ⟨pre, s, post, rfl, ?_, quiet_workerBallots.1 hquiet⟩
    exact hb.imp_right hpair.1
  · rintro ⟨pre, s, post, rfl, hs, hcount⟩
    refine ⟨workerBallots env decision view d lg me pre, _, _, by
      rw [workerBallots, map_append, map_cons]; rfl, ?_, quiet_workerBallots.2 hcount⟩
    exact hs.imp_right hpair.2

theorem verifyGroup_reject_iff {q : Nat} {bs : List (Ballot GroupId ProcessId)} :
    verifyGroup schedule lg q bs = .reject ↔
      collect .reject bs [] { quorumSize := q, groupTotals := 1 } [] = .inl .reject := by
  unfold verifyGroup verifyAsync
  dsimp only
  rw [collect_eq]
  split
  · split
    · refine iff_of_false ?_ (by simp)
      split
      · simp
      · cases jobs bs with
        | nil => simp
        | cons j js =>
          -- the workers never say no
          show ¬ Count.complete _ _ = _
          rw [Count.complete_eq]
          split <;> simp
    · simp
  · simp

variable {g : GroupId}

theorem repliesShow_iff (hlg : getLogGroup txn d = some lg)
    (hpass : RepliesPass env decision view d lg me sigs) :
    RepliesShow env decision view txn d [(g, sigs)] me ↔
      ∀ s ∈ sigs, env.config.InGroup s.processId lg := by
  obtain ⟨hlen, hnd, hall⟩ := hpass
  constructor
  · rintro ⟨lg', hlg', e, he, hquorum⟩
    rw [hlg, Option.some.injEq] at hlg'
    rw [mem_singleton] at he
    subst hlg' he
    obtain ⟨-, hgood⟩ := hquorum.all (by rw [length_map, hlen])
    rw [forall_mem_map] at hgood
    exact fun s hs => (hgood s hs).1
  · intro hin
    refine ⟨lg, hlg, _, mem_singleton_self _, _, List.Sublist.refl _, ?_, ?_, ?_⟩
    · rw [length_map, hlen]
    · rw [map_map]
      exact hnd
    · rw [forall_mem_map]
      exact fun s hs => ⟨hin s hs, (hall s hs).2⟩

theorem verifyGroup_accept_iff (hpass : RepliesPass env decision view d lg me sigs) :
    (∀ schedule, verifyGroup schedule lg env.config.quorumSize
        (workerBallots env decision view d lg me sigs) = .accept) ↔
      (∀ s ∈ sigs, env.config.isReplicaInGroup s.processId lg = true) ∧
        ¬ NamesDiffer decision lg me sigs := by
  constructor
  · intro hacc
    have hquorum := verifyGroup_hasQuorum workerBallots_group (hacc [])
    obtain ⟨-, hgood⟩ := hquorum.all (by rw [workerBallots, length_map, hpass.1])
    rw [workerBallots, forall_mem_map] at hgood
    have hin : ∀ s ∈ sigs, env.config.isReplicaInGroup s.processId lg = true :=
      fun s hs => (hgood s hs).1
    refine ⟨hin, ?_⟩
    rintro ⟨hid, hown, hother⟩
    -- the reply that is not the replica's own is handed out, and the assertion fails
    have hfew : sigs.countP (ownReply decision me) < env.config.quorumSize := by
      rw [← hpass.1]
      refine lt_of_le_of_ne countP_le_length fun heq => ?_
      obtain ⟨s, hs, hnot⟩ := any_eq_true.1 hother
      rw [countP_eq_length.1 heq s hs] at hnot
      cases hnot
    have hpassed : Passed (workerBallots env decision view d lg me sigs) :=
      workerBallots_passed hpass.2.1 hin
    have hc := collect_of_passed .reject hpassed
      { quorumSize := env.config.quorumSize, groupTotals := 1 }
    rw [if_pos (quiet_workerBallots.2 hfew)] at hc
    have hpanic := hacc []
    rw [verifyGroup, hc, if_pos] at hpanic
    · cases hpanic
    · rw [workerBallots, any_map, any_map]
      exact ⟨rfl, hown, hother, hid⟩
  · rintro ⟨hin, hnames⟩
    exact verifyGroup_of_passes hpass hin hnames

theorem validateP2Replies_accept_iff (hlg : getLogGroup txn d = some lg) :
    validateP2Replies env decision view txn d [(g, sigs)] me = .accept ↔
      RepliesPass env decision view d lg me sigs := by
  simp only [validateP2Replies, hlg]
  rw [← tally_p2Ballot]
  split
  · exact iff_of_true rfl (beq_iff_eq.1 ‹_›)
  · exact iff_of_false nofun fun heq => absurd (beq_iff_eq.2 heq) ‹_›

theorem validateP2Replies_of_not_pass (hlg : getLogGroup txn d = some lg)
    (h : ¬ RepliesPass env decision view d lg me sigs) :
    validateP2Replies env decision view txn d [(g, sigs)] me = .reject := by
  have hnot := (validateP2Replies_accept_iff (g := g) hlg).not.2 h
  simp only [validateP2Replies, hlg] at hnot ⊢
  split
  · rw [if_pos ‹_›] at hnot
    exact absurd rfl hnot
  · rfl

theorem asyncValidateP2Replies_eq (hlg : getLogGroup txn d = some lg) :
    asyncValidateP2Replies env schedule decision view txn d [(g, sigs)] me =
      if g ≠ lg then .reject
      else if env.config.f = 1 ∧ sigs.length ≠ 5 then .panic
      else verifyGroup schedule lg env.config.quorumSize
        (workerBallots env decision view d lg me sigs) := by
  simp only [asyncValidateP2Replies, hlg]
  by_cases hg : g = lg
  · subst hg
    rfl
  · rw [if_pos hg, if_pos hg]

theorem p2_agree_single (hlg : getLogGroup txn d = some lg) (g : GroupId) :
    ((validateP2Replies env decision view txn d [(g, sigs)] me = .accept →
        RepliesShow env decision view txn d [(g, sigs)] me) ∧
      ∀ schedule, asyncValidateP2Replies env schedule decision view txn d [(g, sigs)] me =
        validateP2Replies env decision view txn d [(g, sigs)] me) ↔
      (RepliesPass env decision view d lg me sigs → g = lg ∧
        (∀ s ∈ sigs, env.config.isReplicaInGroup s.processId lg = true ∧
          env.config.InGroup s.processId lg) ∧ ¬ NamesDiffer decision lg me sigs) ∧
      (¬ RepliesPass env decision view d lg me sigs → g ≠ lg ∨
        (¬ (env.config.f = 1 ∧ sigs.length ≠ 5) ∧
          ReplyRefused env.config decision lg me sigs)) := by
  by_cases hpass : RepliesPass env decision view d lg me sigs
  · -- the loop accepts
    have hfive : ¬ (env.config.f = 1 ∧ sigs.length ≠ 5) := by
      rintro ⟨hf, hlen⟩
      rw [hpass.1, Config.quorumSize, hf] at hlen
      exact hlen rfl
    simp only [(validateP2Replies_accept_iff hlg).2 hpass, hpass, not_true_eq_false,
      forall_const, false_imp_iff, and_true, repliesShow_iff hlg hpass,
      asyncValidateP2Replies_eq hlg]
    by_cases hg : g = lg
    · simp only [hg, ne_eq, not_true_eq_false, if_false, hfive, verifyGroup_accept_iff hpass,
        true_and, forall₂_and]
      tauto
    · simp [hg]
  · -- the loop rejects
    simp only [validateP2Replies_of_not_pass hlg hpass, hpass, false_imp_iff, true_and,
      not_false_eq_true, forall_const, reduceCtorEq, asyncValidateP2Replies_eq hlg]
    by_cases hg : g = lg
    · by_cases hfive : env.config.f = 1 ∧ sigs.length ≠ 5
      · simp [hg, hfive]
      · simp [hg, hfive, verifyGroup_reject_iff, collect_reject_iff]
    · simp [hg]

theorem p2_agree_iff (env : Env) (decision : CommitDecision) (view : UInt64) (txn : Transaction)
    (d : Digest) (gs : GroupedSignatures) (me : Option (ProcessId × CommitDecision)) :
    ((validateP2Replies env decision view txn d gs me = .accept →
        RepliesShow env decision view txn d gs me) ∧
      ∀ schedule, asyncValidateP2Replies env schedule decision view txn d gs me =
        validateP2Replies env decision view txn d gs me) ↔
      RepliesAgree env decision view txn d gs me := by
  cases hlg : getLogGroup txn d with
  | none =>
    refine iff_of_true ?_ ?_
    · simp [validateP2Replies, asyncValidateP2Replies, hlg]
    · intro lg g sigs hlg'
      rw [hlg] at hlg'
      cases hlg'
  | some lg =>
    by_cases hone : ∃ g sigs, gs = [(g, sigs)]
    · obtain ⟨g, sigs, rfl⟩ := hone
      rw [p2_agree_single hlg]
      constructor
      · intro h lg' g' sigs' hlg' heq
        rw [hlg, Option.some.injEq] at hlg'
        obtain ⟨rfl, rfl⟩ := Prod.mk.inj (List.cons.inj heq).1
        rwa [← hlg']
      · exact fun h => h lg g sigs hlg rfl
    · have hother : validateP2Replies env decision view txn d gs me = .reject ∧
          ∀ schedule, asyncValidateP2Replies env schedule decision view txn d gs me = .reject := by
        simp only [validateP2Replies, asyncValidateP2Replies, hlg]
        match gs, hone with
        | [], _ => exact ⟨rfl, fun _ => rfl⟩
        | [(g, sigs)], hone => exact absurd ⟨g, sigs, rfl⟩ hone
        | _ :: _ :: _, _ => exact ⟨rfl, fun _ => rfl⟩
      refine iff_of_true ?_ fun lg g sigs _ heq => absurd ⟨g, sigs, heq⟩ hone
      simp [hother]

end

/-- The loop accepts a reply of a replica of another group, and one that is filed under another
group. An invalid signature stops the process under the workers. -/
theorem p2_disagree :
    let env : Env := { Env.sample with
      config := { groups := 2, n := 1, f := 0, hosts := fun g _ => [UInt8.ofNat g] } }
    let txn : Transaction := { clientId := 1, clientSeqNum := 1, involvedGroups := [0] }
    (validateP2Replies env .commit 0 txn [] [(0, [⟨1, [1]⟩])] none = .accept ∧
      ¬ RepliesShow env .commit 0 txn [] [(0, [⟨1, [1]⟩])] none) ∧
    (validateP2Replies env .commit 0 txn [] [(7, [⟨0, [0]⟩])] none = .accept ∧
      asyncValidateP2Replies env [] .commit 0 txn [] [(7, [⟨0, [0]⟩])] none = .reject) ∧
    (validateP2Replies env .commit 0 txn [] [(0, [⟨0, [9]⟩])] none = .reject ∧
      asyncValidateP2Replies env [] .commit 0 txn [] [(0, [⟨0, [9]⟩])] none = .panic) := by
  intro env txn
  refine ⟨⟨by decide +kernel, ?_⟩, by decide +kernel, by decide +kernel⟩
  have hlg : getLogGroup txn [] = some 0 := rfl
  have hpass : RepliesPass env .commit 0 [] 0 none [⟨1, [1]⟩] :=
    (validateP2Replies_accept_iff (g := 0) hlg).1 (by decide +kernel)
  rw [repliesShow_iff hlg hpass]
  intro hin
  exact absurd (hin _ List.mem_cons_self) (by decide)

end Sintr
