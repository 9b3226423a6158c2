import Sintr.Data.Order
import Sintr.Writeback.Decisions

/-!
# Commit proofs that others accept

A replica stores the certificate of every transaction it commits and passes it on. It has validated
it with an exemption for its own vote, and perhaps by worker threads that only count; whoever gets
it validates every signature on the main thread's terms, and over the digest of the transaction that
comes with it, which need not be the one that was signed (`Sent`).

* `validateP1Replies_transfer`, `asyncValidateP1Replies_transfer`, and the same for Phase2 replies:
  what a certificate needs for both to agree.
-/

namespace Sintr.Writeback

open Quorum List Option Function

variable (env : Env)

/-! ## Phase1 votes -/

/-- The replica's own votes, which it does not verify, are valid. -/
def OwnVotesValid (d : Digest) (gs : GroupedSignatures) (me : Option (ProcessId × CCResult)) :
    Prop :=
  ∀ e ∈ gs, ∀ s ∈ e.2, (p1Ballot env .commit d me e.1 s).trusted = true →
    (p1Ballot env .commit d me e.1 s).valid = true

structure ExactVotes (txn : Transaction) (gs : GroupedSignatures) : Prop where
  groups : ∀ g, g ∈ gs.map (·.1) ↔ g ∈ txn.involvedGroups
  votes : ∀ e ∈ gs, e.2.length = env.config.n

variable {env} {d : Digest} {txn : Transaction} {gs : GroupedSignatures} {schedule : List Nat}

variable {me : Option (ProcessId × CCResult)} {sigs : List Signature} {q : Nat}

theorem tally_transfer {g : GroupId} (hlen : sigs.length = q)
    (hnd : (sigs.map (·.processId)).Nodup)
    (hok : ∀ s ∈ sigs, (p1Ballot env .commit d me g s).admitted = true ∧
      (p1Ballot env .commit d me g s).ok = true)
    (hown : ∀ s ∈ sigs, (p1Ballot env .commit d me g s).trusted = true →
      (p1Ballot env .commit d me g s).valid = true) :
    tally (sigs.map (p1Ballot env .commit d none g)) [] 0 = some q := by
  refine tally_eq_some.2 ⟨?_, by simpa [comp_def, p1Ballot] using hnd, by simp [hlen]⟩
  rintro b hb
  obtain ⟨s, hs, rfl⟩ := mem_map.1 hb
  obtain ⟨hadm, hbel⟩ := hok s hs
  have hvalid : (p1Ballot env .commit d me g s).valid = true := by
    rcases Bool.or_eq_true_iff.1 hbel with ht | hv
    · exact hown s hs ht
    · exact hv
  have hin : env.config.isReplicaInGroup s.processId g = true := (Bool.and_eq_true_iff.1 hadm).1
  exact ⟨by simp [p1Ballot, hin], Bool.or_eq_true_iff.2 (.inr hvalid)⟩

theorem validateP1Replies_transfer (h : validateP1Replies env .commit true txn d gs me = true)
    (hown : OwnVotesValid env d gs me) :
    validateP1Replies env .commit true txn d gs none = true := by
  simp only [validateP1Replies, Bool.and_eq_true, List.all_eq_true, beq_iff_eq] at h ⊢
  refine ⟨fun e he => ?_, h.2⟩
  obtain ⟨hall, hnd, hlen⟩ := tally_eq_some.1 (h.1 e he)
  refine tally_transfer (by simpa using hlen.symm)
    (by simpa [comp_def, p1Ballot] using hnd) (fun s hs => ?_) (hown e he)
  exact hall _ (mem_map_of_mem hs)

theorem length_p1Ballots (hvotes : ∀ e ∈ gs, e.2.length = q) :
    (p1Ballots env .commit d me gs).length = gs.length * q := by
  unfold p1Ballots
  induction gs with
  | nil => simp
  | cons e gs ih =>
    rw [flatMap_cons, length_append, length_map, hvotes e mem_cons_self,
      ih fun e' he' => hvotes e' (mem_cons_of_mem _ he'), length_cons, Nat.add_mul,
      Nat.one_mul, Nat.add_comm]

theorem verified_all {p : List (Ballot GroupId ProcessId)}
    (hw : (gs.map (·.1)).Nodup) (hex : ExactVotes env txn gs)
    (hp : p <+: p1Ballots env .commit d me gs)
    (hcomplete : Complete env.config.n txn.involvedGroups.length
      ((p.filter (·.ok)).map (·.key GroupId.toInt))) :
    p = p1Ballots env .commit d me gs ∧ ∀ b ∈ p, b.ok = true := by
  have hgroups : gs.length ≤ txn.involvedGroups.length := by
    rw [← length_map (f := (·.1))]
    exact (hw.subperm fun g hg => (hex.groups g).1 hg).length_le
  have hneed := hcomplete.mul_le
  rw [length_map] at hneed
  have hhave : (p1Ballots env .commit d me gs).length = _ := length_p1Ballots hex.votes
  have hmul := Nat.mul_le_mul_right env.config.n hgroups
  have hfilter := length_filter_le (·.ok) p
  have hlen := hp.length_le
  refine ⟨hp.eq_of_length (by omega), ?_⟩
  have hall : (p.filter (·.ok)).length = p.length := by omega
  exact length_filter_eq_length_iff.1 hall

theorem asyncValidateP1Replies_transfer
    (h : asyncValidateP1Replies env schedule .commit true txn d gs me = .accept)
    (hw : (gs.map (·.1)).Nodup) (hown : OwnVotesValid env d gs me) (hex : ExactVotes env txn gs) :
    validateP1Replies env .commit true txn d gs none = true := by
  obtain ⟨p, hp, hpass, hcomplete⟩ := verifyAsync_accept (by simp) h
  obtain ⟨rfl, hok⟩ := verified_all hw hex hp hcomplete
  simp only [validateP1Replies, Bool.and_eq_true, List.all_eq_true, beq_iff_eq, Bool.or_eq_true,
    contains_iff_mem]
  refine ⟨fun e he => ?_, .inr fun g hg => ?_⟩
  · have hsub : (e.2.map (p1Ballot env .commit d me e.1)).Sublist
        (p1Ballots env .commit d me gs) := by
      rw [p1Ballots, flatMap_def]
      exact sublist_flatten_of_mem (mem_map_of_mem he)
    have hvoters : ((e.2.map (p1Ballot env .commit d me e.1)).map
        fun b => (b.group, b.voter)).Nodup := hpass.1.sublist (hsub.map _)
    refine tally_transfer (hex.votes e he) ?_ (fun s hs => ?_) (hown e he)
    · rw [List.map_map] at hvoters
      have hpairs : (e.2.map fun s => (e.1, s.processId)).Nodup := hvoters
      rw [← comp_def (fun i => (e.1, i)), ← List.map_map] at hpairs
      exact hpairs.of_map _
    · have hmem := hsub.subset (mem_map_of_mem hs)
      exact ⟨hpass.2 _ hmem, hok _ hmem⟩
  · obtain ⟨e, he, rfl⟩ := mem_map.1 ((hex.groups g).2 hg)
    exact mem_map_of_mem he

/-! ## Phase2 replies -/

variable (env) in
def OwnReplyValid (view : UInt64) (txn : Transaction) (d : Digest) (gs : GroupedSignatures)
    (me : Option (ProcessId × CommitDecision)) : Prop :=
  ∀ lg ∈ getLogGroup txn d, ∀ e ∈ gs, ∀ s ∈ e.2,
    (p2Ballot env true .commit view d lg me s).trusted = true →
      (p2Ballot env true .commit view d lg me s).valid = true

variable (env) in
/-- There are no more replies than a quorum; with one faulty replica that is checked. -/
def ExactReplies (gs : GroupedSignatures) : Prop :=
  env.config.f = 1 ∨ ∀ e ∈ gs, e.2.length = env.config.quorumSize

variable {view : UInt64}

theorem tally_p2_transfer {lg : GroupId}
    {me : Option (ProcessId × CommitDecision)} {admitted : Signature → Bool}
    (hlen : sigs.length = q) (hnd : (sigs.map (·.processId)).Nodup)
    (hok : ∀ s ∈ sigs, (p2Ballot env (admitted s) .commit view d lg me s).ok = true)
    (hown : ∀ s ∈ sigs, (p2Ballot env true .commit view d lg me s).trusted = true →
      (p2Ballot env true .commit view d lg me s).valid = true) :
    tally (sigs.map fun s => p2Ballot env true .commit view d lg none s) [] 0 = some q := by
  refine tally_eq_some.2 ⟨?_, by simpa [comp_def, p2Ballot] using hnd, by simp [hlen]⟩
  rintro b hb
  obtain ⟨s, hs, rfl⟩ := mem_map.1 hb
  refine ⟨rfl, Bool.or_eq_true_iff.2 (.inr ?_)⟩
  rcases Bool.or_eq_true_iff.1 (hok s hs) with ht | hv
  · exact hown s hs ht
  · exact hv

theorem validateP2Replies_transfer {me : Option (ProcessId × CommitDecision)}
    (h : validateP2Replies env .commit view txn d gs me = .accept)
    (hown : OwnReplyValid env view txn d gs me) :
    validateP2Replies env .commit view txn d gs none = .accept := by
  unfold validateP2Replies at h ⊢
  split at h
  · cases h
  · rename_i lg g sigs hlg
    split at h
    · rename_i htally
      obtain ⟨hall, hnd, hlen⟩ := tally_eq_some.1 (beq_iff_eq.1 htally)
      have hnone := tally_p2_transfer (by simpa using hlen.symm)
        (by simpa [comp_def, p2Ballot] using hnd)
        (fun s hs => (hall _ (mem_map_of_mem hs)).2)
        (hown lg hlg (g, sigs) mem_cons_self)
      simp [hnone]
    · cases h
  · cases h

theorem asyncValidateP2Replies_transfer {me : Option (ProcessId × CommitDecision)}
    (h : asyncValidateP2Replies env schedule .commit view txn d gs me = .accept)
    (hown : OwnReplyValid env view txn d gs me) (hex : ExactReplies env gs) :
    validateP2Replies env .commit view txn d gs none = .accept := by
  unfold asyncValidateP2Replies at h
  unfold validateP2Replies
  split at h
  · cases h
  · rename_i lg g sigs hlg
    split at h
    · cases h
    · split at h
      · cases h
      · rename_i hg hfive
        have hlen : sigs.length = env.config.quorumSize := by
          rcases hex with hf | hex
          · rw [Config.quorumSize, hf]
            exact Decidable.byContradiction fun hne => hfive ⟨hf, hne⟩
          · exact hex (g, sigs) mem_cons_self
        have hgroup : ∀ b ∈ sigs.map fun s => p2Ballot env
            (env.config.isReplicaInGroup s.processId g) .commit view d lg me s, b.group = lg := by
          intro b hb
          obtain ⟨s, -, rfl⟩ := mem_map.1 hb
          rfl
        obtain ⟨hvoters, hall⟩ := (verifyGroup_hasQuorum hgroup h).all (by simpa using hlen)
        have hnone := tally_p2_transfer hlen
          (by simpa [comp_def, p2Ballot] using hvoters)
          (fun s hs => (hall _ (mem_map_of_mem hs)).2)
          (hown lg hlg (g, sigs) mem_cons_self)
        simp [hnone]
  · cases h

/-! ## Stored proofs -/

variable (env) in
/-- Others get `received` with the proof of `txn`: with cached read sets the replica may have taken
predicates out of the transaction that it keeps, and every copy orders its maps anew. -/
inductive Sent (txn : Transaction) : Transaction → Prop
  | same {received : Transaction} (h : Reordered txn received) : Sent txn received
  | taken {received : Transaction} (k : Nat) (hcache : env.params.cacheReadSet = true)
      (h : Reordered (txn.takePredicates env.groupIdx k) received) : Sent txn received

variable (env) in
/-- Nothing that the digest covers is taken out of the transaction or depends on the order of a map.
-/
structure SameDigest (txn : Transaction) : Prop where
  keys : MapKeys txn
  whole : env.Whole txn
  order : env.params.hashDigest = false ∨ ∀ q ∈ txn.querySet, q.groupMeta.length ≤ 1

theorem SameDigest.sent {received : Transaction} (h : SameDigest env txn)
    (hsent : Sent env txn received) :
    env.digest received = env.digest txn ∧ received.involvedGroups = txn.involvedGroups ∧
      received.isGenesis = txn.isGenesis := by
  cases hsent with
  | same hr =>
    refine ⟨hr.digest h.keys env.H _ _ _ h.order, ?_⟩
    obtain ⟨-, -⟩ := hr
    exact ⟨rfl, rfl⟩
  | taken k hcache hr =>
    have horder : env.params.hashDigest = false ∨
        ∀ q ∈ (txn.takePredicates env.groupIdx k).querySet, q.groupMeta.length ≤ 1 := by
      refine h.order.imp_right fun hone q hq => ?_
      obtain hq | hq := mem_append.1 hq
      · obtain ⟨q', hq', rfl⟩ := mem_map.1 hq
        exact (length_map _).trans_le (hone q' (mem_of_mem_take hq'))
      · exact hone q (mem_of_mem_drop hq)
    refine ⟨(hr.digest h.keys.takePredicates env.H _ _ _ horder).trans
      (env.digest_takePredicates h.whole hcache env.groupIdx k).1, ?_⟩
    obtain ⟨-, -⟩ := hr
    exact ⟨rfl, rfl⟩

variable (env) in
/-- A certificate on which the replica and those who get it from the replica cannot differ. -/
def CertMeets (c : Check) : Prop :=
  SameDigest env c.txn ∧
  match c.evidence with
  | .p1 gs me => (gs.map (·.1)).Nodup ∧ OwnVotesValid env c.digest gs me ∧
      (env.params.multiThreading = true → ExactVotes env c.txn gs)
  | .p2 gs view me => OwnReplyValid env view c.txn c.digest gs me ∧
      (env.params.multiThreading = true → ExactReplies env gs)
  | .conflict _ => True
  -- A proof from another replica: the exemption does not apply, but workers validate it.
  | .commitProof proof =>
    match proof.sigs with
    | some (.p1 gs) => (gs.map (·.1)).Nodup ∧ ExactVotes env c.txn gs
    | some (.p2 gs) => ExactReplies env gs
    | none => True

theorem check_transfer {c : Check} {proof : CommittedProof} (hacc : c.verdict env = .accept)
    (hmeets : CertMeets env c) (hdec : c.decision = .commit) (hd : env.digest c.txn = c.digest)
    (hp : c.proof = some proof) (htxn : proof.txn = c.txn) (hg : proof.txn.isGenesis = false) :
    validateCommittedProof env proof (env.digest proof.txn) = .accept := by
  obtain ⟨decision, txn, digest, evidence, schedule⟩ := c
  obtain rfl : decision = .commit := hdec
  obtain rfl : env.digest txn = digest := hd
  unfold validateCommittedProof
  unfold Check.verdict at hacc
  rw [htxn] at hg ⊢
  rw [if_neg (by simpa using hg)]
  cases evidence with
  | p1 gs me =>
    obtain rfl : _ = proof := some.inj hp
    obtain ⟨-, hw, hown, hex⟩ := hmeets
    dsimp only at hacc
    have hpass : validateP1Replies env .commit true txn (env.digest txn) gs none = true := by
      by_cases hmt : env.params.multiThreading = true
      · rw [if_pos hmt] at hacc
        exact asyncValidateP1Replies_transfer hacc hw hown (hex hmt)
      · rw [if_neg hmt] at hacc
        refine validateP1Replies_transfer ?_ hown
        simpa using hacc
    simp [hpass]
  | p2 gs view me =>
    obtain rfl : _ = proof := some.inj hp
    obtain ⟨-, hown, hex⟩ := hmeets
    dsimp only at hacc
    by_cases hmt : env.params.multiThreading = true
    · rw [if_pos hmt] at hacc
      exact asyncValidateP2Replies_transfer hacc hown (hex hmt)
    · rw [if_neg hmt] at hacc
      exact validateP2Replies_transfer hacc hown
  | conflict p => cases hp
  | commitProof p =>
    obtain rfl : p = proof := some.inj hp
    obtain rfl : p.txn = txn := htxn
    simp only [asyncValidateCommittedProof, hg, Bool.false_eq_true, if_false] at hacc
    replace hmeets := hmeets.2
    dsimp only at hmeets
    cases hs : p.sigs with
    | none => rw [hs] at hacc; cases hacc
    | some sigs =>
      cases sigs with
      | p1 gs =>
        simp only [hs] at hacc hmeets
        have hpass := asyncValidateP1Replies_transfer hacc hmeets.1
          (fun _ _ _ _ ht => by cases ht) hmeets.2
        simp [hpass]
      | p2 gs =>
        simp only [hs] at hacc hmeets
        exact asyncValidateP2Replies_transfer hacc (fun _ _ _ _ _ _ ht => by cases ht) hmeets

variable (env) in
structure Loaded (s : State) : Prop extends Idle env s where
  genesis : ∀ d proof, s.committed d = some (some proof) → proof.txn.isGenesis = true

theorem validateCommittedProof_sent {proof : CommittedProof} {received : Transaction}
    (h : SameDigest env proof.txn) (hsent : Sent env proof.txn received)
    (hg : proof.txn.isGenesis = false)
    (hacc : validateCommittedProof env proof (env.digest proof.txn) = .accept) :
    validateCommittedProof env { proof with txn := received } (env.digest received) = .accept := by
  obtain ⟨hdigest, hgroups, hgenesis⟩ := h.sent hsent
  have hp1 (gs : GroupedSignatures) :
      validateP1Replies env .commit true received (env.digest proof.txn) gs none =
        validateP1Replies env .commit true proof.txn (env.digest proof.txn) gs none := by
    simp only [validateP1Replies, hgroups]
  have hp2 (gs : GroupedSignatures) (view : UInt64) :
      validateP2Replies env .commit view received (env.digest proof.txn) gs none =
        validateP2Replies env .commit view proof.txn (env.digest proof.txn) gs none := by
    have hlog : getLogGroup received (env.digest proof.txn) =
        getLogGroup proof.txn (env.digest proof.txn) := by simp only [getLogGroup, hgroups]
    unfold validateP2Replies
    rw [hlog]
  rw [hdigest]
  unfold validateCommittedProof at hacc ⊢
  rw [if_neg (by simpa using hg)] at hacc
  rw [if_neg (by simpa [hgenesis] using hg)]
  simpa only [hp1, hp2] using hacc

/-- In every run in which only certificates like that are accepted, the proof of every committed
transaction is accepted by every other process, as it gets it. -/
theorem proofs_transfer (hv : env.params.validateProofs = true)
    (hs : env.params.signedMessages = true) {s : State} (h : Loaded env s) {es : List Event}
    (hmeets : ∀ c, .checked c .accept ∈ ((machine env).run s es).log → c.decision = .commit →
      CertMeets env c)
    {proof : CommittedProof} (hc : ((machine env).run s es).committed d = some (some proof))
    (hg : proof.txn.isGenesis = false) {received : Transaction}
    (hsent : Sent env proof.txn received) (groupIdx : GroupId) (idx : Nat) :
    validateCommittedProof { env with groupIdx, idx } { proof with txn := received }
      (env.digest received) = .accept := by
  have hinv : Inv env False s ((machine env).run s es) :=
    run_inv hv hs h.toIdle ((Machine.along_of_forall fun _ _ => trivial).mono
      fun _ _ (_ : True) hlive => hlive.elim)
  rcases hinv.committed d (some proof) hc with hold | hmem
  · rw [h.genesis d proof hold] at hg
    cases hg
  · obtain ⟨before, after, hlog⟩ := List.append_of_mem hmem
    obtain ⟨c, hvouch, hp⟩ := hinv.log before _ after hlog
    have hcheck : .checked c .accept ∈ ((machine env).run s es).log :=
      hlog ▸ List.mem_append_left _ hvouch.mem
    obtain ⟨b', a', hlog'⟩ := List.append_of_mem hcheck
    have hacc : .accept = c.verdict env := hinv.log b' _ a' hlog'
    have hcert := hmeets c hcheck hvouch.decision
    -- The validator does not depend on the process that runs it.
    change validateCommittedProof env { proof with txn := received } (env.digest received) =
      .accept
    refine validateCommittedProof_sent (hvouch.proof proof hp ▸ hcert.1) hsent hg ?_
    exact check_transfer hacc.symm hcert hvouch.decision hvouch.txn hp (hvouch.proof proof hp) hg

/-! ## A proof that nobody else accepts -/

def sixVotesWith (own : Bytes) : GroupedSignatures :=
  [(0, [⟨0, own⟩, ⟨1, [1]⟩, ⟨2, [2]⟩, ⟨3, [3]⟩, ⟨4, [4]⟩, ⟨5, [5]⟩])]

def votedAndCommitted (own : Bytes) : List Event :=
  [.vote (Env.sample.digest write) .commit, .writeback
    { decision := .commit, txn := some write, proof := some (.p1Sigs (sixVotesWith own)) } []]

theorem loaded_initial : Loaded env {} where
  toIdle := idle_initial
  genesis := fun _ _ h => by cases h

/-- The replica believes a vote in its own name with a signature that is not its own, and stores the
certificate. -/
theorem proof_not_transferable :
    ((machine .sample).run {} (votedAndCommitted [9])).committed (Env.sample.digest write) =
        some (some { txn := write, sigs := some (.p1 (sixVotesWith [9])) }) ∧
      write.isGenesis = false ∧
      validateCommittedProof .sample { txn := write, sigs := some (.p1 (sixVotesWith [9])) }
        (Env.sample.digest write) = .reject := by
  decide +kernel

theorem proofs_transfer_voted :
    validateCommittedProof { Env.sample with groupIdx := 0, idx := 3 }
      { txn := write, sigs := some (.p1 (sixVotesWith [0])) } (Env.sample.digest write) =
        .accept := by
  have hlog : ((machine .sample).run {} (votedAndCommitted [0])).log =
      [.checked ⟨.commit, write, Env.sample.digest write,
          .p1 (sixVotesWith [0]) (some (0, .commit)), []⟩ .accept,
        .commit (Env.sample.digest write)
          (some { txn := write, sigs := some (.p1 (sixVotesWith [0])) }),
        .commitToStore (Env.sample.digest write)] := by decide +kernel
  have hmeets : ∀ c, .checked c .accept ∈ ((machine .sample).run {} (votedAndCommitted [0])).log →
      c.decision = .commit → CertMeets .sample c := by
    intro c hc _
    rw [hlog] at hc
    simp only [List.mem_cons, Entry.checked.injEq, and_true, List.not_mem_nil, or_false,
      reduceCtorEq] at hc
    subst hc
    refine ⟨⟨⟨by decide, by decide⟩, by decide, .inr (by decide)⟩, by decide, ?_,
      fun h => by cases h⟩
    unfold OwnVotesValid
    decide
  have hstored : ((machine .sample).run {} (votedAndCommitted [0])).committed
      (Env.sample.digest write) =
        some (some { txn := write, sigs := some (.p1 (sixVotesWith [0])) }) := by decide +kernel
  exact proofs_transfer (by rfl) (by rfl) loaded_initial hmeets hstored (by decide)
    (.same (.mk (sameQueries _) (.refl _))) 0 3

end Sintr.Writeback
