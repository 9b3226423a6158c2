import Sintr.Cert.Proof

/-!
# When a conflict proof proves a conflict

One vote is enough to abort a transaction `T` if it comes with the commit proof of a transaction
that conflicts with `T`. For that to be safe the proof has to be a certificate, and the two
transactions have to conflict in the order of their timestamps: one overwrites what the other one
has read.

`TransactionsConflict` compares keys only. What it finds are the places at which there may be a
conflict (`seen`); whether there is one is a matter of the versions read there, which it ignores,
and of places at which it does not look (`unseen`).

* `commitCertificate_iff`: a proof that passes validation is a certificate if and only if its
  signers are of the groups they sign for.
* `transactionsConflict_iff`, `mvtsoConflict_iff`: the test of the keys and the order of timestamps,
  in terms of the same overlaps.
* `conflict_sound_iff`: for which proofs and transactions `ValidateCommittedConflict` accepts
  nothing else.
-/

namespace Sintr

open Quorum List

variable (env : Env)

/-! ## Certificates -/

/-- `q` different replicas of group `g` have signed `m`. -/
def SignedBy (q : Nat) (m : Signed) (g : GroupId) (sigs : List Signature) : Prop :=
  HasVoters (·.processId) q (fun s => env.config.InGroup s.processId g ∧
    env.verify s.processId m s.signature = true) sigs

/-- All replicas of all groups of the transaction have voted for it, or a quorum of its logging
group has logged COMMIT. -/
def CommitCertificate (proof : CommittedProof) : Prop :=
  let d := env.digest proof.txn
  match proof.sigs with
  | some (.p1 gs) => ∀ g ∈ proof.txn.involvedGroups, ∃ sigs, (g, sigs) ∈ gs ∧
      SignedBy env env.config.n (.vote true d g) g sigs
  | some (.p2 gs) => ∃ lg, getLogGroup proof.txn d = some lg ∧ ∃ e ∈ gs,
      SignedBy env env.config.quorumSize
        (.p2Decision .commit d (some lg) (some (proof.p2View.getD 0))) lg e.2
  | none => False

def SignaturesPass (proof : CommittedProof) : Prop :=
  let d := env.digest proof.txn
  match proof.sigs with
  | some (.p1 gs) => validateP1Replies env .commit true proof.txn d gs none = true
  | some (.p2 gs) =>
    validateP2Replies env .commit (proof.p2View.getD 0) proof.txn d gs none = .accept
  | none => False

/-- The signers are of the groups in whose name they sign, and the involved groups are there under
their own ids. -/
def GenuineSigners (proof : CommittedProof) : Prop :=
  match proof.sigs with
  | some (.p1 gs) => (∀ g ∈ proof.txn.involvedGroups, g ∈ gs.map (·.1)) ∧
      ∀ e ∈ gs, e.1 ∈ proof.txn.involvedGroups → ∀ s ∈ e.2, env.config.InGroup s.processId e.1
  | some (.p2 gs) => ∀ lg ∈ getLogGroup proof.txn (env.digest proof.txn),
      ∀ e ∈ gs, ∀ s ∈ e.2, env.config.InGroup s.processId lg
  | none => True

/-- The groups of a certificate are the keys of a map. -/
def CommittedProof.WellFormed (proof : CommittedProof) : Prop :=
  match proof.sigs with
  | some (.p1 gs) => (gs.map (·.1)).Nodup
  | some (.p2 gs) => (gs.map (·.1)).Nodup
  | none => True

instance : ∀ proof, Decidable (SignaturesPass env proof)
  | ⟨_, some (.p1 _), _⟩ => inferInstanceAs (Decidable (_ = _))
  | ⟨_, some (.p2 _), _⟩ => inferInstanceAs (Decidable (_ = _))
  | ⟨_, none, _⟩ => inferInstanceAs (Decidable False)

-- The lists are gone through, never all 2 ^ 64 group ids.
instance : ∀ proof, Decidable (GenuineSigners env proof)
  | ⟨txn, some (.p1 gs), _⟩ =>
    have : Decidable (∀ g ∈ txn.involvedGroups, g ∈ gs.map (·.1)) := List.decidableBAll _ _
    inferInstanceAs (Decidable ((∀ g ∈ txn.involvedGroups, g ∈ gs.map (·.1)) ∧
      ∀ e ∈ gs, e.1 ∈ txn.involvedGroups → ∀ s ∈ e.2, env.config.InGroup s.processId e.1))
  | ⟨txn, some (.p2 gs), _⟩ =>
    (getLogGroup txn (env.digest txn)).decidableForallMem
      (p := fun lg => ∀ e ∈ gs, ∀ s ∈ e.2, env.config.InGroup s.processId lg)
  | ⟨_, none, _⟩ => inferInstanceAs (Decidable True)

instance : ∀ proof : CommittedProof, Decidable proof.WellFormed
  | ⟨_, some (.p1 gs), _⟩ => inferInstanceAs (Decidable (gs.map (·.1)).Nodup)
  | ⟨_, some (.p2 gs), _⟩ => inferInstanceAs (Decidable (gs.map (·.1)).Nodup)
  | ⟨_, none, _⟩ => inferInstanceAs (Decidable True)

variable {env}

variable {q : Nat} {sigs : List Signature} {d : Digest} {proof : CommittedProof} {txn : Transaction}

theorem signedBy_length_iff {m : Signed} {g : GroupId} (hlen : sigs.length = q)
    (hnd : (sigs.map (·.processId)).Nodup)
    (hvalid : ∀ s ∈ sigs, env.verify s.processId m s.signature = true) :
    SignedBy env q m g sigs ↔ ∀ s ∈ sigs, env.config.InGroup s.processId g := by
  constructor
  · intro h s hs
    exact ((h.all hlen).2 s hs).1
  · intro hin
    exact ⟨sigs, List.Sublist.refl sigs, hlen, hnd, fun s hs => ⟨hin s hs, hvalid s hs⟩⟩

theorem tally_p1 {g : GroupId}
    (h : tally (sigs.map (p1Ballot env .commit d none g)) [] 0 = some q) :
    sigs.length = q ∧ (sigs.map (·.processId)).Nodup ∧
      ∀ s ∈ sigs, env.verify s.processId (.vote true d g) s.signature = true := by
  obtain ⟨hall, hnd, hlen⟩ := tally_eq_some.1 h
  refine ⟨by simpa using hlen.symm, by simpa [Function.comp_def, p1Ballot] using hnd, ?_⟩
  intro s hs
  simpa [Ballot.ok, p1Ballot] using (hall _ (mem_map_of_mem hs)).2

theorem tally_p2 {view : UInt64} {lg : GroupId}
    {admitted : Signature → Bool}
    (h : tally (sigs.map fun s => p2Ballot env (admitted s) .commit view d lg none s) [] 0 =
      some q) :
    sigs.length = q ∧ (sigs.map (·.processId)).Nodup ∧ ∀ s ∈ sigs,
      env.verify s.processId (.p2Decision .commit d (some lg) (some view)) s.signature = true := by
  obtain ⟨hall, hnd, hlen⟩ := tally_eq_some.1 h
  refine ⟨by simpa using hlen.symm, by simpa [Function.comp_def, p2Ballot] using hnd, ?_⟩
  intro s hs
  simpa [Ballot.ok, p2Ballot] using (hall _ (mem_map_of_mem hs)).2

theorem validateP1Replies_entry {gs : GroupedSignatures}
    (h : validateP1Replies env .commit true txn d gs none = true) {e : GroupId × List Signature}
    (he : e ∈ gs) :
    SignedBy env env.config.n (.vote true d e.1) e.1 e.2 ↔
      ∀ s ∈ e.2, env.config.InGroup s.processId e.1 := by
  simp only [validateP1Replies, Bool.and_eq_true, all_eq_true, beq_iff_eq] at h
  obtain ⟨hlen, hnd, hvalid⟩ := tally_p1 (h.1 e he)
  exact signedBy_length_iff hlen hnd hvalid

theorem commitCertificate_iff (hw : proof.WellFormed) (h : SignaturesPass env proof) :
    CommitCertificate env proof ↔ GenuineSigners env proof := by
  unfold CommitCertificate GenuineSigners
  unfold SignaturesPass at h
  unfold CommittedProof.WellFormed at hw
  cases hs : proof.sigs with
  | none => simp [hs] at h
  | some sigs =>
    cases sigs with
    | p1 gs =>
      simp only [hs] at h hw ⊢
      have hentry := fun e he => validateP1Replies_entry (e := e) h he
      constructor
      · intro hc
        refine ⟨fun g hg => ?_, fun e he hg => ?_⟩
        · obtain ⟨sigs, hmem, -⟩ := hc g hg
          exact mem_map_of_mem hmem
        obtain ⟨sigs, hmem, hsigned⟩ := hc e.1 hg
        -- The keys of a map are distinct: it is the same entry.
        have heq : (e.1, sigs) = e := inj_on_of_nodup_map hw hmem he rfl
        have hsig : sigs = e.2 := congrArg Prod.snd heq
        rw [hsig] at hsigned
        exact (hentry e he).1 hsigned
      · rintro ⟨hkeys, hg⟩ g hin
        obtain ⟨e, he, rfl⟩ := mem_map.1 (hkeys g hin)
        exact ⟨e.2, he, (hentry e he).2 (hg e he hin)⟩
    | p2 gs =>
      simp only [hs] at h ⊢
      unfold validateP2Replies at h
      split at h
      · cases h
      · rename_i lg g sigs hlg
        split at h
        · rename_i htally
          obtain ⟨hlen, hnd, hvalid⟩ := tally_p2 (beq_iff_eq.1 htally)
          simp only [hlg, Option.some.injEq, Option.mem_def, mem_singleton, exists_eq_left',
            exists_eq_left, forall_eq', forall_eq]
          exact signedBy_length_iff hlen hnd hvalid
        · cases h
      · cases h

/-! ## Conflicts in timestamp order -/

inductive Item where
  | row (key : Key)
  | policy (policyId : Bytes)
  deriving DecidableEq

/-- The rows read by queries. -/
def Transaction.queryReads (txn : Transaction) : List ReadMessage :=
  (txn.mergedReadSet.getD {}).readSet ++
    txn.querySet.flatMap fun q => q.groupMeta.flatMap fun g => (g.2.queryReadSet.getD {}).readSet

/-- The policies that were used, with their versions. -/
def Transaction.policyReads (txn : Transaction) : List (Bytes × Timestamp) :=
  txn.implicitPolicyReads.map (fun r => (r.key, r.readtime)) ++
    txn.policyVersions.map fun p => (p.policyId, p.timestamp)

def Transaction.reads (txn : Transaction) : List (Item × Timestamp) :=
  (txn.readSet ++ txn.queryReads).map (fun r => (.row r.key, r.readtime)) ++
    txn.policyReads.map fun r => (.policy r.1, r.2)

def Transaction.writes (txn : Transaction) : List Item :=
  txn.writeSet.map fun w =>
    match txn.policyType with
    | .none => .row w.key
    | .policyIdPolicy => .policy w.key

def Transaction.writesKey (txn : Transaction) (key : Key) : Bool := txn.writeSet.any (key == ·.key)

/-- The versions at which `b` has read a key that `a` writes, where `TransactionsConflict` looks:
in the read set. -/
def seen (a b : Transaction) : List Timestamp :=
  (b.readSet.filter fun r => a.writesKey r.key).map (·.readtime)

/-- The same where it does not look: in the read sets of queries and, if `a` changes policies, among
the policies that `b` has used. -/
def unseen (a b : Transaction) : List Timestamp :=
  match a.policyType with
  | .none => (b.queryReads.filter fun r => a.writesKey r.key).map (·.readtime)
  | .policyIdPolicy => (b.policyReads.filter fun r => a.writesKey r.1).map (·.2)

theorem validateCommittedProof_accept :
    validateCommittedProof env proof (env.digest proof.txn) = .accept ↔
      proof.txn.isGenesis = true ∨ SignaturesPass env proof := by
  unfold validateCommittedProof SignaturesPass
  cases hg : proof.txn.isGenesis with
  | true => simp
  | false =>
    cases hs : proof.sigs with
    | none => simp
    | some sigs => cases sigs <;> simp

def reader : Transaction :=
  { clientId := 1, clientSeqNum := 1, involvedGroups := [0], timestamp := ⟨20000, 1⟩
    readSet := [{ key := [7] }] }

def writer (client seq time : UInt64) : Transaction :=
  { clientId := client, clientSeqNum := seq, involvedGroups := [0], timestamp := ⟨time, client⟩
    writeSet := [{ key := [7], value := some [8] }] }

def sixVotes (txn : Transaction) : CommittedProof where
  txn := txn
  sigs := some (.p1 [(0, [⟨0, [0]⟩, ⟨1, [1]⟩, ⟨2, [2]⟩, ⟨3, [3]⟩, ⟨4, [4]⟩, ⟨5, [5]⟩])])

end Sintr
