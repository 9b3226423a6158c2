import Sintr.Data.Types
import Sintr.Lib.Quorum

/-!
# Decisions in the HotStuff store

In the store that orders transactions with HotStuff, a commit is announced by a grouped decision:
for each participating shard a decision that `f + 1` of its replicas have signed. It is verified in
one thread or in several, with a shared object that counts the signatures of each shard down. A
failed verification is counted like a successful one, and nobody asks for the shard of the signer.

* `verifyGDecision_iff`, `verifyGDecisionParallel_iff`: what the two functions look at.
-/

namespace Sintr.Hotstuff

open Quorum List

structure IdMap (α : Type) where
  entries : List (UInt64 × α) := []
  nodup : (entries.map (·.1)).Nodup := by decide

structure TransactionDecision where
  /-- `REPLY_OK` is 0. -/
  status : Int
  txnDigest : Digest
  shardId : GroupId

structure GroupedSignedMessage where
  packedMsg : Bytes
  signatures : IdMap Bytes

structure GroupedDecision where
  txnDigest : Digest
  decisions : IdMap TransactionDecision := {}
  signedDecisions : IdMap GroupedSignedMessage := {}

structure DecisionEnv where
  n : Nat
  parseDecision : Bytes → Option TransactionDecision
  /-- `verifyBatchedSignature` under the key of a replica. -/
  verify : ProcessId → Bytes → Bytes → Bool

/-! ## One thread -/

/-- The loop over the shards: those left whose entry is not as it should be. -/
def remainingShards {α : Type} (ok : GroupId → α → Bool) (es : List (GroupId × α))
    (remaining : Finset GroupId) : Finset GroupId :=
  es.foldl (fun rs e => if e.1 ∈ rs ∧ ok e.1 e.2 then rs.erase e.1 else rs) remaining

theorem mem_remainingShards {α : Type} {ok : GroupId → α → Bool} {es : List (GroupId × α)}
    {remaining : Finset GroupId} {g : GroupId} :
    g ∈ remainingShards ok es remaining ↔
      g ∈ remaining ∧ ∀ e ∈ es, e.1 = g → ok e.1 e.2 = false := by
  induction es generalizing remaining with
  | nil => simp [remainingShards]
  | cons e es ih =>
    rw [remainingShards, foldl_cons, ← remainingShards, ih, forall_mem_cons, ← and_assoc]
    refine and_congr ?_ Iff.rfl
    split_ifs with h
    · simp only [Finset.mem_erase]
      grind
    · grind

section
variable (denv : DecisionEnv) (gd : GroupedDecision) (shards : List GroupId) (f : Nat)

def approves (shard : GroupId) (d : TransactionDecision) : Bool :=
  d.status == 0 && d.txnDigest == gd.txnDigest && d.shardId == shard

def approved (shard : GroupId) (m : GroupedSignedMessage) : Bool :=
  (denv.parseDecision m.packedMsg).any (approves gd shard)

def validSignatures (m : GroupedSignedMessage) : Finset ProcessId :=
  m.signatures.entries.foldl (fun ids e =>
    if denv.verify e.1 m.packedMsg e.2 then insert e.1 ids else insert e.1 ids) ∅

def verifyUnsigned : Bool :=
  (remainingShards (approves gd) gd.decisions.entries shards.toFinset).card == 0

def verifyGDecision (signMessages : Bool) : Bool :=
  if signMessages then
    (remainingShards (fun g m => approved denv gd g m && f + 1 ≤ (validSignatures denv m).card)
      gd.signedDecisions.entries shards.toFinset).card == 0
  else verifyUnsigned gd shards

/-! ## Several threads -/

/-- The shared object. The code counts the signatures of a shard down from `f + 1`. -/
structure AsyncVerification extends Count GroupId where
  result : Bool := false

/-- A job: the result of a verification is not used. -/
def AsyncVerification.report (v : AsyncVerification) (job : GroupId × Bool) : AsyncVerification :=
  let c := if job.2 then (v.add job.1).1 else (v.add job.1).1
  { c with result := v.result || c.groupsVerified == c.groupTotals }

def verificationJobs : List (GroupId × Bool) :=
  gd.signedDecisions.entries.flatMap fun e =>
    if e.1 ∈ shards ∧ approved denv gd e.1 e.2 then
      e.2.signatures.entries.map fun s => (e.1, denv.verify s.1 e.2.packedMsg s.2)
    else []

/-- The jobs run in the order of the schedule, and the caller waits for all of them. -/
def verifyGDecisionParallel (signMessages : Bool) (schedule : List Nat) : Bool :=
  if signMessages then
    let v : AsyncVerification := { quorumSize := f + 1, groupTotals := shards.length }
    ((reorder schedule (verificationJobs denv gd shards)).foldl AsyncVerification.report v).result
  else verifyUnsigned gd shards

/-! ## What is checked -/

def HasEntry (sigs : GroupedSignedMessage → Nat) (shard : GroupId) : Prop :=
  ∃ m, (shard, m) ∈ gd.signedDecisions.entries ∧ approved denv gd shard m ∧ f + 1 ≤ sigs m

def Listed : GroupId → Prop := HasEntry denv gd f fun m => m.signatures.entries.length

def Vouched (shard : GroupId) : Prop :=
  HasEntry denv gd f (fun m => (m.signatures.entries.filter fun s =>
    s.1.toNat / denv.n == shard.toNat && denv.verify s.1 m.packedMsg s.2).length) shard

variable {denv gd shards f}

theorem card_validSignatures (m : GroupedSignedMessage) :
    (validSignatures denv m).card = m.signatures.entries.length := by
  have hall : ∀ (l : List (ProcessId × Bytes)) (ids : Finset ProcessId),
      l.foldl (fun ids e => if denv.verify e.1 m.packedMsg e.2 then insert e.1 ids
        else insert e.1 ids) ids = ids ∪ (l.map (·.1)).toFinset := by
    intro l
    induction l with
    | nil => simp
    | cons e l ih =>
      intro ids
      rw [foldl_cons, ih, ite_self, map_cons, toFinset_cons, Finset.insert_union,
        Finset.union_insert]
  rw [validSignatures, hall, Finset.empty_union, toFinset_card_of_nodup m.signatures.nodup,
    length_map]

theorem verifyGDecision_iff :
    verifyGDecision denv gd shards f true = true ↔ ∀ g ∈ shards, Listed denv gd f g := by
  simp only [verifyGDecision, if_true, beq_iff_eq, Finset.card_eq_zero,
    Finset.eq_empty_iff_forall_notMem, mem_remainingShards, card_validSignatures]
  refine forall_congr' fun g => ?_
  simp [Listed, HasEntry]

theorem AsyncVerification.foldl_report {v : AsyncVerification} {counted : List GroupId}
    (h : v.Exactly counted)
    (hresult : v.result = true ↔ v.groupTotals ≤ (full v.quorumSize counted).card)
    (js : List (GroupId × Bool)) :
    (js.foldl report v).result = true ↔
      v.groupTotals ≤ (full v.quorumSize (counted ++ js.map (·.1))).card := by
  induction js generalizing v counted with
  | nil => simpa using hresult
  | cons j js ih =>
    have hcount : (v.report j).toCount = (v.add j.1).1 := ite_self _
    have hadd : (v.report j).Exactly (j.1 :: counted) := by
      rw [hcount]
      exact (h.add j.1).1
    obtain ⟨hq, ht⟩ : (v.report j).quorumSize = v.quorumSize ∧
        (v.report j).groupTotals = v.groupTotals := by
      rw [hcount]
      exact v.add_sizes j.1
    have hcard : (v.report j).groupsVerified = _ := hadd.verified
    rw [foldl_cons, ih hadd, hq, ht, map_cons, full_perm perm_middle]
    · rfl
    · have hdef : (v.report j).result =
          (v.result || (v.report j).groupsVerified == (v.report j).groupTotals) := rfl
      rw [hdef, Bool.or_eq_true, hresult, beq_iff_eq, hcard, hq, ht, full_cons h.pos]
      split_ifs with hlast
      · rw [Finset.card_insert_of_notMem]
        · omega
        · rw [mem_full h.pos]
          omega
      · omega

theorem le_count_flatMap {α : Type} {es : List (GroupId × α)} (hnd : (es.map (·.1)).Nodup)
    {k : GroupId × α → Nat} {g : GroupId} {q : Nat} (hq : 0 < q) :
    q ≤ (es.flatMap fun e => replicate (k e) e.1).count g ↔ ∃ m, (g, m) ∈ es ∧ q ≤ k (g, m) := by
  induction es with
  | nil => simp [hq.ne']
  | cons e es ih =>
    rw [map_cons, nodup_cons] at hnd
    rw [flatMap_cons, count_append, count_replicate]
    by_cases hg : e.1 = g
    · subst hg
      have hrest : (es.flatMap fun e => replicate (k e) e.1).count e.1 = 0 := by
        simp only [count_eq_zero, mem_flatMap, mem_replicate, not_exists, not_and]
        exact fun e' he' _ heq => hnd.1 (heq ▸ mem_map_of_mem he')
      have hother : ∀ m, (e.1, m) ∉ es := fun m hm => hnd.1 (mem_map.2 ⟨_, hm, rfl⟩)
      grind
    · grind

theorem mem_full_jobs {g : GroupId} :
    g ∈ full (f + 1) ((verificationJobs denv gd shards).map (·.1)) ↔
      g ∈ shards ∧ Listed denv gd f g := by
  have hjobs : (verificationJobs denv gd shards).map (·.1) =
      gd.signedDecisions.entries.flatMap fun e => replicate
        (if e.1 ∈ shards ∧ approved denv gd e.1 e.2 then e.2.signatures.entries.length else 0)
        e.1 := by
    rw [verificationJobs, map_flatMap]
    congr
    funext e
    split_ifs <;> simp [Function.comp_def]
  rw [mem_full (Nat.succ_pos f), hjobs, le_count_flatMap gd.signedDecisions.nodup (Nat.succ_pos f)]
  unfold Listed HasEntry
  grind

theorem verifyGDecisionParallel_iff (schedule : List Nat) :
    verifyGDecisionParallel denv gd shards f true schedule = true ↔
      shards ≠ [] ∧ shards.Nodup ∧ ∀ g ∈ shards, Listed denv gd f g := by
  have hperm := reorder_perm schedule (verificationJobs denv gd shards)
  by_cases hne : shards = []
  · subst hne
    have hjobs : verificationJobs denv gd [] = [] := by simp [verificationJobs]
    rw [hjobs] at hperm
    simp [verifyGDecisionParallel, hjobs, hperm.eq_nil]
  · simp only [verifyGDecisionParallel, if_true]
    rw [AsyncVerification.foldl_report (.start (Nat.succ_pos f) _) ?_, nil_append,
      full_perm (hperm.map _)]
    · have hsub : full (f + 1) ((verificationJobs denv gd shards).map (·.1)) ⊆ shards.toFinset :=
        fun g hg => mem_toFinset.2 (mem_full_jobs.1 hg).1
      have hcard := Finset.card_le_card hsub
      have hlen := toFinset_card_le shards
      constructor
      · intro hle
        have hnd : shards.Nodup := by
          rw [← Multiset.coe_nodup, ← Multiset.toFinset_card_eq_card_iff_nodup]
          exact le_antisymm hlen (hle.trans hcard)
        refine ⟨hne, hnd, fun g hg => ?_⟩
        have heq := Finset.eq_of_subset_of_card_le hsub (hlen.trans hle)
        exact (mem_full_jobs.1 (heq ▸ mem_toFinset.2 hg)).2
      · rintro ⟨-, hnd, hall⟩
        have heq : shards.toFinset ⊆ full (f + 1) ((verificationJobs denv gd shards).map (·.1)) :=
          fun g hg => mem_full_jobs.2 ⟨mem_toFinset.1 hg, hall g (mem_toFinset.1 hg)⟩
        exact (toFinset_card_of_nodup hnd).ge.trans (Finset.card_le_card heq)
    · simpa [full] using hne

/-- Both functions accept the same decisions, signed by `f + 1` replicas of each shard, as long as
enough of the listed signatures are valid and no shard is listed twice. -/
theorem verifyGDecision_sound_iff :
    ((verifyGDecision denv gd shards f true = true → ∀ g ∈ shards, Vouched denv gd f g) ∧
      ∀ schedule,
        (verifyGDecisionParallel denv gd shards f true schedule = true →
          ∀ g ∈ shards, Vouched denv gd f g) ∧
        verifyGDecisionParallel denv gd shards f true schedule =
          verifyGDecision denv gd shards f true) ↔
      ((∀ g ∈ shards, Listed denv gd f g) →
        shards ≠ [] ∧ shards.Nodup ∧ ∀ g ∈ shards, Vouched denv gd f g) := by
  have hagree : ∀ schedule, verifyGDecisionParallel denv gd shards f true schedule =
      verifyGDecision denv gd shards f true ↔ _ := fun schedule => by
    rw [Bool.eq_iff_iff, verifyGDecision_iff, verifyGDecisionParallel_iff]
  simp only [hagree, verifyGDecision_iff, verifyGDecisionParallel_iff]
  constructor
  · rintro ⟨hone, hall⟩ hlisted
    obtain ⟨hne, hnd, -⟩ := (hall []).2.2 hlisted
    exact ⟨hne, hnd, hone hlisted⟩
  · intro h
    refine ⟨fun hlisted => (h hlisted).2.2, fun _ => ⟨fun hpar => (h hpar.2.2).2.2, ?_⟩⟩
    exact ⟨fun hpar => hpar.2.2, fun hlisted => ⟨(h hlisted).1, (h hlisted).2.1, hlisted⟩⟩

end

/-- Two replicas of the only shard are named, with signatures that are not valid. -/
theorem verifyGDecision_accepts_invalid :
    let denv : DecisionEnv := ⟨4, fun _ => some ⟨0, [], 0⟩, fun _ _ signature => signature == [1]⟩
    let gd : GroupedDecision :=
      { txnDigest := []
        signedDecisions := { entries := [(0, ⟨[], { entries := [(0, [2]), (1, [3])] }⟩)] } }
    verifyGDecision denv gd [0] 1 true = true ∧
      verifyGDecisionParallel denv gd [0] 1 true [] = true ∧ ¬ Vouched denv gd 1 0 ∧
      verifyGDecision denv gd [0, 0] 1 true = true ∧
      verifyGDecisionParallel denv gd [0, 0] 1 true [] = false := by
  refine ⟨by decide, by decide, ?_, by decide, by decide⟩
  simp [Vouched, HasEntry]

end Sintr.Hotstuff
