import Mathlib.Data.Finset.Card
import Sintr.Data.Types
import Sintr.Lib.Machine

/-!
# Merged snapshots

Before a query is executed on a snapshot, replicas report which transactions they have committed or
prepared. The client merges the local snapshots of a quorum into the snapshot that replicas shall
use. A local snapshot lists transactions by digest or, the first time, by timestamp.

* `addSnapshot`: one replica is added to the list of each transaction that it reports.
* `sealMerged`: when the quorum is complete, transactions with too few replicas are removed and the
  lists cut.
* `tally`: what the lists should hold. `addSnapshot_tally`: they do, as long as no local snapshot
  lists a transaction twice.
-/

namespace Sintr.Snapshot

open List Function

/-! ## Local and merged snapshots -/

structure LocalSnapshot where
  replicaId : UInt64
  txnsCommitted : List Digest := []
  txnsPrepared : List Digest := []
  txnsCommittedTs : List UInt64 := []
  txnsPreparedTs : List UInt64 := []
  committedTsCompressed : Bytes := []
  numCommittedTxnIds : UInt32 := 0
  preparedTsCompressed : Bytes := []
  numPreparedTxnIds : UInt32 := 0
  deriving DecidableEq, Repr

structure ReplicaList where
  replicas : List UInt64 := []
  prepared : Bool := false
  commitCount : Nat := 0
  deriving DecidableEq, Repr

/-- What the client is configured with. Decompression and lists that can be cut off are library
code; a list may only be cut to a size that it has. -/
structure SyncParams where
  f : Nat
  syncQuorum : Nat
  mergeThreshold : Nat
  optimisticTxID : Bool
  compressOptimisticTxIDs : Bool
  isReplicaInGroup : UInt64 → Bool
  decompress : Bytes → UInt32 → List UInt64
  truncate : List UInt64 → Nat → List UInt64
  truncate_le : ∀ l n, n ≤ l.length → truncate l n = l.take n

def openLocalSnapshot (params : SyncParams) (optimistic : Bool) (ss : LocalSnapshot) :
    LocalSnapshot :=
  if optimistic && params.compressOptimisticTxIDs then
    { ss with
      txnsCommittedTs := params.decompress ss.committedTsCompressed ss.numCommittedTxnIds
      txnsPreparedTs := params.decompress ss.preparedTsCompressed ss.numPreparedTxnIds }
  else ss

/-- The merged lists; a transaction is known by a key of type `κ`. -/
abbrev MergedTxns (κ : Type) := κ → Option ReplicaList

section Merge
variable {κ : Type} [DecidableEq κ]

def addReplica (replica : UInt64) (committed : Bool) (merged : MergedTxns κ) (txn : κ) :
    MergedTxns κ :=
  let list := (merged txn).getD {}
  Function.update merged txn (some
    { list with
      replicas := list.replicas ++ [replica]
      commitCount := if committed then list.commitCount + 1 else list.commitCount })

def addSnapshot (replica : UInt64) (committed prepared : List κ) (merged : MergedTxns κ) :
    MergedTxns κ :=
  prepared.foldl (addReplica replica false) (committed.foldl (addReplica replica true) merged)

def sealList (params : SyncParams) (list : ReplicaList) : Option ReplicaList :=
  if list.replicas.length < params.mergeThreshold then none
  else some
    { list with
      replicas := params.truncate list.replicas (params.f + 1)
      prepared := if list.commitCount < params.f + 1 then true else list.prepared }

def sealMerged (params : SyncParams) (merged : MergedTxns κ) : MergedTxns κ :=
  fun txn => (merged txn).bind (sealList params)

end Merge

/-! ## The client -/

/-- What a pending query knows of snapshots. `processed` is what has been merged so far; the code
does not keep it. -/
structure SyncState where
  retryVersion : Nat := 0
  useOptimisticTxId : Bool
  snapshotsVerified : List UInt64 := []
  mergedTxns : MergedTxns Digest := fun _ => none
  mergedTs : MergedTxns UInt64 := fun _ => none
  numSnapshotReplies : Nat := 0
  mergeComplete : Bool := false
  processed : List LocalSnapshot := []

def initMergedSnapshot (params : SyncParams) (retryVersion : Nat) : SyncState where
  retryVersion
  useOptimisticTxId := params.optimisticTxID && retryVersion == 0

def SyncState.merge (s : SyncState) (ss : LocalSnapshot) : SyncState :=
  if s.useOptimisticTxId then
    { s with
      mergedTs := addSnapshot ss.replicaId ss.txnsCommittedTs ss.txnsPreparedTs s.mergedTs
      processed := s.processed ++ [ss] }
  else
    { s with
      mergedTxns := addSnapshot ss.replicaId ss.txnsCommitted ss.txnsPrepared s.mergedTxns
      processed := s.processed ++ [ss] }

def SyncState.complete (params : SyncParams) (s : SyncState) : SyncState :=
  if s.useOptimisticTxId then
    { s with mergedTs := sealMerged params s.mergedTs, mergeComplete := true }
  else { s with mergedTxns := sealMerged params s.mergedTxns, mergeComplete := true }

def processReplicaLocalSnapshot (params : SyncParams) (s : SyncState) (ss : LocalSnapshot) :
    SyncState :=
  let s := s.merge (openLocalSnapshot params s.useOptimisticTxId ss)
  let s := { s with numSnapshotReplies := s.numSnapshotReplies + 1 }
  if s.numSnapshotReplies = params.syncQuorum then s.complete params else s

/-- `ProcessSync`: one snapshot of each replica of the group, until the merge is complete. -/
def processSync (params : SyncParams) (s : SyncState) (ss : LocalSnapshot) : SyncState :=
  if s.mergeComplete then s
  else if ss.replicaId ∈ s.snapshotsVerified then s
  else
    let s := { s with snapshotsVerified := ss.replicaId :: s.snapshotsVerified }
    if params.isReplicaInGroup ss.replicaId = false then s
    else processReplicaLocalSnapshot params s ss

inductive SyncEvent where
  | reply (ss : LocalSnapshot)
  | retry

def syncMachine (params : SyncParams) : Machine SyncState SyncEvent where
  step s e := match e with
    | .reply ss => processSync params s ss
    | .retry => initMergedSnapshot params (s.retryVersion + 1)

/-! ## What the lists should hold -/

/-- Where a local snapshot lists transactions by keys of a type. -/
structure Listing (κ : Type) where
  committed : LocalSnapshot → List κ
  prepared : LocalSnapshot → List κ

def byDigest : Listing Digest := ⟨LocalSnapshot.txnsCommitted, LocalSnapshot.txnsPrepared⟩

def byTimestamp : Listing UInt64 := ⟨LocalSnapshot.txnsCommittedTs, LocalSnapshot.txnsPreparedTs⟩

section Tally
variable {κ : Type} [DecidableEq κ] (v : Listing κ)

def Listing.all (processed : List LocalSnapshot) (txn : κ) : List LocalSnapshot :=
  processed.filter fun ss => txn ∈ v.committed ss ∨ txn ∈ v.prepared ss

def Listing.allCommitted (processed : List LocalSnapshot) (txn : κ) : List LocalSnapshot :=
  processed.filter fun ss => txn ∈ v.committed ss

def replicasOf (snapshots : List LocalSnapshot) : Finset UInt64 :=
  (snapshots.map LocalSnapshot.replicaId).toFinset

def Listing.Once (ss : LocalSnapshot) : Prop := (v.committed ss ++ v.prepared ss).Nodup

instance (ss : LocalSnapshot) : Decidable (v.Once ss) :=
  inferInstanceAs (Decidable (v.committed ss ++ v.prepared ss).Nodup)

def tally (processed : List LocalSnapshot) : MergedTxns κ := fun txn =>
  if v.all processed txn = [] then none
  else some
    { replicas := (v.all processed txn).map LocalSnapshot.replicaId
      commitCount := (v.allCommitted processed txn).length }

variable {v}

theorem foldl_addReplica {replica : UInt64} {committed : Bool} {txns : List κ}
    (hnodup : txns.Nodup) (merged : MergedTxns κ) (txn : κ) :
    txns.foldl (addReplica replica committed) merged txn =
      if txn ∈ txns then addReplica replica committed merged txn txn else merged txn := by
  induction txns generalizing merged with
  | nil => simp
  | cons first rest ih =>
    obtain ⟨hfirst, hrest⟩ := nodup_cons.1 hnodup
    rw [foldl_cons, ih hrest]
    by_cases heq : txn = first
    · subst heq
      rw [if_neg hfirst, if_pos mem_cons_self]
    · have hother : ∀ m : MergedTxns κ, addReplica replica committed m first txn = m txn :=
        fun m => update_of_ne heq _ _
      have hmem : txn ∈ first :: rest ↔ txn ∈ rest := by simp [heq]
      simp only [hmem, hother]
      split_ifs
      · simp only [addReplica, update_self, update_of_ne heq]
      · rfl

theorem tally_append (processed : List LocalSnapshot) (ss : LocalSnapshot) (txn : κ) :
    tally v (processed ++ [ss]) txn =
      if txn ∈ v.committed ss then
        addReplica ss.replicaId true (tally v processed) txn txn
      else if txn ∈ v.prepared ss then
        addReplica ss.replicaId false (tally v processed) txn txn
      else tally v processed txn := by
  have hall : v.all (processed ++ [ss]) txn = v.all processed txn ++
      if txn ∈ v.committed ss ∨ txn ∈ v.prepared ss then [ss] else [] := by
    simp [Listing.all, filter_append, filter_cons]
  have hcount : v.allCommitted (processed ++ [ss]) txn = v.allCommitted processed txn ++
      if txn ∈ v.committed ss then [ss] else [] := by
    simp [Listing.allCommitted, filter_append, filter_cons]
  have hnone : v.all processed txn = [] → v.allCommitted processed txn = [] := by
    simp only [Listing.all, Listing.allCommitted, filter_eq_nil_iff, decide_eq_true_eq]
    exact fun h ss hss hc => h ss hss (.inl hc)
  unfold tally
  rw [hall, hcount]
  by_cases hc : txn ∈ v.committed ss
  · by_cases hempty : v.all processed txn = []
    · simp [hc, hempty, hnone hempty, addReplica]
    · simp [hc, hempty, addReplica]
  · by_cases hp : txn ∈ v.prepared ss
    · by_cases hempty : v.all processed txn = []
      · simp [hc, hp, hempty, hnone hempty, addReplica]
      · simp [hc, hp, hempty, addReplica]
    · simp [hc, hp]

theorem addSnapshot_tally {ss : LocalSnapshot} (honce : v.Once ss)
    (processed : List LocalSnapshot) :
    addSnapshot ss.replicaId (v.committed ss) (v.prepared ss) (tally v processed) =
      tally v (processed ++ [ss]) := by
  obtain ⟨hcommitted, hprepared, hdisjoint⟩ := nodup_append.1 honce
  funext txn
  rw [addSnapshot, foldl_addReplica hprepared, tally_append]
  by_cases hc : txn ∈ v.committed ss
  · have hp : txn ∉ v.prepared ss := fun hp => hdisjoint txn hc txn hp rfl
    rw [if_neg hp, if_pos hc, foldl_addReplica hcommitted, if_pos hc]
  · rw [if_neg hc]
    split_ifs
    · simp only [addReplica, update_self, foldl_addReplica hcommitted, if_neg hc]
    · rw [foldl_addReplica hcommitted, if_neg hc]

/-! ## Complete snapshots -/

structure EntrySound (params : SyncParams) (v : Listing κ) (processed : List LocalSnapshot)
    (txn : κ) (list : ReplicaList) : Prop where
  enough : params.mergeThreshold ≤ (replicasOf (v.all processed txn)).card
  nodup : list.replicas.Nodup
  short : list.replicas.length ≤ params.f + 1
  listed : ∀ r ∈ list.replicas, r ∈ replicasOf (v.all processed txn)
  committed : list.prepared = false ↔
    params.f + 1 ≤ (replicasOf (v.allCommitted processed txn)).card

variable {processed : List LocalSnapshot}

theorem nodup_filter (hnodup : (processed.map LocalSnapshot.replicaId).Nodup)
    (p : LocalSnapshot → Bool) :
    ((processed.filter p).map LocalSnapshot.replicaId).Nodup :=
  hnodup.sublist (filter_sublist.map _)

theorem card_replicasOf (hnodup : (processed.map LocalSnapshot.replicaId).Nodup)
    (p : LocalSnapshot → Bool) :
    (replicasOf (processed.filter p)).card = (processed.filter p).length := by
  rw [replicasOf, toFinset_card_of_nodup (nodup_filter hnodup p), length_map]

theorem sealList_eq_some {params : SyncParams} {list sealed : ReplicaList}
    (h : sealList params list = some sealed) :
    params.mergeThreshold ≤ list.replicas.length ∧
      sealed.replicas = params.truncate list.replicas (params.f + 1) ∧
      (list.prepared = false → (sealed.prepared = false ↔ params.f + 1 ≤ list.commitCount)) := by
  unfold sealList at h
  split_ifs at h with hfew hcount
  · cases h
    refine ⟨Nat.not_lt.1 hfew, rfl, fun _ => ⟨fun hsealed => ?_, fun hle => ?_⟩⟩
    · cases hsealed
    · exact absurd hcount (Nat.not_lt.2 hle)
  · cases h
    exact ⟨Nat.not_lt.1 hfew, rfl, fun hlist => ⟨fun _ => Nat.not_lt.1 hcount, fun _ => hlist⟩⟩

theorem sealMerged_sound {params : SyncParams} (hthreshold : params.f + 1 ≤ params.mergeThreshold)
    (hnodup : (processed.map LocalSnapshot.replicaId).Nodup) {txn : κ} {list : ReplicaList}
    (h : sealMerged params (tally v processed) txn = some list) :
    EntrySound params v processed txn list := by
  obtain ⟨counted, hcounted, hseal⟩ := Option.bind_eq_some_iff.1 h
  unfold tally at hcounted
  split_ifs at hcounted with hempty
  obtain rfl := Option.some.inj hcounted
  obtain ⟨henough, hreplicas, hprepared⟩ := sealList_eq_some hseal
  have htake : list.replicas =
      ((v.all processed txn).map LocalSnapshot.replicaId).take (params.f + 1) :=
    hreplicas.trans (params.truncate_le _ _ (hthreshold.trans henough))
  refine ⟨?_, ?_, ?_, ?_, ?_⟩
  · rw [Listing.all, card_replicasOf hnodup]
    rwa [length_map] at henough
  · rw [htake]
    exact (nodup_filter hnodup _).sublist (take_sublist _ _)
  · rw [htake]
    exact length_take_le _ _
  · rw [htake]
    exact fun r hr => mem_toFinset.2 (mem_of_mem_take hr)
  · rw [Listing.allCommitted, card_replicasOf hnodup]
    exact hprepared rfl

end Tally

/-! ## Runs -/

def holds {κ : Type} [DecidableEq κ] (params : SyncParams) (v : Listing κ) (s : SyncState) :
    MergedTxns κ :=
  if s.mergeComplete then sealMerged params (tally v s.processed) else tally v s.processed

structure SyncState.Inv (params : SyncParams) (s : SyncState) : Prop where
  verified : ∀ ss ∈ s.processed, ss.replicaId ∈ s.snapshotsVerified
  inGroup : ∀ ss ∈ s.processed, params.isReplicaInGroup ss.replicaId = true
  nodup : (s.processed.map LocalSnapshot.replicaId).Nodup
  txns : s.mergedTxns = if s.useOptimisticTxId then fun _ => none else holds params byDigest s
  ts : s.mergedTs = if s.useOptimisticTxId then holds params byTimestamp s else fun _ => none

theorem tally_nil {κ : Type} [DecidableEq κ] (v : Listing κ) : tally v [] = fun _ => none := rfl

theorem initMergedSnapshot_inv (params : SyncParams) (retryVersion : Nat) :
    (initMergedSnapshot params retryVersion).Inv params := by
  refine ⟨by simp [initMergedSnapshot], by simp [initMergedSnapshot], by simp [initMergedSnapshot],
    ?_, ?_⟩
  · show (fun _ => none) = if _ then _ else tally byDigest []
    rw [tally_nil, ite_self]
  · show (fun _ => none) = if _ then tally byTimestamp [] else _
    rw [tally_nil, ite_self]

def SyncState.Once (params : SyncParams) (s : SyncState) (ss : LocalSnapshot) : Prop :=
  if s.useOptimisticTxId then byTimestamp.Once (openLocalSnapshot params true ss)
  else byDigest.Once ss
deriving Decidable

theorem openLocalSnapshot_false (params : SyncParams) (ss : LocalSnapshot) :
    openLocalSnapshot params false ss = ss := rfl

theorem openLocalSnapshot_replicaId (params : SyncParams) (optimistic : Bool) (ss : LocalSnapshot) :
    (openLocalSnapshot params optimistic ss).replicaId = ss.replicaId := by
  unfold openLocalSnapshot
  split_ifs <;> rfl

section Step
variable {params : SyncParams} {s : SyncState} {ss : LocalSnapshot}

theorem merge_inv (h : s.Inv params) (hgoes : s.mergeComplete = false)
    (hverified : ss.replicaId ∈ s.snapshotsVerified)
    (hgroup : params.isReplicaInGroup ss.replicaId = true)
    (hnew : ss.replicaId ∉ s.processed.map LocalSnapshot.replicaId) (honce : s.Once params ss) :
    (s.merge (openLocalSnapshot params s.useOptimisticTxId ss)).Inv params := by
  have hid := openLocalSnapshot_replicaId params s.useOptimisticTxId ss
  have hprocessed : (s.merge (openLocalSnapshot params s.useOptimisticTxId ss)).processed =
      s.processed ++ [openLocalSnapshot params s.useOptimisticTxId ss] := by
    unfold SyncState.merge
    split_ifs <;> rfl
  have hseen : (s.merge (openLocalSnapshot params s.useOptimisticTxId ss)).snapshotsVerified =
      s.snapshotsVerified := by
    unfold SyncState.merge
    split_ifs <;> rfl
  refine ⟨?_, ?_, ?_, ?_, ?_⟩
  · rw [hprocessed, hseen, forall_mem_append]
    refine ⟨h.verified, fun x hx => ?_⟩
    rw [mem_singleton.1 hx, hid]
    exact hverified
  · rw [hprocessed, forall_mem_append]
    refine ⟨h.inGroup, fun x hx => ?_⟩
    rw [mem_singleton.1 hx, hid]
    exact hgroup
  · rw [hprocessed, map_append, nodup_append]
    refine ⟨h.nodup, by simp, fun x hx y hy => ?_⟩
    obtain rfl : y = ss.replicaId := by
      rw [← hid]
      exact mem_singleton.1 hy
    exact fun heq => hnew (heq ▸ hx)
  · have htxns := h.txns
    cases hopt : s.useOptimisticTxId with
    | true => simp_all [SyncState.merge]
    | false =>
      have hadd := addSnapshot_tally (by simpa [SyncState.Once, hopt] using honce) s.processed
      simp only [SyncState.merge, holds, hopt, hgoes, htxns, openLocalSnapshot_false]
      exact hadd
  · have hts := h.ts
    cases hopt : s.useOptimisticTxId with
    | true =>
      have hadd := addSnapshot_tally (by simpa [SyncState.Once, hopt] using honce) s.processed
      simp only [SyncState.merge, holds, hopt, hgoes, hts]
      exact hadd
    | false => simp_all [SyncState.merge]

theorem complete_inv (h : s.Inv params) (hgoes : s.mergeComplete = false) :
    (s.complete params).Inv params := by
  obtain ⟨hverified, hgroup, hnodup, htxns, hts⟩ := h
  unfold SyncState.complete
  split_ifs <;> exact ⟨hverified, hgroup, hnodup, by simp_all [holds], by simp_all [holds]⟩

theorem merge_mergeComplete : (s.merge ss).mergeComplete = s.mergeComplete := by
  unfold SyncState.merge
  split_ifs <;> rfl

theorem SyncState.Inv.count (h : s.Inv params) (hgoes : s.mergeComplete = false) :
    (if s.numSnapshotReplies + 1 = params.syncQuorum then
      { s with numSnapshotReplies := s.numSnapshotReplies + 1 }.complete params
    else { s with numSnapshotReplies := s.numSnapshotReplies + 1 }).Inv params := by
  have hcounted : SyncState.Inv params { s with numSnapshotReplies := s.numSnapshotReplies + 1 } :=
    ⟨h.verified, h.inGroup, h.nodup, h.txns, h.ts⟩
  split_ifs
  · exact complete_inv hcounted hgoes
  · exact hcounted

def SnapshotOnce (params : SyncParams) (s : SyncState) (e : SyncEvent) : Prop :=
  ∀ ss, e = .reply ss → s.mergeComplete = false → ss.replicaId ∉ s.snapshotsVerified →
    params.isReplicaInGroup ss.replicaId = true → s.Once params ss

theorem processSync_inv (h : s.Inv params) (honce : SnapshotOnce params s (.reply ss)) :
    (processSync params s ss).Inv params := by
  unfold processSync
  split_ifs with hcomplete hseen hgroup
  · exact h
  · exact h
  · exact ⟨fun x hx => mem_cons_of_mem _ (h.verified x hx), h.inGroup, h.nodup, h.txns, h.ts⟩
  · have hgoes : s.mergeComplete = false := Bool.not_eq_true _ ▸ hcomplete
    have hin : params.isReplicaInGroup ss.replicaId = true := by simpa using hgroup
    have hnew : ss.replicaId ∉ s.processed.map LocalSnapshot.replicaId := by
      intro hmem
      obtain ⟨x, hx, heq⟩ := mem_map.1 hmem
      exact hseen (heq ▸ h.verified x hx)
    have hseen' : SyncState.Inv params
        { s with snapshotsVerified := ss.replicaId :: s.snapshotsVerified } :=
      ⟨fun x hx => mem_cons_of_mem _ (h.verified x hx), h.inGroup, h.nodup, h.txns, h.ts⟩
    have hmerge := merge_inv hseen' hgoes mem_cons_self hin hnew
      (honce ss rfl hgoes hseen hin)
    exact hmerge.count (merge_mergeComplete.trans hgoes)

theorem step_inv (h : s.Inv params) {e : SyncEvent} (honce : SnapshotOnce params s e) :
    ((syncMachine params).step s e).Inv params := by
  cases e with
  | reply ss => exact processSync_inv h honce
  | retry => exact initMergedSnapshot_inv params _

end Step

/-- If no local snapshot lists a transaction twice, a complete snapshot has the entries that enough
replicas of the group have listed, with some of these replicas, and tells which are committed. -/
theorem run_sealed {params : SyncParams} (hthreshold : params.f + 1 ≤ params.mergeThreshold)
    {events : List SyncEvent}
    (honce : (syncMachine params).Along (SnapshotOnce params) (initMergedSnapshot params 0) events)
    (hcomplete : ((syncMachine params).run (initMergedSnapshot params 0) events).mergeComplete =
      true) :
    let s := (syncMachine params).run (initMergedSnapshot params 0) events
    (∀ ss ∈ s.processed, params.isReplicaInGroup ss.replicaId = true) ∧
      (∀ txn list, s.mergedTxns txn = some list →
        EntrySound params byDigest s.processed txn list) ∧
      ∀ ts list, s.mergedTs ts = some list →
        EntrySound params byTimestamp s.processed ts list := by
  intro s
  have hinv : s.Inv params :=
    Machine.run_along (I := SyncState.Inv params) (fun _ _ honce h => step_inv h honce)
      (initMergedSnapshot_inv params 0) honce
  refine ⟨hinv.inGroup, fun txn list hlist => ?_, fun ts list hlist => ?_⟩
  · rw [hinv.txns] at hlist
    split_ifs at hlist
    rw [holds, if_pos hcomplete] at hlist
    exact sealMerged_sound hthreshold hinv.nodup hlist
  · rw [hinv.ts] at hlist
    split_ifs at hlist
    rw [holds, if_pos hcomplete] at hlist
    exact sealMerged_sound hthreshold hinv.nodup hlist

def fourReplicas (optimisticTxID : Bool) : SyncParams where
  f := 1
  syncQuorum := 3
  mergeThreshold := 2
  optimisticTxID
  compressOptimisticTxIDs := false
  isReplicaInGroup r := r < 4
  decompress _ _ := []
  truncate := fun l n => l.take n
  truncate_le := fun _ _ _ => rfl

def commonReports : List SyncEvent :=
  [.reply { replicaId := 0, txnsCommitted := [[7]] },
    .reply { replicaId := 1, txnsCommitted := [[7]], txnsPrepared := [[8]] },
    .reply { replicaId := 2, txnsPrepared := [[7]] }]

theorem run_sealed_common :
    let s := (syncMachine (fourReplicas false)).run (initMergedSnapshot (fourReplicas false) 0)
      commonReports
    s.mergedTxns [7] = some ⟨[0, 1], false, 2⟩ ∧
      EntrySound (fourReplicas false) byDigest s.processed [7] ⟨[0, 1], false, 2⟩ := by
  intro s
  have hlist : s.mergedTxns [7] = some ⟨[0, 1], false, 2⟩ := by decide +kernel
  have honce : (syncMachine (fourReplicas false)).Along (SnapshotOnce (fourReplicas false))
      (initMergedSnapshot (fourReplicas false) 0) commonReports := by
    refine ⟨fun ss h _ _ _ => ?_, fun ss h _ _ _ => ?_, fun ss h _ _ _ => ?_, trivial⟩ <;>
      · cases h
        decide +kernel
  obtain ⟨-, htxns, -⟩ := run_sealed (by decide) honce (by decide +kernel)
  exact ⟨hlist, htxns [7] _ hlist⟩

/-- One replica lists a transaction twice as committed, or as committed and as prepared: a complete
snapshot has it, although no other replica knows it, and takes it for committed if it was listed
twice as committed. -/
theorem sealed_twice :
    let s := (syncMachine (fourReplicas false)).run (initMergedSnapshot (fourReplicas false) 0)
      [.reply { replicaId := 0, txnsCommitted := [[7], [7], [8]], txnsPrepared := [[8]] },
        .reply { replicaId := 1 }, .reply { replicaId := 2 }]
    let s' := (syncMachine (fourReplicas true)).run (initMergedSnapshot (fourReplicas true) 0)
      [.reply { replicaId := 0, txnsCommittedTs := [7, 7, 8], txnsPreparedTs := [8] },
        .reply { replicaId := 1 }, .reply { replicaId := 2 }]
    (s.mergeComplete = true ∧ s.mergedTxns [7] = some ⟨[0, 0], false, 2⟩ ∧
      s.mergedTxns [8] = some ⟨[0, 0], true, 1⟩ ∧
      (replicasOf (byDigest.all s.processed [7])).card = 1) ∧
    s'.mergeComplete = true ∧ s'.mergedTs 7 = some ⟨[0, 0], false, 2⟩ ∧
      s'.mergedTs 8 = some ⟨[0, 0], true, 1⟩ ∧
      (replicasOf (byTimestamp.all s'.processed 7)).card = 1 := by
  decide +kernel

end Sintr.Snapshot
