import Sintr.Lib.ExceptFold
import Sintr.Lib.Sorting
import Sintr.Lib.Updates
import Sintr.Query.Snapshots

/-!
# Timestamps in a local snapshot

In timestamp mode a replica lists a transaction by one number into which `mergeTimestampId` packs
its timestamp and client id, and finds the transaction again by that number (`registerTxTS`).

* `mergeTimestampId_spec`: the number is the sum of the two, so that numbers are ordered as
  timestamps are (`merged_lt_iff`).
-/

namespace Sintr.Snapshot

open List Function

inductive Panic where
  | idTooLarge
  | bitsNotFree
  | equivocation (old new : Digest)
  | tooManyTimestamps
  deriving DecidableEq

/-- The shift by hand behind the second Panic is dead code. -/
def mergeTimestampId (ts : Timestamp) : Except Panic UInt64 :=
  if ts.id > 0xFFF then .error .idTooLarge
  else if ts.timestamp &&& 0xFFF = 0 then .ok (ts.timestamp ||| ts.id)
  else .error .bitsNotFree

/-- The overloads differ in where the digest comes from. -/
def addToLocalSnapshot (useOptimisticTxId : Bool) (ss : LocalSnapshot) (txnDigest : Digest)
    (ts : Timestamp) (committed : Bool) : Except Panic LocalSnapshot :=
  if ts.timestamp = 0 ∧ ts.id = 0 then .ok ss
  else if useOptimisticTxId then do
    let merged ← mergeTimestampId ts
    if committed then .ok { ss with txnsCommittedTs := ss.txnsCommittedTs ++ [merged] }
    else .ok { ss with txnsPreparedTs := ss.txnsPreparedTs ++ [merged] }
  else if committed then .ok { ss with txnsCommitted := ss.txnsCommitted ++ [txnDigest] }
  else .ok { ss with txnsPrepared := ss.txnsPrepared ++ [txnDigest] }

def sortUnique {α : Type} [LE α] [DecidableLE α] [BEq α] (l : List α) : List α :=
  (l.mergeSort (· ≤ ·)).destutter fun a b => (a == b) = false

/-- `CompressLocal`: the shift by 32 in the bound of its assertion overflows an `int` and leaves
1024. What the compressor writes lands behind the end of the reserved strings, which stay empty. -/
def compressLocal (ss : LocalSnapshot) : Except Panic LocalSnapshot :=
  let committed := ss.txnsCommittedTs.length
  let prepared := ss.txnsPreparedTs.length
  if committed * 64 < 1024 ∧ prepared * 64 < 1024 then
    .ok { ss with
      txnsCommittedTs := []
      txnsPreparedTs := []
      numCommittedTxnIds := committed.toUInt32
      numPreparedTxnIds := prepared.toUInt32 }
  else .error .tooManyTimestamps

def sealLocalSnapshot (useOptimisticTxId compressOptimisticTxIDs : Bool) (ss : LocalSnapshot) :
    Except Panic LocalSnapshot :=
  if useOptimisticTxId = false then
    .ok { ss with
      txnsCommitted := sortUnique ss.txnsCommitted
      txnsPrepared := sortUnique ss.txnsPrepared }
  else
    let ss := { ss with
      txnsCommittedTs := sortUnique ss.txnsCommittedTs
      txnsPreparedTs := sortUnique ss.txnsPreparedTs }
    if compressOptimisticTxIDs then compressLocal ss else .ok ss

abbrev TsToTx := UInt64 → Option Digest

def registerTxTS (optimisticTxID testPrepareSync : Bool) (tsToTx : TsToTx) (txnDigest : Digest)
    (ts : Timestamp) : Except Panic TsToTx :=
  if optimisticTxID = false then .ok tsToTx
  else do
    let merged ← mergeTimestampId ts
    match tsToTx merged with
    | none => .ok (update tsToTx merged (some txnDigest))
    | some old =>
      if testPrepareSync = false ∧ old ≠ txnDigest then .error (.equivocation old txnDigest)
      else .ok (update tsToTx merged (some txnDigest))

/-! ## The merged number -/

variable {ts ts' : Timestamp} {m m' : UInt64}

theorem mergeTimestampId_spec (h : mergeTimestampId ts = .ok m) :
    m.toNat = ts.timestamp.toNat + ts.id.toNat ∧ ts.timestamp.toNat % 4096 = 0 ∧
      ts.id.toNat < 4096 := by
  unfold mergeTimestampId at h
  split_ifs at h with hid hts
  cases h
  have hmod : ts.timestamp.toNat % 2 ^ 12 = 0 := by
    have h0 := congrArg UInt64.toNat hts
    rwa [UInt64.toNat_and, show (0xFFF : UInt64).toNat = 2 ^ 12 - 1 from rfl,
      Nat.and_two_pow_sub_one_eq_mod] at h0
  have hlt : ts.id.toNat < 2 ^ 12 := by
    rw [gt_iff_lt, UInt64.lt_iff_toNat_lt] at hid
    simp at hid
    omega
  refine ⟨?_, hmod, hlt⟩
  obtain ⟨b, hb⟩ := Nat.dvd_of_mod_eq_zero hmod
  rw [UInt64.toNat_or, hb, Nat.two_pow_add_eq_or_of_lt hlt]

theorem merged_lt_iff (h : mergeTimestampId ts = .ok m) (h' : mergeTimestampId ts' = .ok m') :
    m < m' ↔ ts < ts' := by
  obtain ⟨hm, hmod, hlt⟩ := mergeTimestampId_spec h
  obtain ⟨hm', hmod', hlt'⟩ := mergeTimestampId_spec h'
  rw [UInt64.lt_iff_toNat_lt, Timestamp.lt_iff, UInt64.lt_iff_toNat_lt, UInt64.lt_iff_toNat_lt,
    ← UInt64.toNat_inj]
  omega

theorem merged_injective (h : mergeTimestampId ts = .ok m) (h' : mergeTimestampId ts' = .ok m) :
    ts = ts' := by
  rcases lt_trichotomy ts ts' with hlt | rfl | hlt
  · exact absurd ((merged_lt_iff h h').2 hlt) (UInt64.lt_irrefl m)
  · rfl
  · exact absurd ((merged_lt_iff h' h).2 hlt) (UInt64.lt_irrefl m)

/-! ## Snapshots and the table -/

structure Added where
  txnDigest : Digest
  ts : Timestamp
  committed : Bool

def addAll (useOptimisticTxId : Bool) (ss : LocalSnapshot) (txns : List Added) :
    Except Panic LocalSnapshot :=
  txns.foldlM (fun ss x => addToLocalSnapshot useOptimisticTxId ss x.txnDigest x.ts x.committed) ss

def LocalSnapshot.tsList (ss : LocalSnapshot) (committed : Bool) : List UInt64 :=
  if committed then ss.txnsCommittedTs else ss.txnsPreparedTs

/-- The number stands in the list because of this transaction. -/
def Added.Gives (x : Added) (committed : Bool) (m : UInt64) : Prop :=
  x.committed = committed ∧ x.ts ≠ .zero ∧ mergeTimestampId x.ts = .ok m

variable {ss ss' : LocalSnapshot} {x : Added} {txns : List Added} {c : Bool}

theorem mem_addToLocalSnapshot
    (h : addToLocalSnapshot true ss x.txnDigest x.ts x.committed = .ok ss') :
    m ∈ ss'.tsList c ↔ m ∈ ss.tsList c ∨ x.Gives c m := by
  have hzero : x.ts = .zero ↔ x.ts.timestamp = 0 ∧ x.ts.id = 0 := by
    cases x.ts
    simp [Timestamp.zero]
  by_cases h0 : x.ts.timestamp = 0 ∧ x.ts.id = 0
  · rw [addToLocalSnapshot, if_pos h0] at h
    cases h
    simp [Added.Gives, hzero.2 h0]
  · rw [addToLocalSnapshot, if_neg h0, if_pos rfl] at h
    obtain ⟨n, hn, h⟩ := Except.bind_eq_ok.1 h
    have hgives : x.Gives c m ↔ x.committed = c ∧ m = n := by
      simp [Added.Gives, hzero, h0, hn, eq_comm]
    rw [hgives]
    cases hc : x.committed <;> simp only [hc] at h <;> cases h <;> cases c <;>
      simp [LocalSnapshot.tsList]

theorem mem_addAll (h : addAll true ss txns = .ok ss') :
    m ∈ ss'.tsList c ↔ m ∈ ss.tsList c ∨ ∃ x ∈ txns, x.Gives c m := by
  induction txns generalizing ss with
  | nil =>
    cases h
    simp
  | cons x txns ih =>
    rw [addAll, foldlM_cons] at h
    obtain ⟨ss₁, h1, h2⟩ := Except.bind_eq_ok.1 h
    rw [ih h2, mem_addToLocalSnapshot h1]
    simp [or_assoc]

theorem sortUnique_sorted (l : List UInt64) : (sortUnique l).Pairwise (· < ·) := by
  have hsorted : (l.mergeSort (· ≤ ·)).Pairwise fun a b => decide (a ≤ b) = true :=
    pairwise_mergeSort (fun a b c => by simpa using UInt64.le_trans)
      (fun a b => by simpa using UInt64.le_total a b) l
  have hle : (sortUnique l).Pairwise (· ≤ ·) :=
    (hsorted.sublist (destutter_sublist _ _)).imp of_decide_eq_true
  have hne : (sortUnique l).IsChain (· ≠ ·) :=
    (isChain_destutter _ _).imp fun _ _ h => by simpa using h
  exact (Sorting.pairwise_ne_of_isChain (fun _ _ => UInt64.le_antisymm) hle hne).imp
    fun h => UInt64.lt_of_le_of_ne h.1 h.2

theorem mem_sortUnique {l : List UInt64} : m ∈ sortUnique l ↔ m ∈ l := by
  constructor
  · exact fun h => mem_mergeSort.1 ((destutter_sublist _ _).subset h)
  · intro h
    have hm : m ∈ l.mergeSort (· ≤ ·) := mem_mergeSort.2 h
    obtain ⟨n, hn, heq⟩ := Sorting.exists_mem_destutter (fun a => BEq.refl a) hm
    rwa [← eq_of_beq heq]

section Register
variable {opt test : Bool} {table table' init : TsToTx} {d old new : Digest}

theorem registerTxTS_ok (h : registerTxTS opt test table d ts = .ok table') :
    table' = table ∨ ∃ m, mergeTimestampId ts = .ok m ∧ table' = update table m (some d) := by
  unfold registerTxTS at h
  split_ifs at h with hopt
  · cases h
    exact .inl rfl
  · obtain ⟨m, hm, h⟩ := Except.bind_eq_ok.1 h
    refine .inr ⟨m, hm, ?_⟩
    split at h
    · cases h
      rfl
    · split_ifs at h
      cases h
      rfl

theorem registerTxTS_equivocation
    (h : registerTxTS opt test table d ts = .error (.equivocation old new)) :
    new = d ∧ old ≠ d ∧ ∃ m, mergeTimestampId ts = .ok m ∧ table m = some old := by
  unfold registerTxTS at h
  split_ifs at h with hopt
  rcases Except.bind_eq_error.1 h with hm | ⟨m, hm, h⟩
  · unfold mergeTimestampId at hm
    split_ifs at hm <;> cases hm
  · split at h
    · cases h
    · rename_i o ho
      split_ifs at h with hold
      cases h
      exact ⟨rfl, hold.2, m, hm, ho⟩

theorem registered {calls : List (Digest × Timestamp)}
    (h : calls.foldlM (fun table x => registerTxTS opt test table x.1 x.2) init = .ok table)
    (hd : table m = some d) :
    init m = some d ∨ ∃ ts, (d, ts) ∈ calls ∧ mergeTimestampId ts = .ok m := by
  refine foldlM_induct (P := fun table => ∀ d, table m = some d →
    init m = some d ∨ ∃ ts, (d, ts) ∈ calls ∧ mergeTimestampId ts = .ok m) h (fun _ => .inl) ?_ d hd
  intro x hx c c' hc ih d hd
  rcases registerTxTS_ok hc with rfl | ⟨n, hn, rfl⟩
  · exact ih d hd
  · rcases update_eq_some.1 hd with ⟨rfl, hx1⟩ | ⟨-, hc⟩
    · obtain rfl : x.1 = d := Option.some.inj hx1
      exact .inr ⟨x.2, hx, hn⟩
    · exact ih d hc

end Register

/-- **Numbers are ordered as timestamps.** So a sealed list has the timestamps added in strictly
increasing order, and equivocation is reported only for two transactions with one timestamp. -/
theorem timestamps_of_snapshot :
    (∀ ts ts' m m', mergeTimestampId ts = .ok m → mergeTimestampId ts' = .ok m' →
      (m = m' ↔ ts = ts') ∧ (m < m' ↔ ts < ts')) ∧
    (∀ replicaId txns ss, addAll true { replicaId } txns = .ok ss → ∀ committed,
      ∃ l : List UInt64,
        (sealLocalSnapshot true false ss).map (·.tsList committed) = .ok l ∧
        (∀ m, m ∈ l ↔ ∃ x ∈ txns, x.Gives committed m) ∧
        l.Pairwise fun m m' => ∀ ts ts', mergeTimestampId ts = .ok m →
          mergeTimestampId ts' = .ok m' → ts < ts') ∧
    ∀ test genesis calls table d ts old new,
      calls.foldlM (fun table x => registerTxTS true test table x.1 x.2)
        (update (fun _ => none) 0 (some genesis)) = .ok table →
      registerTxTS true test table d ts = .error (.equivocation old new) →
      new = d ∧ old ≠ d ∧ (old, ts) ∈ (genesis, .zero) :: calls := by
  refine ⟨fun ts ts' m m' h h' => ⟨⟨?_, ?_⟩, merged_lt_iff h h'⟩, ?_, ?_⟩
  · rintro rfl
    exact merged_injective h h'
  · rintro rfl
    rw [h] at h'
    exact Except.ok.inj h'
  · intro replicaId txns ss h committed
    refine ⟨sortUnique (ss.tsList committed), ?_, fun m => ?_, ?_⟩
    · cases committed <;> rfl
    · rw [mem_sortUnique, mem_addAll h]
      cases committed <;> simp [LocalSnapshot.tsList]
    · exact (sortUnique_sorted _).imp fun hlt ts ts' h h' => (merged_lt_iff h h').1 hlt
  · intro test genesis calls table d ts old new hcalls h
    obtain ⟨hnew, hold, m, hm, ho⟩ := registerTxTS_equivocation h
    refine ⟨hnew, hold, ?_⟩
    rcases registered hcalls ho with hg | ⟨ts', hmem, hm'⟩
    · rcases update_eq_some.1 hg with ⟨rfl, hg⟩ | ⟨-, hg⟩
      · cases hg
        have h0 : mergeTimestampId .zero = .ok 0 := rfl
        rw [merged_injective hm h0]
        exact mem_cons_self
      · cases hg
    · rw [merged_injective hm hm']
      exact mem_cons_of_mem _ hmem

/-- A transaction added twice, and one before it. -/
theorem timestamps_of_snapshot_twice :
    let txns : List Added :=
      [⟨[1], ⟨8192, 1⟩, true⟩, ⟨[2], ⟨4096, 3⟩, true⟩, ⟨[1], ⟨8192, 1⟩, true⟩]
    let ss : LocalSnapshot := { replicaId := 0, txnsCommittedTs := [8193, 4099, 8193] }
    addAll true { replicaId := 0 } txns = .ok ss ∧
    ∃ l : List UInt64, (sealLocalSnapshot true false ss).map (·.tsList true) = .ok l ∧
      (∀ m, m ∈ l ↔ ∃ x ∈ txns, x.Gives true m) ∧
      l.Pairwise fun m m' => ∀ ts ts', mergeTimestampId ts = .ok m →
        mergeTimestampId ts' = .ok m' → ts < ts' :=
  ⟨rfl, timestamps_of_snapshot.2.1 0 _ _ rfl true⟩

end Sintr.Snapshot
