import Sintr.Data.Params
import Sintr.Lib.Machine
import Sintr.Lib.OrdMap

/-!
# The indexes of concurrency control

A replica keeps the versions that committed transactions wrote and the reads they made, and the
same for transactions that are prepared: checked, but neither committed nor aborted yet. The checks
look only at these indexes. This module has the functions that keep them: `prepare`, `clean`,
`commit` and `abort`.

The query read sets of a transaction are merged before it is checked or committed, and the result is
attached to it (`Transaction.mergedReadSet`). Table versions are not part of these checks.
-/

namespace Sintr.Mvtso

/-! ## Indexes -/

structure Value where
  val : Bytes := []
  proof : Option CommittedProof := none
  deriving DecidableEq

structure PolicyStoreValue where
  policy : Policy
  proof : Option CommittedProof := none

def deletion : Bytes := [100]

/-- A transaction that passed its check, with the reads it was checked with. -/
structure Prepared where
  timestamp : Timestamp
  txn : Transaction
  readSet : List ReadMessage
  deriving DecidableEq

structure Committed where
  txn : Transaction
  proof : Option CommittedProof := none
  deriving DecidableEq

/-- The indexes that the checks look at. -/
structure State where
  store : Key → OrdMap Timestamp Value := fun _ => .empty
  policyStore : Bytes → OrdMap Timestamp PolicyStoreValue := fun _ => .empty
  /-- By the time of the reader and then the version it read; if two proofs have both in common,
  the first one is kept. -/
  committedReads : Key → OrdMap (Timestamp ×ₗ Timestamp) (Option CommittedProof) := fun _ => .empty
  preparedReads : Key → List Transaction := fun _ => []
  preparedWrites : Key → OrdMap Timestamp Transaction := fun _ => .empty
  prepared : Digest → Option Prepared := fun _ => none
  committed : Digest → Option Committed := fun _ => none
  aborted : Digest → Bool := fun _ => false
  crashed : Bool := false

section
variable (env : Env)

/-- What `mergeTxReadSets` hands on: the merged sets if there are any, and the transaction's own
otherwise. -/
def mergedSets (txn : Transaction) : ReadSet :=
  let base : ReadSet := ⟨txn.readSet, txn.deps, txn.readPredicates⟩
  if !env.params.cacheReadSet && env.params.mergeActiveAtClient || txn.querySet.isEmpty then base
  else txn.mergedReadSet.getD base

def ownedRead (r : ReadMessage) : Bool := !r.isTableColVersion && env.keyOwned r.key

/-- A write that takes effect here: of a row of this replica's group, or of a policy. -/
def ownedWrite (txn : Transaction) (w : WriteMessage) : Bool :=
  !w.isTableColVersion && (txn.policyType == .policyIdPolicy || env.keyOwned w.key)

namespace State

/-! ## Prepare and Clean -/

/-- `std::set::insert`. -/
def insertTxn (txn : Transaction) (l : List Transaction) : List Transaction :=
  if txn ∈ l then l else txn :: l

/-- The keys whose readers `Prepare` is added to. -/
def preparedKeys (readSet : List ReadMessage) (policyReads : List (Bytes × Timestamp)) : List Key :=
  (readSet.filter (ownedRead env)).map (·.key) ++ policyReads.map (·.1)

def addPolicyReads (txn : Transaction) (policyReads : List (Bytes × Timestamp)) : Transaction :=
  { txn with implicitPolicyReads := txn.implicitPolicyReads ++
      policyReads.map fun p => { key := p.1, readtime := p.2 } }

/-- `Prepare` up to the table writes, which it leaves to a closure. -/
def prepare (s : State) (d : Digest) (txn : Transaction) (readSet : List ReadMessage)
    (policyReads : List (Bytes × Timestamp)) : State :=
  if (s.prepared d).isSome then s
  else
    let txn := addPolicyReads txn policyReads
    { s with
      prepared := Function.update s.prepared d (some ⟨txn.timestamp, txn, readSet⟩)
      preparedReads := updates
        ((preparedKeys env readSet policyReads).map fun k => (k, insertTxn txn)) s.preparedReads
      preparedWrites := updates ((txn.writeSet.filter (ownedWrite env txn)).map fun w =>
        (w.key, fun m => m.insertNew txn.timestamp txn)) s.preparedWrites }

/-- The closure of `Prepare`: once `ApplyTableWrites` has found the tables with rows of this shard,
their versions are entered as well. -/
def applyTableVersions (s : State) (txn : Transaction) (tables : List Key) : State :=
  { s with
    preparedWrites := updates (tables.map fun table =>
      (table, fun m => m.insertNew txn.timestamp txn)) s.preparedWrites }

/-- The keys whose readers `Clean` removes the transaction from: its own read set, not the merged
one. -/
def cleanedKeys (txn : Transaction) : List Key :=
  (txn.readSet.filter (ownedRead env)).map (·.key) ++ txn.implicitPolicyReads.map (·.key)

def cleanedWrites (txn : Transaction) : List WriteMessage :=
  txn.writeSet.filter fun w => w.isTableColVersion || ownedWrite env txn w

/-- `Clean`: a write is removed by its timestamp, whichever transaction it is of. -/
def clean (s : State) (d : Digest) : State :=
  match s.prepared d with
  | none => s
  | some p =>
    { s with
      prepared := Function.update s.prepared d none
      preparedReads := updates
        ((cleanedKeys env p.txn).map fun k => (k, fun l => l.filter (· ≠ p.txn))) s.preparedReads
      preparedWrites := updates ((cleanedWrites env p.txn).map fun w =>
        (w.key, fun m => m.erase p.timestamp)) s.preparedWrites }

variable {env} {s : State} {d : Digest} {txn : Transaction} {readSet : List ReadMessage}
  {policyReads : List (Bytes × Timestamp)} {k : Key} {p : Prepared}

variable {t : Transaction} {e : Timestamp × Transaction}

theorem mem_insertTxn {l : List Transaction} :
    t ∈ insertTxn txn l ↔ t ∈ l ∨ t = txn := by
  unfold insertTxn
  split_ifs with h
  · exact ⟨.inl, fun ht => ht.elim id (· ▸ h)⟩
  · rw [List.mem_cons, or_comm]

theorem mem_preparedReads_prepare (h : s.prepared d = none) :
    t ∈ (s.prepare env d txn readSet policyReads).preparedReads k ↔
      t ∈ s.preparedReads k ∨
        t = addPolicyReads txn policyReads ∧ k ∈ preparedKeys env readSet policyReads := by
  have hidem : ∀ x l, insertTxn x (insertTxn x l) = insertTxn x l := fun x l => by
    rw [insertTxn, if_pos (mem_insertTxn.2 (.inr rfl))]
  rw [prepare, if_neg (by simp [h])]
  dsimp only
  rw [updates_const (hidem _), List.map_id']
  split_ifs with hk
  · simp [mem_insertTxn, hk]
  · simp [hk]

theorem mem_preparedWrites_prepare (h : s.prepared d = none) :
    e ∈ (s.prepare env d txn readSet policyReads).preparedWrites k ↔
      e ∈ s.preparedWrites k ∨ e = (txn.timestamp, addPolicyReads txn policyReads) ∧
        (∃ w ∈ txn.writeSet, ownedWrite env txn w ∧ w.key = k) ∧
          ∀ t, (txn.timestamp, t) ∉ s.preparedWrites k := by
  rw [prepare, if_neg (by simp [h])]
  dsimp only
  rw [updates_const (OrdMap.insertNew_idem _ _)]
  have hk : k ∈ List.map (·.key) ((addPolicyReads txn policyReads).writeSet.filter
      (ownedWrite env (addPolicyReads txn policyReads))) ↔
      ∃ w ∈ txn.writeSet, ownedWrite env txn w ∧ w.key = k := by
    simp [addPolicyReads, ownedWrite, and_assoc]
  simp only [hk]
  split_ifs with hw
  · simp [OrdMap.mem_insertNew, hw, addPolicyReads]
  · simp [hw]

theorem mem_preparedWrites_applyTableVersions {tables : List Key} :
    e ∈ (s.applyTableVersions txn tables).preparedWrites k ↔
      e ∈ s.preparedWrites k ∨ e = (txn.timestamp, txn) ∧ k ∈ tables ∧
        ∀ t, (txn.timestamp, t) ∉ s.preparedWrites k := by
  unfold applyTableVersions
  dsimp only
  rw [updates_const (OrdMap.insertNew_idem _ _), List.map_id']
  split_ifs with hk
  · simp [OrdMap.mem_insertNew, hk]
  · simp [hk]

theorem mem_preparedReads_clean (h : s.prepared d = some p) :
    t ∈ (s.clean env d).preparedReads k ↔
      t ∈ s.preparedReads k ∧ (t = p.txn → k ∉ cleanedKeys env p.txn) := by
  rw [clean, h]
  dsimp only
  rw [updates_const (fun l => by simp), List.map_id']
  split_ifs with hk
  · simp [hk]
  · simp [hk]

theorem mem_preparedWrites_clean (h : s.prepared d = some p) :
    e ∈ (s.clean env d).preparedWrites k ↔ e ∈ s.preparedWrites k ∧
      (e.1 = p.timestamp → k ∉ (cleanedWrites env p.txn).map (·.key)) := by
  rw [clean, h]
  dsimp only
  rw [updates_const (OrdMap.erase_idem _)]
  split_ifs with hk
  · simp [OrdMap.mem_erase, hk]
  · simp [hk]

variable (env)

/-! ## Commit and Abort -/

/-- `UpdateCommittedReads`: the reads as far as they are known, and the policies. -/
def updateCommittedReads (s : State) (c : Committed) : State :=
  let reads := (mergedSets env c.txn).readSet.filter (ownedRead env) ++ c.txn.implicitPolicyReads
  { s with
    committedReads := updates (reads.map fun r =>
      (r.key, fun m => m.insertNew (toLex (c.txn.timestamp, r.readtime)) c.proof))
        s.committedReads }

/-- The versions `CommitToStore` puts: a write without a value gets the value of the write before
it. -/
def storedValues : List WriteMessage → Bytes → List (Key × Bytes)
  | [], _ => []
  | w :: ws, val =>
    (w.key, w.value.getD val) :: storedValues ws (w.value.getD val)

/-- `CommitToStore`: it stops after the first policy of a governance transaction. Before it puts a
row it asserts that the transaction has its own digest in it. -/
def commitToStore (s : State) (c : Committed) : State :=
  let s := s.updateCommittedReads env c
  let ws := c.txn.writeSet.filter (ownedWrite env c.txn)
  match c.txn.policyType with
  | .none =>
    if !env.params.sqlMode && ws.any (·.value.isNone) ||
        !ws.isEmpty && c.txn.txndigest != some (env.digest c.txn) then { s with crashed := true }
    else
      { s with store := updates ((storedValues ws []).map fun e =>
          (e.1, fun m => m.insertNew c.txn.timestamp ⟨e.2, c.proof⟩)) s.store }
  | .policyIdPolicy =>
    match ws with
    | [] => s
    | w :: _ =>
      let value : PolicyStoreValue := ⟨env.parsePolicy (w.value.getD []), c.proof⟩
      { s with
        policyStore := Function.update s.policyStore w.key
          ((s.policyStore w.key).insertNew c.txn.timestamp value) }

def committedProof (txn : Transaction) (sigs : CertSigs) (view : UInt64) : Option CommittedProof :=
  if !env.params.validateProofs then none
  else if !env.params.signedMessages then some { txn := txn }
  else
    match sigs with
    | .p1 gs => some { txn := txn, sigs := some (.p1 gs) }
    | .p2 gs => some { txn := txn, sigs := some (.p2 gs), p2View := some view }

/-- The common part of `Commit` and `CommitWithProof`. -/
def commit (s : State) (c : Committed) : State :=
  let d := env.digest c.txn
  if (s.committed d).isSome then s
  else
    let s := { s with committed := Function.update s.committed d (some c) }
    (s.commitToStore env c).clean env d

/-- The queries a committed transaction still waited for have arrived (`wakeSubscribedTx`). -/
def wakeCommitted (s : State) (d : Digest) (merged : ReadSet) : State :=
  match s.committed d with
  | none => s
  | some c =>
    if c.txn.mergedReadSet.isSome then s
    else
      let c := { c with txn := { c.txn with mergedReadSet := some merged } }
      { s with committed := Function.update s.committed d (some c) }.updateCommittedReads env c

def abort (s : State) (d : Digest) : State :=
  { s with aborted := Function.update s.aborted d true }.clean env d

end State

end

end Sintr.Mvtso
