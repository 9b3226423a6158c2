import Sintr.Semantic.ReadPred

/-!
# Phantoms, on the writer's side

A transaction that is prepared or committed leaves its read predicates in an index by table and
timestamp. When a transaction with table writes is prepared, `CheckTableWrites` evaluates the
predicates of the readers above its timestamp on the rows that it writes. A row that a reader has
in its read set is left to the ordinary check; but the read set that is looked in is the base read
set if the reader has a merged one, and the (empty) merged one if it has not.

* `checkTableWrites_cases`: what a vote says about each row and each predicate.
-/

namespace Sintr.Semantic

/-! ## Readers -/

structure MergedReadSet where
  readSet : List ReadMessage
  readPredicates : List Predicate
  deriving DecidableEq, Repr

structure RecordedTxn extends WriteTxn where
  readSet : List ReadMessage
  readPredicates : List Predicate
  mergedReadSet : Option MergedReadSet
  querySet : List Digest
  deriving DecidableEq, Repr

structure PredEntry where
  txn : RecordedTxn
  committed : Bool
  deriving DecidableEq, Repr

abbrev TablePredicateMap := Bytes → Option (OrdMap Timestamp PredEntry)

structure QueryParams where
  cacheReadSet : Bool
  mergeActiveAtClient : Bool
  deriving DecidableEq, Repr

section Readers
variable (params : QueryParams)

/-- The predicates that `CheckTableWrites` evaluates: those of the merged read set if replicas
merge. -/
def RecordedTxn.checkedPreds (txn : RecordedTxn) : List Predicate :=
  if params.cacheReadSet || !params.mergeActiveAtClient then
    match txn.mergedReadSet with
    | some merged => merged.readPredicates
    | none => txn.readPredicates
  else txn.readPredicates

def RecordedTxn.recordedPreds (txn : RecordedTxn) : List Predicate :=
  if txn.querySet = [] then txn.readPredicates else txn.checkedPreds params

structure SemanticState where
  tablePredicates : TablePredicateMap := fun _ => none
  tableWrites : TableWriteMap := fun _ => none

def recordAt {V : Type} (ts : Timestamp) (e : V) (index : Bytes → Option (OrdMap Timestamp V))
    (table : Bytes) : Bytes → Option (OrdMap Timestamp V) :=
  Function.update index table (some (((index table).getD OrdMap.empty).set ts e))

/-- `RecordReadPredicatesAndWrites`; the process stops at a timestamp that cannot be one. -/
def recordReadPredicatesAndWrites (s : SemanticState) (txn : RecordedTxn) (ts : Timestamp)
    (committed : Bool) : Option SemanticState :=
  if ts.timestamp ≤ 10000 then none
  else some
    { tablePredicates := ((txn.recordedPreds params).map (·.tableName)).foldl
        (recordAt ts ⟨txn, committed⟩) s.tablePredicates
      tableWrites := (txn.tableWrites.map (·.1)).foldl
        (recordAt ts ⟨some txn.toWriteTxn, committed⟩) s.tableWrites }

end Readers

/-! ## The check -/

/-- The read set in which the check looks for a row's key: the wrong one of the two. -/
def RecordedTxn.skippedReads (txn : RecordedTxn) : List ReadMessage :=
  match txn.mergedReadSet with
  | some _ => txn.readSet
  -- the merged read set of a transaction that has none is empty
  | none => []

section Check
variable (env : PredEnv) (params : QueryParams) (txn : WriteTxn) (txnTs : Timestamp)
  (table : Bytes)

/-- A predicate of a reader on a row. That of another table is skipped, and one that was evaluated
on a table version that this transaction wrote. -/
def checkPred (row : TableRow) (pred : Predicate) : Except Halt Unit :=
  if table ≠ pred.tableName then .ok ()
  else if txnTs = pred.tableVersion then .ok ()
  else pred.predInstances.foldlM (fun _ i => evalInstance env pred row.update i) ()

def checkWrittenKey (reader : RecordedTxn) (row : TableRow) (key : Key) : Except Halt Unit :=
  if env.keyOwned key = false then .ok ()
  else if ∃ r ∈ reader.skippedReads, r.key = key then .ok ()
  else if reader.querySet = [] then .error .panic
  else (reader.checkedPreds params).foldlM (fun _ pred => checkPred env txnTs table row pred) ()

def checkWrittenRow (reader : RecordedTxn) (row : TableRow) : Except Halt Unit :=
  if row.update.deletion = some true then .ok ()
  else getEncodedRow txn row >>= checkWrittenKey env params txnTs table reader row

/-- `CheckTableWrites`: the vote, unless the process stops. -/
def checkTableWrites (tablePredicates : TablePredicateMap) (rows : List TableRow) :
    Option CCResult :=
  match tablePredicates table with
  | none => some .commit
  | some preds =>
    match (preds.upFrom txnTs).foldlM (fun _ x => rows.foldlM (fun _ row =>
        checkWrittenRow env params txn txnTs table x.2.txn row) ()) () with
    | .ok _ => some .commit
    | .error .abstain => some .abstain
    | .error .panic => none

end Check

/-! ## Recorded readers -/

theorem mem_recordAt {V : Type} {ts : Timestamp} {e : V} {tables : List Bytes}
    {index : Bytes → Option (OrdMap Timestamp V)} {table : Bytes} (h : table ∈ tables) :
    ∃ m, tables.foldl (recordAt ts e) index table = some m ∧ (ts, e) ∈ m := by
  have hkeep : ∀ (tables : List Bytes) (index : Bytes → Option (OrdMap Timestamp V)),
      (∃ m, index table = some m ∧ (ts, e) ∈ m) →
      ∃ m, tables.foldl (recordAt ts e) index table = some m ∧ (ts, e) ∈ m := by
    intro tables
    induction tables with
    | nil => exact fun index h => h
    | cons t tables ih =>
      rintro index ⟨m, hm, hmem⟩
      refine ih _ ?_
      by_cases heq : table = t
      · subst heq
        exact ⟨_, Function.update_self _ _ _, OrdMap.mem_set_self _ _ _⟩
      · exact ⟨m, by rw [recordAt, Function.update_of_ne heq, hm], hmem⟩
  induction tables generalizing index with
  | nil => cases h
  | cons t tables ih =>
    rcases List.mem_cons.1 h with rfl | h
    · exact hkeep tables _ ⟨_, Function.update_self _ _ _, OrdMap.mem_set_self _ _ _⟩
    · exact ih h

theorem mem_recorded {params : QueryParams} {s s' : SemanticState} {txn : RecordedTxn}
    {ts : Timestamp} {committed : Bool}
    (h : recordReadPredicatesAndWrites params s txn ts committed = some s') {pred : Predicate}
    (hpred : pred ∈ txn.recordedPreds params) :
    ∃ preds, s'.tablePredicates pred.tableName = some preds ∧ (ts, ⟨txn, committed⟩) ∈ preds := by
  unfold recordReadPredicatesAndWrites at h
  split_ifs at h
  cases h
  exact mem_recordAt (List.mem_map.2 ⟨pred, hpred, rfl⟩)

/-! ## Votes -/

section Votes
variable {env : PredEnv} {params : QueryParams} {txn : WriteTxn} {txnTs : Timestamp}
  {table : Bytes} {reader : RecordedTxn} {row : TableRow} {pred : Predicate}

/-- The check compares this predicate of `reader` with rows of the table. -/
structure Compared (txnTs : Timestamp) (table : Bytes) (reader : RecordedTxn)
    (params : QueryParams) (pred : Predicate) : Prop where
  mem : pred ∈ reader.checkedPreds params
  table : pred.tableName = table
  version : pred.tableVersion ≠ txnTs

/-- The row is written, not deleted, and its key is of this shard. -/
structure Exposed (env : PredEnv) (txn : WriteTxn) (row : TableRow) (key : Key) : Prop where
  written : row.update.deletion ≠ some true
  encoded : getEncodedRow txn row = .ok key
  owned : env.keyOwned key = true

theorem evalInstance_ok {row : RowUpdates} {i : Bytes} (h : evalInstance env pred row i = .ok ()) :
    env.evaluatePred i row pred.tableName = some false := by
  unfold evalInstance at h
  split at h
  · cases h
  · cases h
  · assumption

theorem evalInstance_abstain {row : RowUpdates} {i : Bytes}
    (h : evalInstance env pred row i = .error .abstain) :
    env.evaluatePred i row pred.tableName = some true := by
  unfold evalInstance at h
  split at h
  · cases h
  · assumption
  · cases h

variable {key : Key}

theorem checkWrittenRow_ok (h : checkWrittenRow env params txn txnTs table reader row = .ok ())
    (hrow : Exposed env txn row key) (hread : ∀ r ∈ reader.skippedReads, r.key ≠ key)
    (hpred : Compared txnTs table reader params pred) :
    ∀ i ∈ pred.predInstances, env.evaluatePred i row.update table = some false := by
  have hskip : ¬ ∃ r ∈ reader.skippedReads, r.key = key := fun ⟨r, hr, hkey⟩ => hread r hr hkey
  have howned : ¬ env.keyOwned key = false := by simp [hrow.owned]
  rw [checkWrittenRow, if_neg hrow.written, hrow.encoded] at h
  replace h : checkWrittenKey env params txnTs table reader row key = .ok () := h
  unfold checkWrittenKey at h
  split_ifs at h
  obtain ⟨_, _, hcheck⟩ := foldlM_ok h pred hpred.mem
  rw [checkPred, if_neg (by simp [hpred.table]), if_neg (Ne.symm hpred.version)] at hcheck
  intro i hi
  obtain ⟨_, _, heval⟩ := foldlM_ok hcheck i hi
  rw [← hpred.table]
  exact evalInstance_ok heval

theorem getEncodedRow_ne_abstain (txn : WriteTxn) (row : TableRow) :
    getEncodedRow txn row ≠ .error .abstain := by
  intro h
  unfold getEncodedRow at h
  split_ifs at h
  · cases h
  · split at h
    · cases h
    · cases h

theorem checkWrittenRow_abstain
    (h : checkWrittenRow env params txn txnTs table reader row = .error .abstain) :
    ∃ key, Exposed env txn row key ∧ (∀ r ∈ reader.skippedReads, r.key ≠ key) ∧
      ∃ pred, Compared txnTs table reader params pred ∧
        ∃ i ∈ pred.predInstances, env.evaluatePred i row.update table = some true := by
  unfold checkWrittenRow at h
  split_ifs at h with hdel
  rcases Except.bind_eq_error.1 h with hkey | ⟨key, hkey, h⟩
  · exact absurd hkey (getEncodedRow_ne_abstain txn row)
  · unfold checkWrittenKey at h
    split_ifs at h with howned hskip hquery
    · cases h
    · refine ⟨key, ⟨hdel, hkey, by simpa using howned⟩, fun r hr heq => hskip ⟨r, hr, heq⟩, ?_⟩
      obtain ⟨pred, hpred, _, hcheck⟩ := foldlM_error h
      unfold checkPred at hcheck
      split_ifs at hcheck with htable hversion
      obtain ⟨i, hi, _, heval⟩ := foldlM_error hcheck
      have heq : pred.tableName = table := (not_not.1 htable).symm
      refine ⟨pred, ⟨hpred, heq, fun heq => hversion heq.symm⟩, i, hi, ?_⟩
      rw [← heq]
      exact evalInstance_abstain heval

theorem checkTableWrites_cases {tablePredicates : TablePredicateMap} {rows : List TableRow}
    {preds : OrdMap Timestamp PredEntry} {vote : CCResult}
    (hfind : tablePredicates table = some preds)
    (h : checkTableWrites env params txn txnTs table tablePredicates rows = some vote) :
    (vote = .commit ∧ ∀ x ∈ preds, txnTs < x.1 → ∀ row ∈ rows,
      checkWrittenRow env params txn txnTs table x.2.txn row = .ok ()) ∨
    (vote = .abstain ∧ ∃ x ∈ preds, txnTs < x.1 ∧ ∃ row ∈ rows,
      checkWrittenRow env params txn txnTs table x.2.txn row = .error .abstain) := by
  unfold checkTableWrites at h
  simp only [hfind] at h
  split at h
  · rename_i hloop
    cases h
    refine .inl ⟨rfl, fun x hx hlt row hrow => ?_⟩
    obtain ⟨_, _, hrows⟩ := foldlM_ok hloop x (OrdMap.mem_upFrom.2 ⟨hx, hlt⟩)
    obtain ⟨_, _, hcheck⟩ := foldlM_ok hrows row hrow
    exact hcheck
  · rename_i hloop
    cases h
    obtain ⟨x, hx, _, hrows⟩ := foldlM_error hloop
    obtain ⟨row, hrow, _, hcheck⟩ := foldlM_error hrows
    obtain ⟨hmem, hlt⟩ := OrdMap.mem_upFrom.1 hx
    exact .inr ⟨rfl, x, hmem, hlt, row, hrow, hcheck⟩
  · cases h

/-! ## Phantoms -/

def RecordedTxn.effectiveReads (txn : RecordedTxn) : List ReadMessage :=
  match txn.mergedReadSet with
  | some merged => merged.readSet
  | none => txn.readSet

def RecordedTxn.Reads (reader : RecordedTxn) (key : Key) : Prop := ∃ r ∈ reader.readSet, r.key = key

def RecordedTxn.MergedReads (reader : RecordedTxn) (key : Key) : Prop :=
  ∃ merged, reader.mergedReadSet = some merged ∧ ∃ r ∈ merged.readSet, r.key = key

theorem RecordedTxn.Reads.of_skipped {reader : RecordedTxn}
    (h : ∃ r ∈ reader.skippedReads, r.key = key) : reader.Reads key := by
  unfold RecordedTxn.skippedReads at h
  split at h
  · exact h
  · obtain ⟨r, hr, -⟩ := h
    cases hr

/-- **No phantoms.** If the check lets a transaction commit, no row that it writes satisfies a
predicate of a later reader that has not read the row, unless the predicate was evaluated on this
table version. A row in both read sets of a reader is never the reason for an ABSTAIN. -/
theorem checkTableWrites_noPhantom {tablePredicates : TablePredicateMap} {rows : List TableRow}
    {preds : OrdMap Timestamp PredEntry} {vote : CCResult}
    (hfind : tablePredicates table = some preds)
    (h : checkTableWrites env params txn txnTs table tablePredicates rows = some vote) :
    (vote = .commit ∧ ∀ ts reader committed, (ts, ⟨reader, committed⟩) ∈ preds → txnTs < ts →
      ∀ row ∈ rows, ∀ key, Exposed env txn row key → ¬ reader.Reads key →
        ¬ reader.MergedReads key → ∀ pred, Compared txnTs table reader params pred →
          ∀ i ∈ pred.predInstances, env.evaluatePred i row.update table = some false) ∨
    (vote = .abstain ∧ ∃ ts reader committed, (ts, ⟨reader, committed⟩) ∈ preds ∧ txnTs < ts ∧
      ∃ row ∈ rows, ∃ key, Exposed env txn row key ∧
        ¬ (reader.Reads key ∧ reader.MergedReads key) ∧
        ∃ pred, Compared txnTs table reader params pred ∧
          ∃ i ∈ pred.predInstances, env.evaluatePred i row.update table = some true) := by
  rcases checkTableWrites_cases hfind h with ⟨hvote, hpass⟩ | ⟨hvote, x, hx, hlt, row, hrow, hstop⟩
  · refine .inl ⟨hvote, fun ts reader committed hmem hlt row hrow key hkey hbase _ pred hpred => ?_⟩
    refine checkWrittenRow_ok (hpass (ts, ⟨reader, committed⟩) hmem hlt row hrow) hkey ?_ hpred
    exact fun r hr heq => hbase (.of_skipped ⟨r, hr, heq⟩)
  · obtain ⟨key, hkey, hskip, hpred⟩ := checkWrittenRow_abstain hstop
    refine .inr ⟨hvote, x.1, x.2.txn, x.2.committed, hx, hlt, row, hrow, key, hkey, ?_, hpred⟩
    rintro ⟨⟨r, hr, heq⟩, merged, hsome, -⟩
    exact hskip r (by rwa [RecordedTxn.skippedReads, hsome]) heq

end Votes

/-! ### Runs -/

namespace Sample

def writer (value : Bytes) : WriteTxn :=
  ⟨some [50], [[7]], [([116], [⟨{ columnValues := [value] }, 0⟩])]⟩

def reads (keys : List Key) : List ReadMessage := keys.map fun k => { key := k }

def oneQuery (version : Timestamp) (base : List Key) (merged : Option (List Key)) :
    RecordedTxn where
  txndigest := some [60]
  writeSet := []
  tableWrites := []
  readSet := reads base
  readPredicates := [⟨[116], version, [[120]]⟩]
  mergedReadSet := merged.map fun keys => ⟨reads keys, [⟨[116], version, [[120]]⟩]⟩
  querySet := [[70]]

def indexed (txn : RecordedTxn) : TablePredicateMap :=
  ((recordReadPredicatesAndWrites ⟨true, true⟩ {} txn (time 20 0) false).getD {}).tablePredicates

def vote (txn : RecordedTxn) (value : Bytes) : Option CCResult :=
  checkTableWrites (env 5 20) ⟨true, true⟩ (writer value) (time 10 0) [116] (indexed txn)
    [⟨{ columnValues := [value] }, 0⟩]

end Sample

open Sample in
theorem checkTableWrites_noPhantom_unread :
    vote (oneQuery (time 5 0) [] (some [[8]])) [0] = some .commit ∧
      (env 5 20).evaluatePred [120] { columnValues := [[0]] } [116] = some false := by
  have hvote : vote (oneQuery (time 5 0) [] (some [[8]])) [0] = some .commit := by decide +kernel
  have hrecord : recordReadPredicatesAndWrites ⟨true, true⟩ {}
      (oneQuery (time 5 0) [] (some [[8]])) (time 20 0) false = some _ :=
    if_neg (by decide +kernel)
  have hlate : (⟨[116], time 5 0, [[120]]⟩ : Predicate) ∈
      (oneQuery (time 5 0) [] (some [[8]])).recordedPreds ⟨true, true⟩ := by decide +kernel
  obtain ⟨preds, hfind, hmem⟩ := mem_recorded hrecord hlate
  have hindex : indexed (oneQuery (time 5 0) [] (some [[8]])) [116] = some preds := by
    rw [indexed, hrecord]
    exact hfind
  refine ⟨hvote, ?_⟩
  obtain ⟨-, hnone⟩ | ⟨habstain, -⟩ := checkTableWrites_noPhantom hindex hvote
  · refine hnone (time 20 0) _ false hmem (by decide +kernel) _ List.mem_cons_self [7]
      ⟨by decide, rfl, rfl⟩ ?_ ?_ ⟨[116], time 5 0, [[120]]⟩ ⟨by decide +kernel, rfl, ?_⟩ [120]
      List.mem_cons_self
    · rintro ⟨r, hr, -⟩
      cases hr
    · rintro ⟨merged, hmerged, r, hr, heq⟩
      cases hmerged
      rw [List.mem_singleton.1 hr] at heq
      cases heq
    · decide +kernel
  · cases habstain

open Sample in
/-- A predicate that was evaluated on the table version of the writer is not looked at. The other
votes take the wrong one of the two read sets. -/
theorem checkTableWrites_wrongReads :
    let has := fun (txn : RecordedTxn) => txn.effectiveReads.any (·.key = [7])
    (env 5 20).evaluatePred [120] { columnValues := [[1]] } [116] = some true ∧
    (vote (oneQuery (time 10 0) [] none) [1] = some .commit ∧
      has (oneQuery (time 10 0) [] none) = false) ∧
    (vote (oneQuery (time 5 0) [] (some [[7]])) [1] = some .abstain ∧
      has (oneQuery (time 5 0) [] (some [[7]])) = true) ∧
    (vote (oneQuery (time 5 0) [[7]] none) [1] = some .abstain ∧
      has (oneQuery (time 5 0) [[7]] none) = true) ∧
    (vote (oneQuery (time 5 0) [[7]] (some [])) [1] = some .commit ∧
      has (oneQuery (time 5 0) [[7]] (some [])) = false) := by
  decide +kernel

end Sintr.Semantic
