import Mathlib.Algebra.Group.Nat.Defs
import Mathlib.Data.List.AList
import Sintr.Data.Types
import Sintr.Lib.ExceptFold
import Sintr.Lib.OrdMap

/-!
# Phantoms, on the reader's side

A transaction that scanned a table keeps the predicate of its scan and the version of the table it
saw. When it is prepared, `CheckReadPred` goes through the writes on the table that are recorded
below its timestamp, newest first, and looks for a row that the scan should have returned. Only the
newest write of a row counts; if that one is prepared and there is another one below it, the reader
has to wait for its transaction.
-/

namespace Sintr.Semantic

open List

/-! ## Microseconds -/

/-- `TStoUS`: a timestamp counts seconds in its upper half and microseconds from bit 12. -/
def tsToUS (t : UInt64) : UInt64 :=
  let second : UInt64 := t >>> 32
  let microsecond : UInt64 := (t - (second <<< 32)) >>> 12
  second * 1000 * 1000 + microsecond

def us (t : UInt64) : Nat := t.toNat / 2 ^ 32 * 1000000 + t.toNat % 2 ^ 32 / 2 ^ 12

/-- The part below the seconds is less than a second, as `UStoTS` makes it. -/
def WellTimed (t : Timestamp) : Prop := t.timestamp.toNat % 2 ^ 32 / 2 ^ 12 < 1000000
deriving Decidable

theorem us_lt (t : UInt64) : us t < 2 ^ 52 := by
  have ht := t.toNat_lt
  unfold us
  omega

theorem tsToUS_toNat (t : UInt64) : (tsToUS t).toNat = us t := by
  have ht := t.toNat_lt
  have hs : (t >>> 32).toNat = t.toNat / 2 ^ 32 := by
    simp [UInt64.toNat_shiftRight, Nat.shiftRight_eq_div_pow]
  have hl : ((t >>> 32) <<< 32).toNat = t.toNat / 2 ^ 32 * 2 ^ 32 := by
    rw [UInt64.toNat_shiftLeft, hs]
    simp only [UInt64.reduceToNat, Nat.reduceMod, Nat.shiftLeft_eq]
    omega
  have hsub : (t - ((t >>> 32) <<< 32)).toNat = t.toNat % 2 ^ 32 := by
    rw [UInt64.toNat_sub_of_le, hl]
    · omega
    · rw [UInt64.le_iff_toNat_le, hl]
      omega
  have hu : ((t - ((t >>> 32) <<< 32)) >>> 12).toNat = t.toNat % 2 ^ 32 / 2 ^ 12 := by
    rw [UInt64.toNat_shiftRight, hsub]
    simp [Nat.shiftRight_eq_div_pow]
  unfold tsToUS us
  rw [UInt64.toNat_add, UInt64.toNat_mul, UInt64.toNat_mul, hs, hu]
  simp only [UInt64.reduceToNat]
  omega

theorem us_mono {s t : Timestamp} (hs : WellTimed s) (h : s < t) :
    us s.timestamp ≤ us t.timestamp := by
  have hle : s.timestamp.toNat ≤ t.timestamp.toNat := by
    rcases Timestamp.lt_iff.1 h with h | ⟨h, -⟩
    · exact le_of_lt (UInt64.lt_iff_toNat_lt.1 h)
    · rw [h]
  unfold WellTimed at hs
  unfold us
  omega

/-! ## Table writes -/

structure TableRow where
  update : RowUpdates
  writeSetIdx : Int
  deriving DecidableEq, Repr

structure WriteTxn where
  txndigest : Option Digest
  writeSet : List Key
  tableWrites : List (Bytes × List TableRow)
  deriving DecidableEq, Repr

structure TableEntry where
  txn : Option WriteTxn
  committed : Bool
  deriving DecidableEq, Repr

abbrev TableWriteMap := Bytes → Option (OrdMap Timestamp TableEntry)

structure Predicate where
  tableName : Bytes
  tableVersion : Timestamp
  predInstances : List Bytes
  deriving DecidableEq, Repr

structure PredEnv where
  keyOwned : Key → Bool
  /-- `EvaluatePred`: whether a row of a table satisfies a condition, if it can be evaluated. -/
  evaluatePred : Bytes → RowUpdates → Bytes → Option Bool
  monotonicityGrace : UInt64
  nonMonotonicityGrace : UInt64
  /-- The transactions that were prepared although they are older than the first grace. -/
  nonMonotonicWrites : Digest → Bool

/-- How the check ends early: the process stops, or there is a conflict. -/
inductive Halt where
  | panic
  | abstain
  deriving DecidableEq, Repr

structure RowWrite where
  key : Key
  row : RowUpdates
  digest : Digest
  committed : Bool
  deriving DecidableEq, Repr

def getEncodedRow (txn : WriteTxn) (row : TableRow) : Except Halt Key :=
  if row.writeSetIdx < 0 then .error .panic
  else match txn.writeSet[row.writeSetIdx.toNat]? with
    | none => .error .panic
    | some key => .ok key

/-! ## The check -/

/-- `dynamic_dep_candidates` (whether active, and of which transaction) and
`dynamically_active_keys`. -/
structure Scan where
  candidates : AList fun _ : Key => Bool × Digest := ∅
  activeKeys : List Key := []

section Check
variable (env : PredEnv) (pred : Predicate) (readSet : List ReadMessage)

def evalInstance (row : RowUpdates) (inst : Bytes) : Except Halt Unit :=
  match env.evaluatePred inst row pred.tableName with
  | none => .error .panic
  | some true => .error .abstain
  | some false => .ok ()

def evalRow (row : RowUpdates) : Except Halt Unit :=
  if row.deletion = some true then .ok ()
  else pred.predInstances.foldlM (fun _ i => evalInstance env pred row i) ()

def Scan.note (s : Scan) (w : RowWrite) : Scan where
  candidates := if w.committed then s.candidates.erase w.key
    else s.candidates.insert w.key (false, w.digest)
  activeKeys := w.key :: s.activeKeys

/-- One row. The candidates are looked at with `lazy_check` on: an older write of the key makes a
candidate active, whatever it writes. -/
def checkRow (s : Scan) (w : RowWrite) : Except Halt Scan :=
  if env.keyOwned w.key = false then .ok s
  else match s.candidates.lookup w.key with
    | some (true, _) => .ok s
    | some (false, d) => .ok { s with candidates := s.candidates.insert w.key (true, d) }
    | none =>
      if w.key ∈ s.activeKeys ∨ ∃ r ∈ readSet, r.key = w.key then .ok s
      else evalRow env pred w.row >>= fun _ => .ok (s.note w)

def checkRows (txn : WriteTxn) (digest : Digest) (committed : Bool) (rows : List TableRow)
    (s : Scan) : Except Halt Scan :=
  rows.foldlM (fun s row => getEncodedRow txn row >>= fun key =>
    checkRow env pred readSet s ⟨key, row.update, digest, committed⟩) s

/-- Older than the table version by more than `grace` milliseconds. -/
def beyond (grace : UInt64) (t : Timestamp) : Bool :=
  decide (tsToUS t.timestamp + grace * 1000 < tsToUS pred.tableVersion.timestamp)

def scanEntries : List (Timestamp × TableEntry) → Scan → Except Halt Scan
  | [], s => .ok s
  | (t, e) :: rest, s =>
    if t.timestamp ≤ 10000 then .error .panic
    else if t = pred.tableVersion then scanEntries rest s
    else if beyond pred (env.monotonicityGrace + env.nonMonotonicityGrace) t then .ok s
    else match e.txn with
      | none => .error .panic
      | some txn => match txn.txndigest with
        | none => .error .panic
        | some digest =>
          if beyond pred env.monotonicityGrace t ∧ env.nonMonotonicWrites digest = false then
            scanEntries rest s
          else match txn.tableWrites.lookup pred.tableName with
            | none => .error .panic
            | some rows =>
              checkRows env pred readSet txn digest e.committed rows s >>= scanEntries rest

def Scan.active (s : Scan) : List Digest :=
  s.candidates.entries.filterMap fun c => if c.2.1 then some c.2.2 else none

/-- `CheckReadPred`: the vote and the dynamic dependencies, unless the process stops. -/
def checkReadPred (tableWrites : TableWriteMap) (txnTs : Timestamp) (deps : List Digest) :
    Option (CCResult × List Digest) :=
  if pred.predInstances = [] then none
  else match tableWrites pred.tableName with
    | none => some (.commit, deps)
    | some writes =>
      match scanEntries env pred readSet (writes.downFrom txnTs) {} with
      | .ok s => some (.commit, s.active ∪ deps)
      | .error .abstain => some (.abstain, deps)
      | .error .panic => none

end Check

/-! ## What the loop compares -/

def TableEntry.digest (e : TableEntry) : Option Digest := e.txn.bind (·.txndigest)

def WriteTxn.rowWrites (txn : WriteTxn) (digest : Digest) (committed : Bool)
    (rows : List TableRow) : List RowWrite :=
  rows.filterMap fun row =>
    (getEncodedRow txn row).toOption.map fun key => ⟨key, row.update, digest, committed⟩

def TableEntry.rowWrites (e : TableEntry) (table : Bytes) : List RowWrite :=
  match e.txn with
  | none => []
  | some txn => match txn.txndigest with
    | none => []
    | some digest => match txn.tableWrites.lookup table with
      | none => []
      | some rows => txn.rowWrites digest e.committed rows

section Compared
variable (env : PredEnv) (pred : Predicate)

def goesOn (x : Timestamp × TableEntry) : Bool :=
  decide (x.1 = pred.tableVersion) ||
    !beyond pred (env.monotonicityGrace + env.nonMonotonicityGrace) x.1

def relevant (x : Timestamp × TableEntry) : Bool :=
  decide (x.1 ≠ pred.tableVersion) &&
    (!beyond pred env.monotonicityGrace x.1 || x.2.digest.any env.nonMonotonicWrites)

def entryRows (x : Timestamp × TableEntry) : List RowWrite :=
  if relevant env pred x then x.2.rowWrites pred.tableName else []

def compared (entries : List (Timestamp × TableEntry)) : List RowWrite :=
  (entries.takeWhile (goesOn env pred)).flatMap (entryRows env pred)

variable {env pred} {readSet : List ReadMessage}

theorem checkRows_ok {txn : WriteTxn} {digest : Digest} {committed : Bool} {rows : List TableRow}
    {s s' : Scan} (h : checkRows env pred readSet txn digest committed rows s = .ok s') :
    (txn.rowWrites digest committed rows).foldlM (checkRow env pred readSet) s = .ok s' := by
  induction rows generalizing s with
  | nil => exact h
  | cons row rows ih =>
    rw [checkRows, foldlM_cons, Except.bind_eq_ok] at h
    obtain ⟨s₁, h₁, h⟩ := h
    obtain ⟨key, hkey, h₁⟩ := Except.bind_eq_ok.1 h₁
    have hrow : txn.rowWrites digest committed (row :: rows) =
        ⟨key, row.update, digest, committed⟩ :: txn.rowWrites digest committed rows := by
      simp [WriteTxn.rowWrites, hkey, Except.toOption]
    rw [hrow, foldlM_cons, h₁]
    exact ih h

theorem scanEntries_ok {entries : List (Timestamp × TableEntry)} {s s' : Scan}
    (h : scanEntries env pred readSet entries s = .ok s') :
    (compared env pred entries).foldlM (checkRow env pred readSet) s = .ok s' := by
  induction entries generalizing s with
  | nil => exact h
  | cons x rest ih =>
    obtain ⟨t, e⟩ := x
    unfold scanEntries at h
    split_ifs at h with h1 h2 h3
    · -- the table version itself
      have hgo : goesOn env pred (t, e) = true := by simp [goesOn, h2]
      have hrows : entryRows env pred (t, e) = [] := by simp [entryRows, relevant, h2]
      rw [compared, takeWhile_cons_of_pos hgo, flatMap_cons, hrows]
      exact ih h
    · have hgo : ¬ goesOn env pred (t, e) = true := by simp [goesOn, h2, h3]
      rw [compared, takeWhile_cons_of_neg hgo]
      exact h
    · have hgo : goesOn env pred (t, e) = true := by simp [goesOn, h3]
      rw [compared, takeWhile_cons_of_pos hgo, flatMap_cons]
      cases htxn : e.txn with
      | none =>
        simp only [htxn] at h
        cases h
      | some txn =>
        simp only [htxn] at h
        cases hdigest : txn.txndigest with
        | none =>
          simp only [hdigest] at h
          cases h
        | some digest =>
          simp only [hdigest] at h
          have hd : e.digest = some digest := by simp [TableEntry.digest, htxn, hdigest]
          split_ifs at h with h4
          · have hrows : entryRows env pred (t, e) = [] := by
              simp [entryRows, relevant, hd, h4.1, h4.2]
            rw [hrows]
            exact ih h
          · have hrel : relevant env pred (t, e) = true := by
              rw [not_and_or, Bool.not_eq_true, Bool.not_eq_false] at h4
              simpa [relevant, hd, h2] using h4
            cases hlook : txn.tableWrites.lookup pred.tableName with
            | none =>
              simp only [hlook] at h
              cases h
            | some rows =>
              simp only [hlook] at h
              obtain ⟨s₁, h₁, h⟩ := Except.bind_eq_ok.1 h
              have hrows : entryRows env pred (t, e) =
                  txn.rowWrites digest e.committed rows := by
                simp [entryRows, hrel, TableEntry.rowWrites, htxn, hdigest, hlook]
              rw [hrows, foldlM_append, checkRows_ok h₁]
              exact ih h

end Compared

/-! ## What the loop knows -/

/-- What is noted of a key whose writes were seen in this order. -/
def noted : List RowWrite → Option (Bool × Digest)
  | [] => none
  | w :: older => if w.committed then none else some (!older.isEmpty, w.digest)

def ofKey (k : Key) (ws : List RowWrite) : List RowWrite := ws.filter (·.key = k)

/-- The state of the loop at a key, after the writes `ws`: the newest one was compared, and the
others can only have made it a dependency. -/
structure Scan.Knows (env : PredEnv) (pred : Predicate) (ws : List RowWrite) (k : Key)
    (s : Scan) : Prop where
  candidate : s.candidates.lookup k = noted (ofKey k ws)
  active : k ∈ s.activeKeys ↔ ofKey k ws ≠ []
  compared : ∀ w ∈ (ofKey k ws).head?, evalRow env pred w.row = .ok ()

section Knows
variable {env : PredEnv} {pred : Predicate} {readSet : List ReadMessage}

theorem Scan.knows_nil (k : Key) : Scan.Knows env pred [] k {} where
  candidate := rfl
  active := by simp [ofKey]
  compared w hw := by cases hw

variable {k : Key} {s s' : Scan} {w : RowWrite} {ws : List RowWrite}

theorem checkRow_frame (hk : k ≠ w.key) (h : checkRow env pred readSet s w = .ok s') :
    s'.candidates.lookup k = s.candidates.lookup k ∧ (k ∈ s'.activeKeys ↔ k ∈ s.activeKeys) := by
  unfold checkRow at h
  by_cases howned : env.keyOwned w.key = false
  · rw [if_pos howned] at h
    cases h
    exact ⟨rfl, Iff.rfl⟩
  · rw [if_neg howned] at h
    split at h
    · cases h
      exact ⟨rfl, Iff.rfl⟩
    · cases h
      exact ⟨AList.lookup_insert_ne hk, Iff.rfl⟩
    · split_ifs at h with hseen
      · cases h
        exact ⟨rfl, Iff.rfl⟩
      · obtain ⟨-, -, h⟩ := Except.bind_eq_ok.1 h
        cases h
        refine ⟨?_, by simp [Scan.note, hk]⟩
        unfold Scan.note
        split_ifs
        · exact AList.lookup_erase_ne hk
        · exact AList.lookup_insert_ne hk

theorem Scan.Knows.row (howned : env.keyOwned k = true) (hread : ∀ r ∈ readSet, r.key ≠ k)
    (h : checkRow env pred readSet s w = .ok s') (hs : s.Knows env pred ws k) :
    s'.Knows env pred (ws ++ [w]) k := by
  by_cases hk : k = w.key
  · subst hk
    have hof : ofKey w.key (ws ++ [w]) = ofKey w.key ws ++ [w] := by simp [ofKey]
    have hunread : ¬ ∃ r ∈ readSet, r.key = w.key := by
      rintro ⟨r, hr, hrk⟩
      exact hread r hr hrk
    unfold checkRow at h
    simp only [howned, Bool.true_eq_false, if_false, hs.candidate, hunread, or_false,
      hs.active] at h
    cases hl : ofKey w.key ws with
    | nil =>
      -- the newest write of the key
      simp only [hl, noted, ne_eq, not_true_eq_false, if_false] at h
      obtain ⟨u, heval, h⟩ := Except.bind_eq_ok.1 h
      cases h
      refine ⟨?_, by simp [Scan.note, hof], ?_⟩
      · rw [hof, hl]
        unfold Scan.note
        cases hc : w.committed with
        | true => simp [noted, hc]
        | false => simp [noted, hc]
      · intro v hv
        rw [hof, hl] at hv
        cases hv
        exact heval
    | cons v older =>
      have hcompared := hs.compared v (by simp [hl])
      have hne : ofKey w.key (ws ++ [w]) ≠ [] := by simp [hof]
      have hactive : w.key ∈ s.activeKeys := hs.active.2 (by simp [hl])
      have hhead : ∀ x ∈ (ofKey w.key (ws ++ [w])).head?, evalRow env pred x.row = .ok () := by
        intro x hx
        rw [hof, hl] at hx
        cases hx
        exact hcompared
      cases hc : v.committed with
      | true =>
        have hcand : s.candidates.lookup w.key = none := by simp [hs.candidate, hl, noted, hc]
        simp only [hl, noted, hc, if_true, ne_eq, reduceCtorEq, not_false_eq_true] at h
        cases h
        exact ⟨by simp [hcand, hof, hl, noted, hc], by simp [hactive, hne], hhead⟩
      | false =>
        simp only [hl, noted, hc, Bool.false_eq_true, if_false] at h
        cases older with
        | nil =>
          simp only [isEmpty_nil, Bool.not_true] at h
          cases h
          exact ⟨by simp [hof, hl, noted, hc], by simp [hactive, hne], hhead⟩
        | cons v' older =>
          simp only [isEmpty_cons, Bool.not_false] at h
          cases h
          exact ⟨by simp [hs.candidate, hof, hl, noted, hc], by simp [hactive, hne], hhead⟩
  · have hof : ofKey k (ws ++ [w]) = ofKey k ws := by simp [ofKey, Ne.symm hk]
    obtain ⟨hcand, hactive⟩ := checkRow_frame hk h
    exact ⟨by rw [hcand, hof, hs.candidate], by rw [hactive, hof, hs.active],
      by rw [hof]; exact hs.compared⟩

theorem Scan.Knows.rows {done : List RowWrite} (howned : env.keyOwned k = true)
    (hread : ∀ r ∈ readSet, r.key ≠ k) (h : ws.foldlM (checkRow env pred readSet) s = .ok s')
    (hs : s.Knows env pred done k) :
    s'.Knows env pred (done ++ ws) k := by
  induction ws generalizing s done with
  | nil =>
    cases h
    simpa using hs
  | cons w ws ih =>
    rw [foldlM_cons, Except.bind_eq_ok] at h
    obtain ⟨s₁, h₁, h⟩ := h
    simpa using ih h (hs.row howned hread h₁)

theorem evalRow_ok {row : RowUpdates} (h : evalRow env pred row = .ok ()) :
    row.deletion = some true ∨
      ∀ i ∈ pred.predInstances, env.evaluatePred i row pred.tableName = some false := by
  unfold evalRow at h
  split_ifs at h with hdel
  · exact .inl hdel
  · refine .inr fun i hi => ?_
    obtain ⟨u, u', heval⟩ := foldlM_ok h i hi
    unfold evalInstance at heval
    split at heval
    · cases heval
    · cases heval
    · assumption

theorem Scan.Knows.mem_active {older : List RowWrite} (hs : s.Knows env pred ws k)
    (hl : ofKey k ws = w :: older) (holder : older ≠ []) (hc : w.committed = false) :
    w.digest ∈ s.active := by
  have hcand : s.candidates.lookup k = some (true, w.digest) := by
    rw [hs.candidate, hl]
    cases older with
    | nil => exact absurd rfl holder
    | cons v older => simp [noted, hc]
  have hmem := AList.mem_lookup_iff.1 hcand
  exact mem_filterMap.2 ⟨_, hmem, rfl⟩

end Knows

/-! ## No phantoms -/

/-- The graces are small enough for 64-bit sums of microseconds. -/
def PredEnv.GraceFits (env : PredEnv) : Prop :=
  (env.monotonicityGrace.toNat + env.nonMonotonicityGrace.toNat) * 1000 + 2 ^ 52 < 2 ^ 64
deriving Decidable

/-- At most `grace` milliseconds older than the table version. -/
def Within (pred : Predicate) (grace : Nat) (t : Timestamp) : Prop :=
  us pred.tableVersion.timestamp ≤ us t.timestamp + grace * 1000

/-- An entry whose rows count: another version than the one that was read, not too old for the first
grace or, if it was prepared late, for both. -/
structure Counts (env : PredEnv) (pred : Predicate) (t : Timestamp) (e : TableEntry) : Prop where
  other : t ≠ pred.tableVersion
  within : Within pred env.monotonicityGrace.toNat t ∨
    Within pred (env.monotonicityGrace.toNat + env.nonMonotonicityGrace.toNat) t ∧
      e.digest.any env.nonMonotonicWrites = true

/-- `w` is a write of the row `k`, owned here and not read by the reader: the newest one below the
reader that differs from the table version and is not too old for the first grace. It is not of the
first entry of the index. -/
structure Newest (env : PredEnv) (pred : Predicate) (readSet : List ReadMessage)
    (writes : OrdMap Timestamp TableEntry) (txnTs : Timestamp) (k : Key) (t : Timestamp)
    (e : TableEntry) (w : RowWrite) : Prop where
  owned : env.keyOwned k = true
  unread : ∀ r ∈ readSet, r.key ≠ k
  recorded : (t, e) ∈ writes
  below : t < txnTs
  later : ∃ d ∈ writes, d.1 < t
  other : t ≠ pred.tableVersion
  within : Within pred env.monotonicityGrace.toNat t
  row : (e.rowWrites pred.tableName).find? (·.key = k) = some w
  newest : ∀ t' e', (t', e') ∈ writes → t < t' → t' < txnTs → t' ≠ pred.tableVersion →
    ∀ v ∈ e'.rowWrites pred.tableName, v.key ≠ k

section NoPhantom
variable {env : PredEnv} {pred : Predicate} {readSet : List ReadMessage}
  {writes : OrdMap Timestamp TableEntry} {txnTs : Timestamp}

variable {t : Timestamp} {e : TableEntry} {x : Timestamp × TableEntry}

theorem beyond_eq_false {grace : UInt64} (hfits : grace.toNat * 1000 + 2 ^ 52 < 2 ^ 64)
    (h : Within pred grace.toNat t) :
    beyond pred grace t = false := by
  have ht := us_lt t.timestamp
  unfold beyond
  rw [decide_eq_false_iff_not, UInt64.lt_iff_toNat_lt, UInt64.toNat_add, UInt64.toNat_mul,
    tsToUS_toNat, tsToUS_toNat]
  simp only [UInt64.reduceToNat]
  unfold Within at h
  omega

theorem PredEnv.GraceFits.first (h : env.GraceFits) :
    env.monotonicityGrace.toNat * 1000 + 2 ^ 52 < 2 ^ 64 :=
  lt_of_le_of_lt
    (Nat.add_le_add_right (Nat.mul_le_mul_right 1000 (Nat.le_add_right _ _)) _) h

theorem PredEnv.GraceFits.both (h : env.GraceFits) :
    (env.monotonicityGrace + env.nonMonotonicityGrace).toNat =
      env.monotonicityGrace.toNat + env.nonMonotonicityGrace.toNat := by
  unfold PredEnv.GraceFits at h
  rw [UInt64.toNat_add]
  omega

theorem Within.weaken {g g' : Nat} (h : Within pred g t) (hg : g ≤ g') :
    Within pred g' t :=
  le_trans h (Nat.add_le_add_left (Nat.mul_le_mul_right 1000 hg) _)

theorem Within.newer {g : Nat} {t' : Timestamp} (h : Within pred g t) (ht : WellTimed t)
    (hlt : t < t') : Within pred g t' :=
  le_trans h (Nat.add_le_add_right (us_mono ht hlt) _)

theorem goesOn_of_within (hfits : env.GraceFits)
    (h : Within pred (env.monotonicityGrace.toNat + env.nonMonotonicityGrace.toNat) x.1) :
    goesOn env pred x = true := by
  rw [← hfits.both] at h
  have hbeyond : beyond pred (env.monotonicityGrace + env.nonMonotonicityGrace) x.1 = false :=
    beyond_eq_false (by rw [hfits.both]; exact hfits) h
  simp [goesOn, hbeyond]

theorem Counts.within_both (h : Counts env pred t e) :
    Within pred (env.monotonicityGrace.toNat + env.nonMonotonicityGrace.toNat) t := by
  obtain hwithin | ⟨hwithin, -⟩ := h.within
  · exact hwithin.weaken (Nat.le_add_right _ _)
  · exact hwithin

theorem Counts.entryRows_eq (hfits : env.GraceFits) (h : Counts env pred t e) :
    entryRows env pred (t, e) = e.rowWrites pred.tableName := by
  have hrel : relevant env pred (t, e) = true := by
    obtain hwithin | ⟨-, hlate⟩ := h.within
    · have hbeyond : beyond pred env.monotonicityGrace t = false := by
        exact beyond_eq_false hfits.first hwithin
      simp [relevant, h.other, hbeyond]
    · simp [relevant, h.other, hlate]
  rw [entryRows, if_pos hrel]

theorem compared_split {pre post : List (Timestamp × TableEntry)}
    (hpre : ∀ y ∈ pre, goesOn env pred y = true) (hx : goesOn env pred x = true) :
    compared env pred (pre ++ x :: post) =
      pre.flatMap (entryRows env pred) ++ (entryRows env pred x ++ compared env pred post) := by
  unfold compared
  rw [takeWhile_append_of_pos hpre, takeWhile_cons_of_pos hx, flatMap_append,
    flatMap_cons]

theorem Counts.mem_compared (hfits : env.GraceFits) (h : Counts env pred t e) (ht : WellTimed t)
    {entries : List (Timestamp × TableEntry)} (hsorted : entries.Pairwise fun a b => b.1 < a.1)
    (hmem : (t, e) ∈ entries) {w : RowWrite} (hw : w ∈ e.rowWrites pred.tableName) :
    w ∈ compared env pred entries := by
  obtain ⟨pre, post, rfl⟩ := append_of_mem hmem
  have hnewer : ∀ y ∈ pre, t < y.1 := fun y hy =>
    (pairwise_append.1 hsorted).2.2 y hy (t, e) mem_cons_self
  rw [compared_split
    (fun y hy => goesOn_of_within hfits (h.within_both.newer ht (hnewer y hy)))
    (goesOn_of_within (x := (t, e)) hfits h.within_both), h.entryRows_eq hfits]
  simp [hw]

theorem Newest.counts {k : Key} {w : RowWrite} (h : Newest env pred readSet writes txnTs k t e w) :
    Counts env pred t e :=
  ⟨h.other, .inl h.within⟩

theorem Newest.ofKey_compared (hfits : env.GraceFits) (htimed : ∀ x ∈ writes, WellTimed x.1)
    {k : Key} {w : RowWrite} (h : Newest env pred readSet writes txnTs k t e w) :
    ∃ older, ofKey k (compared env pred (writes.downFrom txnTs)) = w :: older ∧
      ∀ t' e', (t', e') ∈ writes → t' < t → (∃ d ∈ writes, d.1 < t') → Counts env pred t' e' →
        (∃ v ∈ e'.rowWrites pred.tableName, v.key = k) → older ≠ [] := by
  have hmem : (t, e) ∈ writes.downFrom txnTs := OrdMap.mem_downFrom.2 ⟨h.recorded, h.below, h.later⟩
  have hsorted := writes.downFrom_sorted txnTs
  obtain ⟨pre, post, hsplit⟩ := append_of_mem hmem
  rw [hsplit] at hsorted
  obtain ⟨-, hpost, hnewer⟩ := pairwise_append.1 hsorted
  have htime : WellTimed t := htimed (t, e) h.recorded
  have hpre : ∀ y ∈ pre, y ∈ writes ∧ y.1 < txnTs ∧ t < y.1 := by
    intro y hy
    have hy' : y ∈ writes.downFrom txnTs := by simp [hsplit, hy]
    obtain ⟨h1, h2, -⟩ := OrdMap.mem_downFrom.1 hy'
    exact ⟨h1, h2, hnewer y hy (t, e) mem_cons_self⟩
  have hgo : ∀ y ∈ pre, goesOn env pred y = true := fun y hy =>
    goesOn_of_within hfits (h.counts.within_both.newer htime (hpre y hy).2.2)
  -- the newer entries write no row of the key
  have hnone : ofKey k (pre.flatMap (entryRows env pred)) = [] := by
    rw [ofKey, filter_eq_nil_iff]
    intro v hv
    obtain ⟨y, hy, hvy⟩ := mem_flatMap.1 hv
    obtain ⟨h1, h2, h3⟩ := hpre y hy
    unfold entryRows at hvy
    split_ifs at hvy with hrel
    · have hother : y.1 ≠ pred.tableVersion := by
        simp only [relevant, Bool.and_eq_true, decide_eq_true_eq] at hrel
        exact hrel.1
      simpa using h.newest y.1 y.2 h1 h3 h2 hother v hvy
    · cases hvy
  obtain ⟨same, hsame⟩ : ∃ same, ofKey k (e.rowWrites pred.tableName) = w :: same := by
    rw [← head?_eq_some_iff, ofKey, head?_filter]
    exact h.row
  refine ⟨same ++ ofKey k (compared env pred post), ?_, ?_⟩
  · rw [hsplit, compared_split hgo (goesOn_of_within (x := (t, e)) hfits h.counts.within_both),
      h.counts.entryRows_eq hfits]
    simp only [ofKey, filter_append] at hnone hsame ⊢
    rw [hnone, hsame]
    simp
  · intro t' e' hrec hlt hlater hcounts ⟨v, hv, hvk⟩
    have hmem' : (t', e') ∈ post := by
      have hdown := OrdMap.mem_downFrom.2 ⟨hrec, lt_trans hlt h.below, hlater⟩
      rw [hsplit, mem_append, mem_cons] at hdown
      rcases hdown with hin | heq | hin
      · exact absurd hlt (lt_asymm (hpre _ hin).2.2)
      · cases heq
        exact absurd hlt (lt_irrefl _)
      · exact hin
    have hcmp : v ∈ compared env pred post :=
      hcounts.mem_compared hfits (htimed _ hrec) (pairwise_cons.1 hpost).2 hmem' hv
    have hin : v ∈ ofKey k (compared env pred post) := by simp [ofKey, hcmp, hvk]
    intro hnil
    rw [(append_eq_nil_iff.1 hnil).2] at hin
    cases hin

theorem checkReadPred_commit {tableWrites : TableWriteMap} {deps deps' : List Digest}
    (hfind : tableWrites pred.tableName = some writes)
    (h : checkReadPred env pred readSet tableWrites txnTs deps = some (.commit, deps')) :
    ∃ s, scanEntries env pred readSet (writes.downFrom txnTs) {} = .ok s ∧
      deps' = s.active ∪ deps := by
  unfold checkReadPred at h
  simp only [hfind] at h
  split_ifs at h with hempty
  split at h
  · rename_i s hs
    simp only [Option.some.injEq, Prod.mk.injEq, true_and] at h
    exact ⟨s, hs, h.symm⟩
  · simp at h
  · cases h

/-- **No phantoms.** If the check lets the reader commit, the newest write of a row that it has not
read is a deletion or satisfies no instance of the predicate; if that write is prepared and an older
one counts, the reader waits for it. -/
theorem checkReadPred_noPhantom (hfits : env.GraceFits) {tableWrites : TableWriteMap}
    {deps deps' : List Digest} (hfind : tableWrites pred.tableName = some writes)
    (htimed : ∀ x ∈ writes, WellTimed x.1)
    (h : checkReadPred env pred readSet tableWrites txnTs deps = some (.commit, deps'))
    {k : Key} {t : Timestamp} {e : TableEntry} {w : RowWrite}
    (hnew : Newest env pred readSet writes txnTs k t e w) :
    (w.row.deletion = some true ∨
      ∀ i ∈ pred.predInstances, env.evaluatePred i w.row pred.tableName = some false) ∧
    (w.committed = false →
      (∃ t' e', (t', e') ∈ writes ∧ t' < t ∧ (∃ d ∈ writes, d.1 < t') ∧ Counts env pred t' e' ∧
        ∃ v ∈ e'.rowWrites pred.tableName, v.key = k) →
      w.digest ∈ deps') := by
  obtain ⟨s, hscan, rfl⟩ := checkReadPred_commit hfind h
  have hknows := (Scan.knows_nil k).rows hnew.owned hnew.unread (scanEntries_ok hscan)
  rw [List.nil_append] at hknows
  obtain ⟨older, hof, holder⟩ := hnew.ofKey_compared hfits htimed
  refine ⟨evalRow_ok (hknows.compared w (by simp [hof])), ?_⟩
  rintro hc ⟨t', e', hrec, hlt, hlater, hcounts, hv⟩
  have hne := holder t' e' hrec hlt hlater hcounts hv
  exact List.mem_union_iff.2 (.inl (hknows.mem_active hof hne hc))

end NoPhantom

/-! ### Runs -/

namespace Sample

def time (second microsecond : Nat) : Timestamp :=
  ⟨UInt64.ofNat (second * 2 ^ 32 + microsecond * 2 ^ 12), 1⟩

def write (digest : Digest) (rows : List (Key × Bytes)) (committed : Bool) : TableEntry where
  txn := some
    { txndigest := some digest
      writeSet := rows.map (·.1)
      tableWrites := [([116], rows.mapIdx fun i r => ⟨{ columnValues := [r.2] }, i⟩)] }
  committed := committed

def env (grace lateGrace : UInt64) : PredEnv where
  keyOwned _ := true
  evaluatePred _ row _ := some (decide (row.columnValues = [[1]]))
  monotonicityGrace := grace
  nonMonotonicityGrace := lateGrace
  nonMonotonicWrites _ := false

def pred (second microsecond : Nat) : Predicate := ⟨[116], time second microsecond, [[120]]⟩

def index (entries : List (Timestamp × TableEntry))
    (h : entries.Pairwise fun a b => a.1 < b.1) : TableWriteMap := fun _ => some ⟨entries, h⟩

def rewritten : List (Timestamp × TableEntry) :=
  [(time 1 0, write [40] [([8], [0])] true), (time 9 500000, write [41] [([7], [1])] true),
    (time 10 0, write [42] [([7], [0])] false)]

end Sample

open Sample in
theorem checkReadPred_noPhantom_waits :
    checkReadPred (env 5 20) (pred 9 0) [] (index rewritten (by decide +kernel)) (time 20 0) [] =
      some (.commit, [[42]]) ∧ [42] ∈ [([42] : Digest)] := by
  have hrun : checkReadPred (env 5 20) (pred 9 0) [] (index rewritten (by decide +kernel))
      (time 20 0) [] = some (.commit, [[42]]) := by decide +kernel
  have hnew : Newest (env 5 20) (pred 9 0) [] ⟨rewritten, by decide +kernel⟩ (time 20 0) [7]
      (time 10 0) (write [42] [([7], [0])] false)
      ⟨[7], { columnValues := [[0]] }, [42], false⟩ :=
    { owned := rfl
      unread := by simp
      recorded := by decide +kernel
      below := by decide +kernel
      later := ⟨(time 1 0, write [40] [([8], [0])] true), by decide +kernel, by decide +kernel⟩
      other := by decide +kernel
      within := by unfold Within; decide +kernel
      row := by decide +kernel
      newest := by
        intro t' e' hmem hlt
        have hnot : ∀ x ∈ rewritten, ¬ time 10 0 < x.1 := by decide +kernel
        exact absurd hlt (hnot (t', e') hmem) }
  refine ⟨hrun, (checkReadPred_noPhantom (by decide) rfl ?_ hrun hnew).2 rfl ?_⟩
  · intro x hx
    have htimed : ∀ x ∈ rewritten, WellTimed x.1 := by decide +kernel
    exact htimed x hx
  · refine ⟨time 9 500000, write [41] [([7], [1])] true, by decide +kernel, by decide +kernel,
      ⟨(time 1 0, write [40] [([8], [0])] true), by decide +kernel, by decide +kernel⟩, ?_, ?_⟩
    · exact ⟨by decide +kernel, .inl (by unfold Within; decide +kernel)⟩
    · exact ⟨⟨[7], { columnValues := [[1]] }, [41], true⟩, by decide +kernel, rfl⟩

open Sample in
/-- What a COMMIT does not exclude: a row whose only write is the first entry of the index, a newer
write of another row with an earlier time, an overflow of the graces, a second write of the same
transaction, and a prepared write above one that is too old. -/
theorem checkReadPred_phantoms :
    checkReadPred (env 5 20) (pred 9 0) []
      (index [(time 10 0, write [40] [([7], [1])] true)] (by decide +kernel)) (time 20 0) [] =
        some (.commit, []) ∧
    checkReadPred (env 5 20) (pred 10 26000) []
      (index [(time 1 0, write [40] [([8], [0])] true),
        (time 9 1048575, write [41] [([7], [1])] true),
        (time 10 0, write [42] [([9], [0])] true)] (by decide +kernel)) (time 20 0) [] =
        some (.commit, []) ∧
    us (time 10 26000).timestamp ≤ us (time 9 1048575).timestamp + 5 * 1000 ∧
    checkReadPred (env 5 18446744073709551) (pred 10 4500) []
      (index [(time 1 0, write [40] [([8], [0])] true),
        (time 10 0, write [41] [([7], [1])] true)] (by decide +kernel)) (time 20 0) [] =
        some (.commit, []) ∧
    us (time 10 4500).timestamp ≤ us (time 10 0).timestamp + 5 * 1000 ∧
    checkReadPred (env 5 20) (pred 9 0) []
      (index [(time 1 0, write [40] [([8], [0])] true),
        (time 10 0, write [41] [([7], [0]), ([7], [1])] true)] (by decide +kernel)) (time 20 0) [] =
        some (.commit, []) ∧
    checkReadPred (env 5 20) (pred 9 0) []
      (index [(time 1 0, write [40] [([8], [0])] true), (time 2 0, write [41] [([7], [1])] true),
        (time 10 0, write [42] [([7], [0])] false)] (by decide +kernel)) (time 20 0) [] =
        some (.commit, []) ∧
    (env 5 20).evaluatePred [120] { columnValues := [[1]] } [116] = some true := by
  decide +kernel

end Sintr.Semantic
