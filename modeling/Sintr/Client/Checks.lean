import Sintr.Client.Provenance

/-!
# What the two checks of evidence accept

The two functions by which clients and replicas check the evidence of others, each on its own:
`ValidateDependency` for prepared writes, `ValidateTransactionTableWrite` for rows.
-/

namespace Sintr.Client

open Quorum

/-! ## Dependencies -/

section
variable (venv : ValidationEnv) (dep : ForwardedDep)

structure Write.SamePrepared (v w : Write) : Prop where
  same : v.samePrepared w = true
  key : v.key.getD [] = w.key.getD []
  hashed : Version.hashed? v.preparedTs = Version.hashed? w.preparedTs

def PreparedByGroup : Prop :=
  HasVoters (·.processId) venv.readDepSize (fun s =>
    venv.config.InGroup s.processId dep.involvedGroup ∧
      venv.verifyData s.processId s.data s.signature = true ∧
      (venv.parseWrite s.data).SamePrepared dep.write) dep.writeSigs

/-- If enough signatures are there, all valid and on the recorded value, timestamp and transaction,
then enough are of different replicas of the group, on the recorded key and hidden timestamp. -/
def DependencyMeets : Prop :=
  venv.readDepSize ≤ dep.writeSigs.length →
  (∀ s ∈ dep.writeSigs, (venv.parseWrite s.data).samePrepared dep.write = true ∧
    venv.verifyData s.processId s.data s.signature = true) →
  HasVoters (·.processId) venv.readDepSize (fun s =>
    venv.config.InGroup s.processId dep.involvedGroup ∧
      (venv.parseWrite s.data).key.getD [] = dep.write.key.getD [] ∧
      Version.hashed? (venv.parseWrite s.data).preparedTs =
        Version.hashed? dep.write.preparedTs) dep.writeSigs

/-- **An accepted dependency was prepared by its group**, exactly if its signers are different
replicas of the group that signed for its key. -/
theorem dependency_signed_iff :
    (validateDependency venv dep = .accept → PreparedByGroup venv dep) ↔
      DependencyMeets venv dep := by
  have haccept : validateDependency venv dep = .accept ↔
      venv.readDepSize ≤ dep.writeSigs.length ∧ ∀ s ∈ dep.writeSigs,
        (venv.parseWrite s.data).samePrepared dep.write = true ∧
          venv.verifyData s.processId s.data s.signature = true := by
    rw [validateDependency, ← checkWriteSigs_accept]
    split_ifs with hlen
    · simp [hlen]
    · simp [Nat.le_of_not_lt hlen]
  rw [haccept, and_imp]
  refine imp_congr_right fun _ => imp_congr_right fun hall => ⟨fun h => ?_, fun h => ?_⟩
  · exact h.mono fun s _ hs => ⟨hs.1, hs.2.2.key, hs.2.2.hashed⟩
  · exact h.mono fun s hmem hs =>
      ⟨hs.1, (hall s hmem).2, (hall s hmem).1, hs.2.1, hs.2.2⟩

end

/-- Signed twice by replica 0, by two clients, and for another key. -/
theorem dependency_unsigned :
    let venv := evidenceEnv.toValidationEnv
    let reads := [preparedRead [0, 0] 7 5, preparedRead [6, 7] 7 5, preparedRead [0, 1] 8 5]
    let deps := reads.filterMap (·.result.dep)
    deps.length = 3 ∧ ∀ dep ∈ deps,
      validateDependency venv dep = .accept ∧ ¬ PreparedByGroup venv dep := by
  intro venv reads deps
  refine ⟨rfl, ?_⟩
  simp only [deps, reads, preparedRead, List.filterMap_cons, List.filterMap_nil,
    List.forall_mem_cons, List.not_mem_nil, IsEmpty.forall_iff, implies_true, and_true]
  refine ⟨⟨by decide +kernel, fun h => ?_⟩, ⟨by decide +kernel, fun h => ?_⟩,
    by decide +kernel, fun h => ?_⟩
  · exact absurd (HasVoters.all h rfl).1 (by decide)
  · obtain ⟨hreplica, -⟩ := (HasVoters.all h rfl).2 ⟨[2, 7, 5], 6, [6]⟩ (by decide)
    exact absurd hreplica (by decide)
  · obtain ⟨-, -, hsame⟩ := (HasVoters.all h rfl).2 ⟨[2, 8, 5], 0, [0]⟩ (by decide)
    exact absurd hsame.key (by decide)

/-! ## Rows -/

section
variable (senv : SqlEnv) (proof : CommittedProof) (timestamp : Timestamp) (key : Key)
  (value tableName : Bytes)

def ClaimsRow : Prop := value ≠ [] ∧ (senv.parseResult value).rows ≠ []
deriving Decidable

def ProvesWrite : Prop :=
  CommitCertificate senv.toEnv proof ∧ proof.txn.timestamp = timestamp ∧
    ∃ w ∈ proof.txn.writeSet, w.key = key

def ProvesRow : Prop := WroteRow senv { key, value, tableName } proof.txn

structure RowChecked : Prop where
  single : (senv.parseResult value).rows.length = 1
  timestamp : proof.txn.timestamp = timestamp
  signed : SignaturesPass senv.toEnv proof
  indexed : ¬ ((proof.txn.writeSet.find? fun w => decide (w.key = key)).bind (·.rowIdx)).isNone
  registered : ¬ ((proof.txn.tableWrites.find? fun t => decide (t.1 = tableName)).isNone ∨
    (senv.tableRegistry tableName).isNone)

/-- A row that gets through is the one that was written, with genuine signers. Where no row is
claimed the proof holds all the same, unless no row was written. -/
def TableWriteMeets : Prop :=
  (ClaimsRow senv value → RowChecked senv proof timestamp key value tableName →
    GenuineSigners senv.toEnv proof ∧ ProvesRow senv proof key value tableName) ∧
  (¬ ClaimsRow senv value →
    (value = [] ∧ ∃ w, (proof.txn.writeSet.find? fun w => decide (w.key = key)) = some w ∧
      w.rowIdx = none) ∨ ProvesWrite senv proof timestamp key)

variable {senv proof timestamp key value tableName} {isValidatingClient : Bool}

theorem tableWrite_accept_row (hsigned : senv.params.signedMessages = true)
    (hgenesis : proof.txn.isGenesis = false) (hrow : ClaimsRow senv value) :
    validateTransactionTableWrite senv proof (senv.toEnv.digest proof.txn) timestamp key value
        tableName false isValidatingClient = .accept ↔
      RowChecked senv proof timestamp key value tableName := by
  have hpass : validateCommittedProof senv.toEnv proof (senv.toEnv.digest proof.txn) = .accept ↔
      SignaturesPass senv.toEnv proof := by
    simp [validateCommittedProof_accept, hgenesis]
  simp only [validateTransactionTableWrite, hrow.1, hrow.2, hgenesis, hsigned, hpass, ne_eq,
    false_and, if_false, Bool.false_eq_true, true_and, or_false]
  constructor
  · intro h
    split_ifs at h with hlen hts hsig hidx htab
    exact ⟨hlen, hts, hsig, hidx, htab⟩
  · rintro ⟨hlen, hts, hsig, hidx, htab⟩
    rw [if_neg (not_not.2 hlen), if_neg (not_not.2 hts), if_neg (not_not.2 hsig), if_neg hidx,
      if_neg htab]

theorem tableWrite_accept_none (hrow : ¬ ClaimsRow senv value) :
    validateTransactionTableWrite senv proof (senv.toEnv.digest proof.txn) timestamp key value
        tableName false isValidatingClient = .accept ↔
      ¬ (value = [] ∧ ∃ w, (proof.txn.writeSet.find? fun w => decide (w.key = key)) = some w ∧
        w.rowIdx = none) := by
  unfold validateTransactionTableWrite
  by_cases hv : value = []
  · cases hf : proof.txn.writeSet.find? fun w => decide (w.key = key) with
    | none => simp [hv]
    | some w => cases hidx : w.rowIdx <;> simp [hv, hidx]
  · have : (senv.parseResult value).rows = [] := by simpa [ClaimsRow, hv] using hrow
    simp [hv, this]

variable (senv proof timestamp key value tableName)

/-- **An accepted row is the one that was committed**, exactly if the values agree that are not
compared. -/
theorem tableWrite_sound_iff (hsigned : senv.params.signedMessages = true) (hw : proof.WellFormed)
    (hgenesis : proof.txn.isGenesis = false) (isValidatingClient : Bool) :
    (validateTransactionTableWrite senv proof (senv.toEnv.digest proof.txn) timestamp key value
        tableName false isValidatingClient = .accept →
      ProvesWrite senv proof timestamp key ∧
        (ClaimsRow senv value → ProvesRow senv proof key value tableName)) ↔
    TableWriteMeets senv proof timestamp key value tableName := by
  unfold TableWriteMeets
  by_cases hrow : ClaimsRow senv value
  · rw [tableWrite_accept_row hsigned hgenesis hrow]
    simp only [hrow, forall_const, not_true_eq_false, IsEmpty.forall_iff, and_true]
    refine imp_congr_right fun hc => ?_
    rw [ProvesWrite, commitCertificate_iff hw hc.signed]
    constructor
    · exact fun h => ⟨h.1.1, h.2⟩
    · rintro ⟨hg, hr⟩
      obtain ⟨w, hmem, hkey, -⟩ := id hr
      exact ⟨⟨hg, hc.timestamp, w, hmem, hkey⟩, hr⟩
  · rw [tableWrite_accept_none hrow]
    simp only [hrow, IsEmpty.forall_iff, and_true, true_and, not_false_eq_true, forall_const]
    exact or_iff_not_imp_left.symm

end

/-- An unsigned proof of an empty result; and signed proofs of a row with the value 4 and of a
deletion, for the result 5. -/
theorem tableWrite_unsound :
    let unsigned : CommittedProof := { txn := rowWriter 2 1 }
    let deleter : Transaction := { rowWriter 2 1 with
      tableWrites := [([], { rows := [{ columnValues := [[5]], deletion := some true }] })] }
    ∀ x ∈ [(unsigned, []), (sixVotes (rowWriter 2 1), [5]), (sixVotes deleter, [5])],
      validateTransactionTableWrite evidenceEnv x.1 (evidenceEnv.toEnv.digest x.1.txn) ⟨100, 2⟩
          [7] x.2 [] false false = .accept ∧
        ¬ (ProvesWrite evidenceEnv x.1 ⟨100, 2⟩ [7] ∧
          (ClaimsRow evidenceEnv x.2 → ProvesRow evidenceEnv x.1 [7] x.2 [])) := by
  intro unsigned deleter
  simp only [List.forall_mem_cons, List.not_mem_nil, IsEmpty.forall_iff, implies_true, and_true]
  have hrow : ClaimsRow evidenceEnv [5] := by decide
  refine ⟨⟨by decide +kernel, fun h => h.1.1⟩, ⟨by decide +kernel, fun h => ?_⟩,
    by decide +kernel, fun h => ?_⟩
  all_goals
    obtain ⟨w, hw, -, i, t, row, cols, hidx, htable, hget, hcols, hdel, fields, hfields, hvalues⟩ :=
      h.2 hrow
    obtain rfl := List.mem_singleton.1 hw
    obtain rfl : i = 0 := by simpa using hidx.symm
    cases htable
    cases hget
  · cases hcols
    cases hfields
    obtain ⟨v, hv, hcolumn⟩ := hvalues 0 [1] 0 rfl rfl
    cases hcolumn
    cases hv
  · exact hdel rfl

theorem tableWrite_sound_iff_written :
    let txn : Transaction := { rowWriter 2 1 with
      tableWrites := [([], { rows := [{ columnValues := [[5]] }] })] }
    validateTransactionTableWrite evidenceEnv (sixVotes txn) (evidenceEnv.toEnv.digest txn)
        ⟨100, 2⟩ [7] [5] [] false false = .accept ∧
      ProvesWrite evidenceEnv (sixVotes txn) ⟨100, 2⟩ [7] := by
  intro txn
  have hmeets : TableWriteMeets evidenceEnv (sixVotes txn) ⟨100, 2⟩ [7] [5] [] := by
    refine ⟨fun _ _ => ⟨by decide, _, List.mem_singleton.2 rfl, rfl, 0, _, _, _, rfl, rfl, rfl, rfl,
      by decide, _, rfl, fun i name c hname hc => ?_⟩, fun h => (h (by decide)).elim⟩
    obtain rfl : c = 0 := (Option.some.inj hc).symm
    obtain rfl : i = 0 := Nat.lt_one_iff.1 (List.getElem?_eq_some_iff.1 hname).1
    exact ⟨[5], rfl, rfl⟩
  have haccept : validateTransactionTableWrite evidenceEnv (sixVotes txn)
    (evidenceEnv.toEnv.digest txn) ⟨100, 2⟩ [7] [5] [] false false = .accept := by decide +kernel
  exact ⟨haccept, ((tableWrite_sound_iff evidenceEnv (sixVotes txn) ⟨100, 2⟩ [7] [5] [] rfl
    (by decide) rfl false).2 hmeets haccept).1⟩

end Sintr.Client
