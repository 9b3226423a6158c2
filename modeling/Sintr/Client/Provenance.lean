import Sintr.Cert.Conflict
import Sintr.Client.Evidence

/-!
# What the evidence of a forwarded read shows

A validating client takes a value as read if it comes with evidence: a commit proof of the
transaction that wrote it, or the signatures of replicas that have prepared the write. Reads and
point queries are checked by two functions that differ in what they compare.
-/

namespace Sintr.Client

open Quorum List Option

/-! ## The check of point queries -/

/-- The result of a query; a field without data is NULL. -/
structure SQLResult where
  columnNames : List Bytes := []
  rows : List (List (Option Bytes)) := []
  deriving DecidableEq

structure SqlEnv extends ValidationEnv where
  parseResult : Bytes → SQLResult
  /-- For each registered table, where its columns are in a row. -/
  tableRegistry : Bytes → Option (Bytes → Option Nat)

section
variable (senv : SqlEnv)

/-- `ValidateTransactionTableWrite`. Neither the index of the row nor its values are checked, and a
validating client does not compare a hidden timestamp. -/
def validateTransactionTableWrite (proof : CommittedProof) (d : Digest) (timestamp : Timestamp)
    (key : Key) (value tableName : Bytes) (hashedTS isValidatingClient : Bool) : Verdict :=
  let write := proof.txn.writeSet.find? fun w => decide (w.key = key)
  if value = [] ∧ write.isSome then
    if write.any (·.rowIdx.isSome) then .accept else .reject
  else
    let result := if value = [] then {} else senv.parseResult value
    if result.rows = [] then .accept
    else if proof.txn.isGenesis then .accept
    else if result.rows.length ≠ 1 then .panic
    else if (hashedTS = false ∧ proof.txn.timestamp ≠ timestamp) ∨ (hashedTS = true ∧
        isValidatingClient = false ∧
        proof.txn.hashedTimestamp ≠ senv.H (timestampBytes timestamp)) then .reject
    else if senv.params.signedMessages = true ∧
        validateCommittedProof senv.toEnv proof d ≠ .accept then .panic
    else if (write.bind (·.rowIdx)).isNone then .reject
    -- both lookups throw
    else if (proof.txn.tableWrites.find? fun t => decide (t.1 = tableName)).isNone ∨
        (senv.tableRegistry tableName).isNone then .panic
    else .accept

def checkCommittedRow (msg : ForwardReadResultMessage) (w : Write) : Verdict :=
  if senv.params.validateProofs && w.committedValue.isSome && w.committedTs.isSome then
    match msg.proof with
    | none => .reject
    | some proof =>
      validateTransactionTableWrite senv proof (senv.toEnv.digest proof.txn)
        ((Version.timestamp? w.committedTs).getD Timestamp.zero) (w.key.getD [])
        (w.committedValue.getD []) msg.result.tableName senv.params.hideTimestamps true
  else .accept

/-- `PointQuerySigHelper`. The messages have the fields of forwarded reads; a dependency is not
compared with the result. -/
def pointQuerySigHelper (msg : ForwardReadResultMessage) : Verdict :=
  match msg.result.dep with
  | some dep =>
    if senv.params.validateProofs && senv.params.signedMessages then
      validateDependency senv.toValidationEnv dep
    else .accept
  | none =>
    match reportedWrite senv.toValidationEnv msg with
    | none => .reject
    | some w =>
      match checkCommittedRow senv msg w with
      | .accept => if matchesWrite senv.toValidationEnv msg.result w then .accept else .panic
      | v => v

end

/-! ## What evidence should show -/

section
variable (venv : ValidationEnv)

/-- The process is a replica. The ids after those of the replicas are keys of clients. -/
def IsReplica (p : ProcessId) : Prop := p.toNat < venv.config.groups * venv.config.n
deriving Decidable

def shownVersion (ts : Option Version) : Version :=
  if venv.params.hideTimestamps then .hashed ((Version.hashed? ts).getD [])
  else .timestamp ((Version.timestamp? ts).getD Timestamp.zero)

def txnVersion (txn : Transaction) : Version :=
  if venv.params.hideTimestamps then .hashed txn.hashedTimestamp else .timestamp txn.timestamp

structure PreparedAs (r : ForwardReadResult) (w : Write) : Prop where
  key : w.key.getD [] = r.key
  value : w.preparedValue.getD [] = r.value
  version : shownVersion venv w.preparedTs = shownVersion venv r.ts

def ReplicasSigned (P : SignedMessage → Prop) (sigs : List SignedMessage) : Prop :=
  HasVoters (·.processId) venv.readDepSize (fun s => IsReplica venv s.processId ∧ P s) sigs

def CommittedAs (wrote : Transaction → Prop) (msg : ForwardReadResultMessage) : Prop :=
  ∃ proof, msg.proof = some proof ∧ CommitCertificate venv.toEnv proof ∧
    txnVersion venv proof.txn = shownVersion venv msg.result.ts ∧ wrote proof.txn

def Shown (wrote : Transaction → Prop) (msg : ForwardReadResultMessage) : Prop :=
  match msg.result.dep with
  | some dep => ReplicasSigned venv (fun s =>
      venv.verifyData s.processId s.data s.signature = true ∧
        PreparedAs venv msg.result (venv.parseWrite s.data)) dep.writeSigs
  | none => CommittedAs venv wrote msg

end

def WroteValue (r : ForwardReadResult) (txn : Transaction) : Prop :=
  ∃ w ∈ txn.writeSet, w.key = r.key ∧ w.value.getD [] = r.value

/-- A row, not a deletion, has the values of the result in the columns of the table. -/
def RowShows (cols : Bytes → Option Nat) (row : RowUpdates) (result : SQLResult) : Prop :=
  row.deletion ≠ some true ∧ ∃ fields, result.rows = [fields] ∧
    ∀ (i : Nat) name c, result.columnNames[i]? = some name → cols name = some c →
      ∃ v, fields[i]? = some (some v) ∧ row.columnValues[c]? = some v

def WroteRow (senv : SqlEnv) (r : ForwardReadResult) (txn : Transaction) : Prop :=
  ∃ w ∈ txn.writeSet, w.key = r.key ∧ ∃ (i : Nat) (t : Bytes × TableWrite) (row : RowUpdates)
    (cols : Bytes → Option Nat), w.rowIdx = some i ∧
      (txn.tableWrites.find? fun t => decide (t.1 = r.tableName)) = some t ∧
      t.2.rows[i]? = some row ∧ senv.tableRegistry r.tableName = some cols ∧
      RowShows cols row (senv.parseResult r.value)

/-! ## What has to be so besides -/

section
variable (venv : ValidationEnv)

def InMode : Option Version → Prop
  | some (.timestamp _) => venv.params.hideTimestamps = false
  | some (.hashed digest) => venv.params.hideTimestamps = true ∧ digest ≠ []
  | none => False

/-- No proof is looked at: the committed write has no version, or the proof names the genesis
transaction. -/
def Unproved (msg : ForwardReadResultMessage) (w : Write) : Prop :=
  w.committedTs = none ∨ ∃ proof, msg.proof = some proof ∧ proof.txn.isGenesis = true

/-- An accepted dependency is signed by enough different replicas, for the same key and hidden
timestamp. Without one there is a proof of genuine signers. -/
def ReadMeets (msg : ForwardReadResultMessage) : Prop :=
  let r := msg.result
  match r.dep with
  | some dep => validateDependency venv dep = .accept → matchesWrite venv r dep.write = true →
      ReplicasSigned venv (fun s => (venv.parseWrite s.data).key.getD [] = r.key ∧
        (venv.params.hideTimestamps = true →
          shownVersion venv (venv.parseWrite s.data).preparedTs = shownVersion venv r.ts))
        dep.writeSigs
  | none => ∀ w, reportedWrite venv msg = some w → checkCommitted venv msg w = .accept →
      matchesWrite venv r w = true →
      (Unproved msg w → CommittedAs venv (WroteValue r) msg) ∧
      (¬ Unproved msg w → ∀ proof, msg.proof = some proof → GenuineSigners venv.toEnv proof ∧
        (¬ InMode venv w.committedTs → txnVersion venv proof.txn = shownVersion venv r.ts))

end

/-- An accepted dependency is signed by enough different replicas as reported. Without one there is
a proof of genuine signers, with the reported values and hidden timestamp. -/
def PointMeets (senv : SqlEnv) (msg : ForwardReadResultMessage) : Prop :=
  let venv := senv.toValidationEnv
  let r := msg.result
  match r.dep with
  | some dep => validateDependency venv dep = .accept →
      ReplicasSigned venv (fun s => PreparedAs venv r (venv.parseWrite s.data)) dep.writeSigs
  | none => ∀ w, reportedWrite venv msg = some w → checkCommittedRow senv msg w = .accept →
      matchesWrite venv r w = true →
      (Unproved msg w ∨ (senv.parseResult r.value).rows = [] →
        CommittedAs venv (WroteRow senv r) msg) ∧
      (¬ (Unproved msg w ∨ (senv.parseResult r.value).rows = []) →
        ∀ proof, msg.proof = some proof → GenuineSigners venv.toEnv proof ∧
          (venv.params.hideTimestamps = true →
            txnVersion venv proof.txn = shownVersion venv r.ts) ∧ WroteRow senv r proof.txn)

/-! ## What the checks compare -/

section
variable {venv : ValidationEnv} {msg : ForwardReadResultMessage} {r : ForwardReadResult} {w : Write}
  {wrote : Transaction → Prop} {dep : ForwardedDep}

theorem checkWriteSigs_accept {write : Write} {sigs : List SignedMessage} :
    checkWriteSigs venv write sigs = .accept ↔ ∀ s ∈ sigs,
      (venv.parseWrite s.data).samePrepared write = true ∧
        venv.verifyData s.processId s.data s.signature = true := by
  induction sigs with
  | nil => simp [checkWriteSigs]
  | cons s sigs ih =>
    rw [forall_mem_cons, ← ih, checkWriteSigs]
    cases (venv.parseWrite s.data).samePrepared write <;>
      cases venv.verifyData s.processId s.data s.signature <;> simp

theorem validateDependency_accept (h : validateDependency venv dep = .accept) : ∀ s ∈ dep.writeSigs,
      (venv.parseWrite s.data).samePrepared dep.write = true ∧
        venv.verifyData s.processId s.data s.signature = true := by
  unfold validateDependency at h
  split at h
  · cases h
  · exact checkWriteSigs_accept.1 h

theorem samePrepared_shown {v : Write} (h : v.samePrepared w = true) :
    v.preparedValue.getD [] = w.preparedValue.getD [] ∧ (venv.params.hideTimestamps = false →
      shownVersion venv v.preparedTs = shownVersion venv w.preparedTs) := by
  simp only [Write.samePrepared, Bool.and_eq_true, beq_iff_eq] at h
  obtain ⟨⟨hvalue, hts⟩, -⟩ := h
  refine ⟨hvalue, fun hplain => ?_⟩
  simp only [shownVersion, hplain, Bool.false_eq_true, if_false, hts]

theorem matchesWrite_shown (hvalue : r.value ≠ []) (h : matchesWrite venv r w = true) :
    w.key.getD [] = r.key ∧
      (if r.dep.isSome then w.preparedValue else w.committedValue).getD [] = r.value ∧
      shownVersion venv (if r.dep.isSome then w.preparedTs else w.committedTs) =
        shownVersion venv r.ts := by
  simp only [matchesWrite, if_neg hvalue, Bool.and_eq_true, beq_iff_eq] at h
  obtain ⟨⟨hkey, hval⟩, hversion⟩ := h
  refine ⟨hkey, hval, ?_⟩
  unfold shownVersion
  split at hversion
  · rename_i hhidden
    rw [if_pos hhidden, if_pos hhidden, beq_iff_eq.1 hversion]
  · rename_i hplain
    rw [if_neg hplain, if_neg hplain, beq_iff_eq.1 hversion]

theorem isSome_of_getD {value : Option Bytes} {v : Bytes} (hv : v ≠ []) (h : value.getD [] = v) :
    value.isSome = true := by
  cases value with
  | none => exact absurd h.symm hv
  | some _ => rfl

/-- The signatures of an accepted dependency need only come from enough different replicas, for
writes `P` as reported. -/
theorem replicasSigned_iff (h : validateDependency venv dep = .accept)
    {P : Write → Prop} (hP : ∀ v : Write, v.samePrepared dep.write = true →
      (PreparedAs venv r v ↔ P v)) :
    ReplicasSigned venv (fun s => venv.verifyData s.processId s.data s.signature = true ∧
        PreparedAs venv r (venv.parseWrite s.data)) dep.writeSigs ↔
      ReplicasSigned venv (fun s => P (venv.parseWrite s.data)) dep.writeSigs := by
  have hall := validateDependency_accept h
  constructor
  · intro hsigned
    refine hsigned.mono fun s hs hgood => ⟨hgood.1, ?_⟩
    exact (hP _ (hall s hs).1).1 hgood.2.2
  · intro hsigned
    refine hsigned.mono fun s hs hgood => ⟨hgood.1, (hall s hs).2, ?_⟩
    exact (hP _ (hall s hs).1).2 hgood.2

theorem committedAs_iff {proof : CommittedProof} (hproof : msg.proof = some proof)
    (hw : proof.WellFormed) (hpass : SignaturesPass venv.toEnv proof) :
    CommittedAs venv wrote msg ↔ GenuineSigners venv.toEnv proof ∧
      txnVersion venv proof.txn = shownVersion venv msg.result.ts ∧ wrote proof.txn := by
  rw [← commitCertificate_iff hw hpass]
  constructor
  · rintro ⟨p, hp, hcert, hrest⟩
    obtain rfl := some.inj (hproof.symm.trans hp)
    exact ⟨hcert, hrest⟩
  · rintro ⟨hcert, hrest⟩
    exact ⟨proof, hproof, hcert, hrest⟩

theorem committedAs_split {unproved : Prop} {C : CommittedProof → Prop}
    (hw : ∀ proof, msg.proof = some proof → proof.WellFormed)
    (h : ¬ unproved → ∃ proof, msg.proof = some proof ∧ SignaturesPass venv.toEnv proof ∧
      (C proof ↔ GenuineSigners venv.toEnv proof ∧
        txnVersion venv proof.txn = shownVersion venv msg.result.ts ∧ wrote proof.txn)) :
    CommittedAs venv wrote msg ↔ (unproved → CommittedAs venv wrote msg) ∧
      (¬ unproved → ∀ proof, msg.proof = some proof → C proof) := by
  constructor
  · intro hc
    refine ⟨fun _ => hc, fun hproved p hp => ?_⟩
    obtain ⟨proof, hproof, hpass, hiff⟩ := h hproved
    obtain rfl := some.inj (hproof.symm.trans hp)
    exact hiff.2 ((committedAs_iff hproof (hw _ hproof) hpass).1 hc)
  · rintro ⟨hun, hproved⟩
    by_cases hu : unproved
    · exact hun hu
    · obtain ⟨proof, hproof, hpass, hiff⟩ := h hu
      exact (committedAs_iff hproof (hw _ hproof) hpass).2 (hiff.1 (hproved hu proof hproof))

end

/-! ## Reads -/

section
variable {venv : ValidationEnv} (hproofs : venv.params.validateProofs = true)
  (hsigned : venv.params.signedMessages = true) {msg : ForwardReadResultMessage} {w : Write}
include hproofs hsigned

theorem readSigHelper_dep {dep : ForwardedDep} (hdep : msg.result.dep = some dep) :
    readSigHelper venv msg = .accept ↔ validateDependency venv dep = .accept ∧
      matchesWrite venv msg.result dep.write = true := by
  unfold readSigHelper
  simp only [hdep, hproofs, hsigned, Bool.and_true, if_true]
  cases validateDependency venv dep <;> simp

omit hproofs hsigned in
theorem readSigHelper_noDep (hdep : msg.result.dep = none) :
    readSigHelper venv msg = .accept ↔ ∃ w, reportedWrite venv msg = some w ∧
      checkCommitted venv msg w = .accept ∧ matchesWrite venv msg.result w = true := by
  unfold readSigHelper
  simp only [hdep]
  cases hw : reportedWrite venv msg with
  | none => simp
  | some w => cases hc : checkCommitted venv msg w <;> simp [hc]

/-- The proof of a committed write has passed, and its transaction wrote the reported value, in a
version that is compared if it is of the right kind. -/
theorem checkCommitted_proved (hvalue : msg.result.value ≠ []) (hdep : msg.result.dep = none)
    (hmatch : matchesWrite venv msg.result w = true) (hproved : ¬ Unproved msg w)
    (h : checkCommitted venv msg w = .accept) :
    ∃ proof, msg.proof = some proof ∧ SignaturesPass venv.toEnv proof ∧
      WroteValue msg.result proof.txn ∧ (InMode venv w.committedTs →
        txnVersion venv proof.txn = shownVersion venv msg.result.ts) := by
  obtain ⟨hkey, hval, hversion⟩ := matchesWrite_shown hvalue hmatch
  simp only [hdep, isSome_none, Bool.false_eq_true, if_false] at hval hversion
  have hsome := isSome_of_getD hvalue hval
  obtain ⟨hts, hgenesis⟩ := not_or.1 hproved
  simp only [checkCommitted, hproofs, hsome, isSome_iff_ne_none.2 hts, Bool.and_self,
    if_true] at h
  cases hp : msg.proof with
  | none =>
    rw [hp] at h
    cases h
  | some proof =>
    have hnot : proof.txn.isGenesis = false := by
      cases hg : proof.txn.isGenesis with
      | false => rfl
      | true => exact absurd ⟨proof, hp, hg⟩ hgenesis
    rw [hp] at h
    simp only [validateTransactionWrite, hnot, hsigned, Bool.false_eq_true, if_false, if_true,
      hkey, hval] at h
    split at h
    · rename_i hpass
      have hpass := (validateCommittedProof_accept.1 hpass).resolve_left (by simp [hnot])
      split at h
      · rename_i hwrites
        simp only [writesValue, Bool.and_eq_true] at hwrites
        obtain ⟨hat, hfind⟩ := hwrites
        refine ⟨proof, rfl, hpass, ?_, ?_⟩
        · cases hf : proof.txn.writeSet.find? fun v => decide (v.key = msg.result.key) with
          | none => simp [hf] at hfind
          | some v =>
            refine ⟨v, mem_of_find?_eq_some hf, by simpa using find?_some hf, ?_⟩
            simpa [hf] using hfind
        · intro hmode
          rw [← hversion]
          unfold InMode at hmode
          unfold txnVersion shownVersion
          split at hmode
          · rename_i ts hc
            simp only [hc, Version.hashed?, getD_none, if_true, decide_eq_true_eq,
              Version.timestamp?, getD_some] at hat
            simp [hmode, hc, hat, Version.timestamp?]
          · rename_i digest hc
            simp only [hc, Version.hashed?, getD_some, if_neg hmode.2,
              decide_eq_true_eq] at hat
            simp [hmode.1, hc, hat, Version.hashed?]
          · exact hmode.elim
      · cases h
    · rename_i hverdict
      exact absurd h hverdict

theorem read_sound_iff (hvalue : msg.result.value ≠ [])
    (hw : ∀ proof, msg.proof = some proof → proof.WellFormed) :
    (readSigHelper venv msg = .accept → Shown venv (WroteValue msg.result) msg) ↔
      ReadMeets venv msg := by
  unfold Shown ReadMeets
  dsimp only
  cases hdep : msg.result.dep with
  | some dep =>
    rw [readSigHelper_dep hproofs hsigned hdep, and_imp]
    refine imp_congr_right fun hvalid => imp_congr_right fun hmatch => ?_
    obtain ⟨hkey, hval, hversion⟩ := matchesWrite_shown hvalue hmatch
    rw [hdep] at hval hversion
    refine replicasSigned_iff hvalid (P := fun v => v.key.getD [] = msg.result.key ∧
      (venv.params.hideTimestamps = true →
        shownVersion venv v.preparedTs = shownVersion venv msg.result.ts)) fun v hsame => ?_
    obtain ⟨hsameValue, hsameVersion⟩ := samePrepared_shown hsame
    constructor
    · intro h
      exact ⟨h.key, fun _ => h.version⟩
    · rintro ⟨hk, hhidden⟩
      refine ⟨hk, hsameValue.trans hval, ?_⟩
      cases hmode : venv.params.hideTimestamps with
      | true => exact hhidden hmode
      | false => exact (hsameVersion hmode).trans hversion
  | none =>
    rw [readSigHelper_noDep hdep]
    simp only [forall_exists_index, and_imp]
    refine forall_congr' fun w => imp_congr_right fun _ => imp_congr_right fun hc =>
      imp_congr_right fun hmatch => committedAs_split hw fun hproved => ?_
    obtain ⟨proof, hproof, hpass, hwrote, hmode⟩ :=
      checkCommitted_proved hproofs hsigned hvalue hdep hmatch hproved hc
    refine ⟨proof, hproof, hpass, ?_⟩
    by_cases hin : InMode venv w.committedTs
    · simp [hin, hmode hin, hwrote]
    · simp [hin, hwrote]

end

/-! ## Point queries -/

section
variable {senv : SqlEnv} (hproofs : senv.params.validateProofs = true)
  (hsigned : senv.params.signedMessages = true) {msg : ForwardReadResultMessage} {w : Write}
include hproofs hsigned

theorem pointQuerySigHelper_dep {dep : ForwardedDep} (hdep : msg.result.dep = some dep) :
    pointQuerySigHelper senv msg = validateDependency senv.toValidationEnv dep := by
  unfold pointQuerySigHelper
  simp [hdep, hproofs, hsigned]

omit hproofs hsigned in
theorem pointQuerySigHelper_noDep (hdep : msg.result.dep = none) :
    pointQuerySigHelper senv msg = .accept ↔
      ∃ w, reportedWrite senv.toValidationEnv msg = some w ∧
        checkCommittedRow senv msg w = .accept ∧
        matchesWrite senv.toValidationEnv msg.result w = true := by
  unfold pointQuerySigHelper
  simp only [hdep]
  cases hw : reportedWrite senv.toValidationEnv msg with
  | none => simp
  | some w => cases hc : checkCommittedRow senv msg w <;> simp [hc]

omit hproofs in
/-- A table write is accepted without rows, for the genesis transaction, or with a proof that passes
and, if it is not hidden, the right timestamp. -/
theorem validateTransactionTableWrite_accept {proof : CommittedProof} {timestamp : Timestamp}
    {key : Key} {value tableName : Bytes} {hashedTS : Bool} (hvalue : value ≠ [])
    (h : validateTransactionTableWrite senv proof (senv.toEnv.digest proof.txn) timestamp key value
      tableName hashedTS true = .accept) (hrows : (senv.parseResult value).rows ≠ [])
    (hgenesis : proof.txn.isGenesis = false) :
    SignaturesPass senv.toEnv proof ∧ (hashedTS = false → proof.txn.timestamp = timestamp) := by
  simp only [validateTransactionTableWrite, hvalue, false_and, if_false, hrows, hgenesis,
    Bool.false_eq_true, hsigned, true_and, Bool.true_eq_false, and_false, or_false] at h
  split at h
  · cases h
  · split at h
    · cases h
    · rename_i htime
      split at h
      · cases h
      · rename_i hpass
        refine ⟨?_, fun hplain => ?_⟩
        · refine (validateCommittedProof_accept.1 (not_not.1 hpass)).resolve_left ?_
          simp [hgenesis]
        · exact not_not.1 fun hne => htime ⟨hplain, hne⟩

theorem checkCommittedRow_proved (hvalue : msg.result.value ≠ []) (hdep : msg.result.dep = none)
    (hmatch : matchesWrite senv.toValidationEnv msg.result w = true) (hproved : ¬ Unproved msg w)
    (hrows : (senv.parseResult msg.result.value).rows ≠ [])
    (h : checkCommittedRow senv msg w = .accept) :
    ∃ proof, msg.proof = some proof ∧ SignaturesPass senv.toEnv proof ∧
      (senv.params.hideTimestamps = false → txnVersion senv.toValidationEnv proof.txn =
        shownVersion senv.toValidationEnv msg.result.ts) := by
  obtain ⟨hkey, hval, hversion⟩ := matchesWrite_shown hvalue hmatch
  simp only [hdep, isSome_none, Bool.false_eq_true, if_false] at hval hversion
  obtain ⟨hts, hgenesis⟩ := not_or.1 hproved
  simp only [checkCommittedRow, hproofs, isSome_of_getD hvalue hval,
    isSome_iff_ne_none.2 hts, Bool.and_self, if_true] at h
  cases hp : msg.proof with
  | none =>
    rw [hp] at h
    cases h
  | some proof =>
    have hnot : proof.txn.isGenesis = false := by
      cases hg : proof.txn.isGenesis with
      | false => rfl
      | true => exact absurd ⟨proof, hp, hg⟩ hgenesis
    rw [hp, hval] at h
    obtain ⟨hpass, htime⟩ := validateTransactionTableWrite_accept hsigned hvalue h hrows hnot
    refine ⟨proof, rfl, hpass, fun hplain => ?_⟩
    rw [← hversion]
    simp [txnVersion, shownVersion, hplain, htime hplain]

theorem point_sound_iff (hvalue : msg.result.value ≠ [])
    (hw : ∀ proof, msg.proof = some proof → proof.WellFormed) :
    (pointQuerySigHelper senv msg = .accept →
      Shown senv.toValidationEnv (WroteRow senv msg.result) msg) ↔ PointMeets senv msg := by
  unfold Shown PointMeets
  dsimp only
  cases hdep : msg.result.dep with
  | some dep =>
    rw [pointQuerySigHelper_dep hproofs hsigned hdep]
    exact imp_congr_right fun hvalid => replicasSigned_iff hvalid fun v _ => Iff.rfl
  | none =>
    rw [pointQuerySigHelper_noDep hdep]
    simp only [forall_exists_index, and_imp]
    refine forall_congr' fun w => imp_congr_right fun _ => imp_congr_right fun hc =>
      imp_congr_right fun hmatch => committedAs_split hw fun hproved => ?_
    obtain ⟨hproved, hrows⟩ := not_or.1 hproved
    obtain ⟨proof, hproof, hpass, hplain⟩ :=
      checkCommittedRow_proved hproofs hsigned hvalue hdep hmatch hproved hrows hc
    refine ⟨proof, hproof, hpass, ?_⟩
    cases hmode : senv.params.hideTimestamps with
    | true => simp
    | false => simp [hplain hmode]

end

/-- **Accepted evidence shows what is reported**, exactly for messages that meet what the two checks
leave open. -/
theorem evidence_sound_iff (senv : SqlEnv) (hproofs : senv.params.validateProofs = true)
    (hsigned : senv.params.signedMessages = true) (msg : ForwardReadResultMessage)
    (hvalue : msg.result.value ≠ []) (hw : ∀ proof, msg.proof = some proof → proof.WellFormed) :
    let venv := senv.toValidationEnv
    ((readSigHelper venv msg = .accept → Shown venv (WroteValue msg.result) msg) ↔
      ReadMeets venv msg) ∧
    ((pointQuerySigHelper senv msg = .accept → Shown venv (WroteRow senv msg.result) msg) ↔
      PointMeets senv msg) :=
  ⟨read_sound_iff hproofs hsigned hvalue hw, point_sound_iff hproofs hsigned hvalue hw⟩

/-! ## Accepted without evidence -/

def evidenceEnv : SqlEnv :=
  { Env.sample with
    readDepSize := 2
    verifyData := fun p _ signature => signature == [p.toUInt8]
    parseWrite := fun data =>
      match data with
      | [0, k, v] => { key := some [k], committedValue := some [v]
                       committedTs := some (.timestamp ⟨100, 2⟩) }
      | [1, k, v] => { key := some [k], committedValue := some [v] }
      | [_, k, v] => { key := some [k], preparedValue := some [v]
                       preparedTs := some (.timestamp ⟨100, 2⟩), preparedTxnDigest := some [9] }
      | _ => {}
    parseResult := fun value => { columnNames := [[1]], rows := [[some value]] }
    tableRegistry := fun _ => some fun _ => some 0 }

def preparedRead (signers : List ProcessId) (key value : UInt8) : ForwardReadResultMessage :=
  { result :=
      { key := [7], value := [value], ts := some (.timestamp ⟨100, 2⟩)
        dep := some
          { write := evidenceEnv.parseWrite [2, 7, 5]
            writeSigs := signers.map fun p => ⟨[2, key, 5], p, [p.toUInt8]⟩
            involvedGroup := 0 } } }

def committedRead (kind : UInt8) (ts : Option Version) (proof : Option CommittedProof) :
    ForwardReadResultMessage :=
  { result := { key := [7], value := [5], ts }
    write := some (.inr ⟨[kind, 7, 5], 0, [0]⟩)
    proof }

def rowWriter (client seq : UInt64) : Transaction :=
  { clientId := client, clientSeqNum := seq, involvedGroups := [0], timestamp := ⟨100, 2⟩
    writeSet := [{ key := [7], rowIdx := some 0 }]
    tableWrites := [([], { rows := [{ columnValues := [[4]] }] })] }

/-- What is taken as read: signed twice by one replica, for another key, by clients; committed
without a version or as genesis. In point queries also another value. -/
theorem evidence_unsound :
    let venv := evidenceEnv.toValidationEnv
    (∀ msg ∈ [preparedRead [0, 0] 7 5, preparedRead [0, 1] 8 5, preparedRead [6, 7] 7 5,
        committedRead 1 none none,
        committedRead 0 (some (.timestamp ⟨100, 2⟩)) (some { txn := rowWriter 0 0 })],
      readSigHelper venv msg = .accept ∧ ¬ Shown venv (WroteValue msg.result) msg) ∧
    ∀ msg ∈ [preparedRead [0, 1] 7 6,
        committedRead 0 (some (.timestamp ⟨100, 2⟩)) (some (sixVotes (rowWriter 2 1)))],
      pointQuerySigHelper evidenceEnv msg = .accept ∧
        ¬ Shown venv (WroteRow evidenceEnv msg.result) msg := by
  intro venv
  simp only [List.forall_mem_cons, List.not_mem_nil, IsEmpty.forall_iff, implies_true, and_true]
  refine ⟨⟨⟨by decide +kernel, fun h => ?_⟩, ⟨by decide +kernel, fun h => ?_⟩,
    ⟨by decide +kernel, fun h => ?_⟩, ⟨by decide +kernel, fun h => ?_⟩,
    by decide +kernel, fun h => ?_⟩, ⟨by decide +kernel, fun h => ?_⟩,
    by decide +kernel, fun h => ?_⟩
  · exact absurd (HasVoters.all h rfl).1 (by decide)
  · obtain ⟨-, -, hprepared⟩ := (HasVoters.all h rfl).2 ⟨[2, 8, 5], 0, [0]⟩ (by decide)
    exact absurd hprepared.key (by decide)
  · obtain ⟨hreplica, -⟩ := (HasVoters.all h rfl).2 ⟨[2, 7, 5], 6, [6]⟩ (by decide)
    exact absurd hreplica (by decide)
  · obtain ⟨proof, hproof, -⟩ := h
    cases hproof
  · obtain ⟨proof, hproof, hcert, -⟩ := h
    cases hproof
    exact hcert
  · obtain ⟨-, -, hprepared⟩ := (HasVoters.all h rfl).2 ⟨[2, 7, 5], 0, [0]⟩ (by decide)
    exact absurd hprepared.value (by decide)
  · obtain ⟨proof, hproof, -, -, w, hw, -, i, t, row, cols, hidx, htable, hrow, hcols, hshows⟩ := h
    cases hproof
    obtain rfl := List.mem_singleton.1 hw
    obtain rfl : i = 0 := by simpa using hidx.symm
    cases htable
    cases hrow
    cases hcols
    obtain ⟨-, fields, hfields, hvalues⟩ := hshows
    cases hfields
    obtain ⟨v, hv, hcolumn⟩ := hvalues 0 [1] 0 rfl rfl
    cases hcolumn
    cases hv

theorem evidence_sound_iff_prepared :
    let venv := evidenceEnv.toValidationEnv
    let msg := preparedRead [0, 1] 7 5
    readSigHelper venv msg = .accept ∧ Shown venv (WroteValue msg.result) msg := by
  intro venv msg
  have haccept : readSigHelper venv msg = .accept := by decide +kernel
  have hmeets : ReadMeets venv msg := by
    intro _ _
    exact ⟨_, .refl _, rfl, by decide, by decide⟩
  exact ⟨haccept, (evidence_sound_iff evidenceEnv rfl rfl msg (by decide) nofun).1.2 hmeets haccept⟩

end Sintr.Client
