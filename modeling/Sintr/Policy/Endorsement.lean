import Sintr.Data.Params
import Sintr.Lib.OrdMap

/-!
# The endorsement check

Before a replica votes for a transaction it extracts the policy that governs it (`extractPolicy`)
and checks that the clients whose endorsements are valid satisfy it (`validateEndorsements`).

A missing policy, or policies that cannot be merged, make the server Panic: those runs are `none`.
-/

namespace Sintr

open List Option

abbrev PolicyStore := Bytes → OrdMap Timestamp Policy

/-- `GetPolicy` without prepared policies: the version in force at `ts`, or a Panic. -/
def getPolicy (ps : PolicyStore) (policyId : Bytes) (ts : Timestamp) :
    Option (Timestamp × Policy) :=
  (ps policyId).latestLE ts

section
variable (env : Env) (ps : PolicyStore) (txn : Transaction)

/-! ## Extracting the policy -/

/-- The policy that governs a write; the keys of a governance transaction are policy ids. -/
def writePolicyId (w : WriteMessage) : Bytes :=
  if txn.policyType ≠ .policyIdPolicy then env.policyIdFunction w.key (w.value.getD []) else w.key

/-- The policies of the owned writes; each policy id is added once. -/
def extractWrites : List WriteMessage → List Bytes → PolicyClient →
    Option (List Bytes × PolicyClient)
  | [], checked, pc => some (checked, pc)
  | w :: ws, checked, pc =>
    if w.isTableColVersion then extractWrites ws checked pc
    else if txn.policyType ≠ .policyIdPolicy ∧ !env.keyOwned w.key then
      extractWrites ws checked pc
    else if writePolicyId env txn w ∈ checked then extractWrites ws checked pc
    else do
      let tsPolicy ← getPolicy ps (writePolicyId env txn w) txn.timestamp
      let pc' ← pc.addPolicy tsPolicy.2
      extractWrites ws (writePolicyId env txn w :: checked) pc'

def liftsKeys : Bool :=
  !env.params.includeReadsetForTxnPolicy &&
    (!env.params.checkPolicyLeak || txn.liftKeys.length > 0) && txn.liftKeys.length > 0

/-- The versions the client saw of the policies must be those in force. -/
def policyVersionsMatch : List PolicyVersion → Option Bool
  | [] => some true
  | pv :: pvs => do
    let tsPolicy ← getPolicy ps pv.policyId txn.timestamp
    if pv.timestamp ≠ tsPolicy.1 then some false else policyVersionsMatch pvs

def liftCheck : Option Bool :=
  if liftsKeys env txn then policyVersionsMatch ps txn txn.policyVersions else some true

/-- With `includeReadsetForTxnPolicy` the policy of a read counts as well, once per policy id. -/
def addReadPolicy (policyId : Bytes) (checked : List Bytes) (toAdd : List Policy) :
    Option (List Bytes × List Policy) :=
  if env.params.includeReadsetForTxnPolicy ∧ policyId ∉ checked then
    (getPolicy ps policyId txn.timestamp).map fun tsPolicy =>
      (policyId :: checked, toAdd ++ [tsPolicy.2])
  else some (checked, toAdd)

/-- With `checkPolicyLeak` the policy a value was read under must imply the write policy, unless it
has been replaced since. -/
def leakCheck (pc : PolicyClient) (policyId : Bytes) (readtime : Timestamp)
    (seen : List (Bytes × Timestamp)) : Option (Bool × List (Bytes × Timestamp)) :=
  if !env.params.checkPolicyLeak then some (true, seen)
  else
    (getPolicy ps policyId readtime).bind fun tsPolicy =>
      if (policyId, tsPolicy.1) ∈ seen then some (true, seen)
      else if ((ps policyId).firstGT readtime).any (readtime < ·.1) then
        some (true, (policyId, tsPolicy.1) :: seen)
      else (pc.isImpliedBy tsPolicy.2).map fun implied => (implied, (policyId, tsPolicy.1) :: seen)

/-- The reads that are owned and not lifted: the policies to add, and whether none leaks. -/
def extractReads (lifted : List Key) (pc : PolicyClient) :
    List ReadMessage → List Bytes → List (Bytes × Timestamp) → List Policy →
    Option (Bool × List Policy)
  | [], _, _, toAdd => some (true, toAdd)
  | r :: rs, checked, seen, toAdd =>
    if r.isTableColVersion || !env.keyOwned r.key || r.key ∈ lifted then
      extractReads lifted pc rs checked seen toAdd
    else
      (addReadPolicy env ps txn (env.policyIdFunction r.key []) checked toAdd).bind fun a =>
        (leakCheck env ps pc (env.policyIdFunction r.key []) r.readtime seen).bind fun l =>
          if l.1 then extractReads lifted pc rs a.1 l.2 a.2 else some (false, a.2)

def addReadsetPolicies (pc : PolicyClient) (toAdd : List Policy) : Option PolicyClient :=
  if env.params.includeReadsetForTxnPolicy then toAdd.foldlM PolicyClient.addPolicy pc else some pc

def extractPolicy : Option (Bool × PolicyClient) :=
  (extractWrites env ps txn txn.writeSet [] none).bind fun w =>
    (liftCheck env ps txn).bind fun versionsOk =>
      if !versionsOk then some (false, w.2)
      else
        (extractReads env ps txn (if liftsKeys env txn then txn.liftKeys else []) w.2 txn.readSet
          w.1 [] []).bind fun r =>
            if !r.1 then some (false, w.2)
            else (addReadsetPolicies env w.2 r.2).map fun pc => (true, pc)

/-! ## Counting the endorsers -/

/-- `ValidateEndorsementHelper`: the endorsement is for this digest and signed by its client. -/
def validateEndorsementHelper (txnDigest : Digest) (m : SignedMessage) : Bool :=
  m.data.length ≠ 0 && env.valTxnDigest m.data == txnDigest &&
    (!env.params.signFinishValidation ||
      env.verifyClient m.processId (.endorsement m.data) m.signature)

/-- The endorsers `ValidateEndorsements` counts; the initiating client is always one of them. -/
def endorsers (txnDigest : Digest) : Endorsers :=
  insert txn.clientId
    (((txn.endorsements.getD []).filter (validateEndorsementHelper env txnDigest)).map
      (·.processId)).toFinset

def endorsementCheck (txnDigest : Digest) : Option Int :=
  (extractPolicy env ps txn).map fun r =>
    if !r.1 then -1 else r.2.isSatisfiedInt (endorsers env txn txnDigest)

/-! ## What the check establishes -/

def Endorsed : Prop :=
  ∃ pc, extractPolicy env ps txn = some (true, pc) ∧
    pc.isSatisfied (endorsers env txn (env.endorsedDigest txn)) = true

def StoredWeightsFit : Prop := ∀ policyId, ∀ e ∈ ps policyId, e.2.FitsInt

end

variable {env : Env} {ps : PolicyStore} {txn : Transaction} {dig : Digest} {policyId : Bytes}

theorem endorsementCheck_extract {i : Int} (h : endorsementCheck env ps txn dig = some i)
    (hi : 0 ≤ i) : ∃ pc, extractPolicy env ps txn = some (true, pc) ∧
      0 ≤ pc.isSatisfiedInt (endorsers env txn dig) := by
  obtain ⟨⟨ok, pc⟩, hx, hr⟩ := map_eq_some_iff.1 h
  cases ok with
  | false =>
    simp only [Bool.not_false, if_true] at hr
    omega
  | true =>
    simp only [Bool.not_true, Bool.false_eq_true, if_false] at hr
    exact ⟨pc, hx, hr ▸ hi⟩

/-! ## The extracted weight is one of the stored ones -/

theorem getPolicy_fits (hps : StoredWeightsFit ps) {ts : Timestamp} {tp : Timestamp × Policy}
    (h : getPolicy ps policyId ts = some tp) : tp.2.FitsInt :=
  hps policyId tp (OrdMap.latestLE_some h).1

variable {checked : List Bytes} {pc : PolicyClient} {toAdd : List Policy}

theorem extractWrites_fits (hps : StoredWeightsFit ps) {ws : List WriteMessage}
    {r : List Bytes × PolicyClient} (hpc : pc.FitsInt)
    (h : extractWrites env ps txn ws checked pc = some r) : r.2.FitsInt := by
  induction ws generalizing checked pc with
  | nil => cases h; exact hpc
  | cons w ws ih =>
    unfold extractWrites at h
    split_ifs at h
    · exact ih hpc h
    · exact ih hpc h
    · exact ih hpc h
    · simp only [bind_eq_bind, bind_eq_some_iff] at h
      obtain ⟨tp, htp, pc', hadd, hrest⟩ := h
      exact ih (PolicyClient.addPolicy_fitsInt hpc (getPolicy_fits hps htp) hadd) hrest

theorem addPolicies_fits {qs : List Policy} (hqs : ∀ q ∈ qs, q.FitsInt) {pc' : PolicyClient}
    (hpc : pc.FitsInt) (h : qs.foldlM PolicyClient.addPolicy pc = some pc') : pc'.FitsInt := by
  induction qs generalizing pc with
  | nil => cases h; exact hpc
  | cons q qs ih =>
    simp only [foldlM_cons, bind_eq_bind, bind_eq_some_iff] at h
    obtain ⟨pc₁, hadd, hrest⟩ := h
    exact ih (fun q hq => hqs q (mem_cons_of_mem _ hq))
      (PolicyClient.addPolicy_fitsInt hpc (hqs q mem_cons_self) hadd) hrest

theorem addReadPolicy_fits (hps : StoredWeightsFit ps) {a : List Bytes × List Policy}
    (hadd : ∀ q ∈ toAdd, q.FitsInt) (h : addReadPolicy env ps txn policyId checked toAdd = some a) :
    ∀ q ∈ a.2, q.FitsInt := by
  unfold addReadPolicy at h
  split at h
  · obtain ⟨tp, htp, rfl⟩ := map_eq_some_iff.1 h
    intro q hq
    rcases mem_append.1 hq with hq | hq
    · exact hadd q hq
    · rw [mem_singleton.1 hq]
      exact getPolicy_fits hps htp
  · cases h
    exact hadd

theorem extractReads_fits (hps : StoredWeightsFit ps) {lifted : List Key} {rs : List ReadMessage}
    {seen : List (Bytes × Timestamp)} {r : Bool × List Policy} (hadd : ∀ q ∈ toAdd, q.FitsInt)
    (h : extractReads env ps txn lifted pc rs checked seen toAdd = some r) :
    ∀ q ∈ r.2, q.FitsInt := by
  induction rs generalizing checked seen toAdd with
  | nil => cases h; exact hadd
  | cons rd rs ih =>
    unfold extractReads at h
    split at h
    · exact ih hadd h
    · simp only [bind_eq_some_iff] at h
      obtain ⟨a, ha, l, -, h⟩ := h
      have hadd' := addReadPolicy_fits hps hadd ha
      split at h
      · exact ih hadd' h
      · cases h; exact hadd'

theorem extractPolicy_fits (hps : StoredWeightsFit ps) {b : Bool}
    (h : extractPolicy env ps txn = some (b, pc)) : pc.FitsInt := by
  simp only [extractPolicy, bind_eq_some_iff] at h
  obtain ⟨w, hw, versionsOk, -, h⟩ := h
  have hpc : w.2.FitsInt := extractWrites_fits hps (show PolicyClient.FitsInt none from trivial) hw
  split at h
  · cases h; exact hpc
  · simp only [bind_eq_some_iff] at h
    obtain ⟨r, hr, h⟩ := h
    split at h
    · cases h; exact hpc
    · obtain ⟨pc', hpc', hb⟩ := map_eq_some_iff.1 h
      cases hb
      unfold addReadsetPolicies at hpc'
      split at hpc'
      · exact addPolicies_fits (extractReads_fits hps (by simp) hr) hpc hpc'
      · cases hpc'; exact hpc

/-! ## Merged read sets play no part -/

theorem extractPolicy_mergedReadSet (m : Option ReadSet) :
    extractPolicy env ps { txn with mergedReadSet := m } = extractPolicy env ps txn := by
  have hwrites : ∀ ws checked pc, extractWrites env ps { txn with mergedReadSet := m } ws checked pc
      = extractWrites env ps txn ws checked pc := by
    intro ws
    induction ws with
    | nil => intros; rfl
    | cons w ws ih => intros; simp only [extractWrites, ih]; rfl
  have hversions : ∀ pvs, policyVersionsMatch ps { txn with mergedReadSet := m } pvs =
      policyVersionsMatch ps txn pvs := by
    intro pvs
    induction pvs with
    | nil => rfl
    | cons pv pvs ih => simp only [policyVersionsMatch, ih]
  have hreads : ∀ lifted pc rs checked seen toAdd,
      extractReads env ps { txn with mergedReadSet := m } lifted pc rs checked seen toAdd =
        extractReads env ps txn lifted pc rs checked seen toAdd := by
    intro lifted pc rs
    induction rs with
    | nil => intros; rfl
    | cons r rs ih => intros; simp only [extractReads, ih]; rfl
  simp only [extractPolicy, liftCheck, hwrites, hversions, hreads]
  rfl

end Sintr
