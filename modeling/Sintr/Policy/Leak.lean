import Sintr.Mvtso.State
import Sintr.Policy.Endorsement

/-!
# Policy leaks

With `checkPolicyLeak` the policy under which a transaction has read a row has to imply the merged
policy of its writes, unless the policy has been replaced since. `extractPolicy` looks for leaks in
the read set of the transaction. The read sets of its queries are merged later, by the concurrency
check, unless the client has merged them into the read set.
-/

namespace Sintr

open Mvtso (mergedSets ownedRead)

def Newest (ps : PolicyStore) (policyId : Bytes) (version : Timestamp) : Prop :=
  ∀ e ∈ ps policyId, e.1 ≤ version

section
variable (env : Env) (ps : PolicyStore) (txn : Transaction)

def writePolicy : Option PolicyClient := (extractWrites env ps txn txn.writeSet [] none).map (·.2)

/-- Whatever rows the transaction has read, itself or through a query: the policy in force at the
time, if it has not been replaced, implies that of the writes. -/
def LeakFree : Prop :=
  ∀ r, r ∈ txn.readSet ∨ r ∈ (mergedSets env txn).readSet → ownedRead env r = true →
    ∀ tp, getPolicy ps (env.policyIdFunction r.key []) r.readtime = some tp →
      Newest ps (env.policyIdFunction r.key []) tp.1 →
      ∃ pc, writePolicy env ps txn = some pc ∧ pc.isImpliedBy tp.2 = some true

end

/-- With these flags, transactions with these queries and without lifted keys pass the endorsement
check only if they are free of leaks. -/
def NoLeakPasses (params : Params) (querySet : List QueryResultMetaData) : Prop :=
  ∀ env ps txn digest verdict, env.params = { params with checkPolicyLeak := true } →
    txn.querySet = querySet → txn.liftKeys = [] →
    endorsementCheck env ps txn digest = some verdict → 0 ≤ verdict → LeakFree env ps txn

/-! ## What the check establishes -/

variable {env : Env} {ps : PolicyStore} {txn : Transaction} {pc : PolicyClient}
  {seen seen' : List (Bytes × Timestamp)} {tp : Timestamp × Policy} {policyId : Bytes}
  {r : ReadMessage}

def SeenOk (ps : PolicyStore) (pc : PolicyClient) (seen : List (Bytes × Timestamp)) : Prop :=
  ∀ policyId version p, (policyId, version) ∈ seen → (version, p) ∈ ps policyId →
    Newest ps policyId version → pc.isImpliedBy p = some true

theorem SeenOk.cons (h : SeenOk ps pc seen) {version : Timestamp}
    (hnew : ∀ p, (version, p) ∈ ps policyId → Newest ps policyId version →
      pc.isImpliedBy p = some true) : SeenOk ps pc ((policyId, version) :: seen) := by
  intro policyId' version' p hmem
  rcases List.mem_cons.1 hmem with heq | hmem
  · cases heq
    exact hnew p
  · exact h policyId' version' p hmem

theorem leakCheck_ok (hleak : env.params.checkPolicyLeak = true) (hseen : SeenOk ps pc seen)
    {readtime : Timestamp} (h : leakCheck env ps pc policyId readtime seen = some (true, seen')) :
    SeenOk ps pc seen' ∧
      ∀ tp, getPolicy ps policyId readtime = some tp → (policyId, tp.1) ∈ seen' := by
  unfold leakCheck at h
  rw [hleak, Bool.not_true, if_neg Bool.false_ne_true] at h
  obtain ⟨tp, htp, h⟩ := Option.bind_eq_some_iff.1 h
  obtain ⟨hmem, hle⟩ := OrdMap.latestLE_some htp
  have hsame : ∀ tp', getPolicy ps policyId readtime = some tp' → tp' = tp :=
    fun tp' htp' => Option.some.inj (htp'.symm.trans htp)
  split_ifs at h with hold hnext
  · cases h
    exact ⟨hseen, fun tp' htp' => hsame tp' htp' ▸ hold⟩
  · cases h
    refine ⟨hseen.cons fun p _ hnewest => ?_, fun tp' htp' => hsame tp' htp' ▸ List.mem_cons_self⟩
    obtain ⟨e, he, hlt⟩ := (Option.any_eq_true _ _).1 hnext
    have hlater := (hnewest e (List.mem_of_find?_eq_some he)).trans hle
    exact absurd (of_decide_eq_true hlt) (not_lt.2 hlater)
  · obtain ⟨implied, himplied, heq⟩ := Option.map_eq_some_iff.1 h
    cases heq
    refine ⟨hseen.cons fun p hp _ => ?_, fun tp' htp' => hsame tp' htp' ▸ List.mem_cons_self⟩
    rwa [OrdMap.eq_of_mem hp hmem]

theorem extractReads_ok (hleak : env.params.checkPolicyLeak = true) {rs : List ReadMessage}
    {checked : List Bytes} {toAdd toAdd' : List Policy} (hseen : SeenOk ps pc seen)
    (h : extractReads env ps txn [] pc rs checked seen toAdd = some (true, toAdd')) (hr : r ∈ rs)
    (hown : ownedRead env r = true)
    (htp : getPolicy ps (env.policyIdFunction r.key []) r.readtime = some tp)
    (hnewest : Newest ps (env.policyIdFunction r.key []) tp.1) :
    pc.isImpliedBy tp.2 = some true := by
  induction rs generalizing checked seen toAdd with
  | nil => cases hr
  | cons r' rs ih =>
    unfold extractReads at h
    split at h
    · rename_i hskip
      refine ih hseen h ((List.mem_cons.1 hr).resolve_left ?_)
      rintro rfl
      simp only [ownedRead, Bool.and_eq_true, Bool.not_eq_true'] at hown
      simp [hown] at hskip
    · simp only [Option.bind_eq_some_iff] at h
      obtain ⟨a, -, ⟨ok, seen'⟩, hl, h⟩ := h
      cases ok with
      | false => cases h
      | true =>
        obtain ⟨hseen', hall⟩ := leakCheck_ok hleak hseen hl
        rcases List.mem_cons.1 hr with rfl | hr
        · exact hseen' _ _ _ (hall tp htp) (OrdMap.latestLE_some htp).1 hnewest
        · exact ih hseen' h hr

theorem implied_of_extractPolicy (hleak : env.params.checkPolicyLeak = true)
    (hlift : txn.liftKeys = []) (h : extractPolicy env ps txn = some (true, pc))
    (hr : r ∈ txn.readSet) (hown : ownedRead env r = true)
    (htp : getPolicy ps (env.policyIdFunction r.key []) r.readtime = some tp)
    (hnewest : Newest ps (env.policyIdFunction r.key []) tp.1) :
    ∃ pc, writePolicy env ps txn = some pc ∧ pc.isImpliedBy tp.2 = some true := by
  simp only [extractPolicy, Option.bind_eq_some_iff] at h
  obtain ⟨w, hw, versionsOk, -, h⟩ := h
  refine ⟨w.2, by rw [writePolicy, hw, Option.map_some], ?_⟩
  have hlifted : (if liftsKeys env txn then txn.liftKeys else []) = [] := by
    rw [hlift, ite_self]
  rw [hlifted] at h
  split at h
  · cases h
  · obtain ⟨⟨ok, toAdd⟩, hreads, h⟩ := Option.bind_eq_some_iff.1 h
    cases ok with
    | false => cases h
    | true =>
      have hempty : SeenOk ps w.2 [] := fun _ _ _ hmem => absurd hmem List.not_mem_nil
      exact extractReads_ok hleak hempty hreads hr hown htp hnewest

/-! ## Leaks through queries -/

def leakEnv (params : Params) : Env :=
  { Env.sample with
    params := { params with checkPolicyLeak := true }
    policyIdFunction := fun k _ => k }

def leakPolicies (policyId : Bytes) : OrdMap Timestamp Policy :=
  OrdMap.empty.insertNew .zero (.weight (if policyId = [1] then 1 else 0))

def leakTxn (querySet : List QueryResultMetaData) : Transaction where
  clientId := 0
  clientSeqNum := 0
  writeSet := [{ key := [1], value := some [] }]
  querySet
  mergedReadSet := some { readSet := [{ key := [2] }] }

theorem leakTxn_passes (params : Params) (querySet : List QueryResultMetaData) :
    endorsementCheck (leakEnv params) leakPolicies (leakTxn querySet) [] = some 0 := by
  have hlifts : liftsKeys (leakEnv params) (leakTxn querySet) = false := Bool.and_false _
  have hadd : addReadsetPolicies (leakEnv params) (some (.weight 1)) [] = some (some (.weight 1)) :=
    ite_self _
  have hextract : extractPolicy (leakEnv params) leakPolicies (leakTxn querySet) =
      some (true, some (.weight 1)) := by
    rw [extractPolicy, liftCheck, hlifts]
    exact congrArg (Option.map (Prod.mk true)) hadd
  have hendorsers : endorsers (leakEnv params) (leakTxn querySet) [] = {0} := rfl
  rw [endorsementCheck, hextract, hendorsers]
  decide

/-- **No leak passes** the endorsement check exactly if the client merges the read sets of queries
into that of the transaction, or there are none. -/
theorem noLeakPasses_iff (params : Params) (querySet : List QueryResultMetaData) :
    NoLeakPasses params querySet ↔
      querySet = [] ∨ params.cacheReadSet = false ∧ params.mergeActiveAtClient = true := by
  constructor
  · intro h
    by_contra hcond
    rw [not_or] at hcond
    have hfree := h (leakEnv params) leakPolicies (leakTxn querySet) [] 0 rfl rfl rfl
      (leakTxn_passes params querySet) le_rfl
    have hmerged : (mergedSets (leakEnv params) (leakTxn querySet)).readSet = [{ key := [2] }] := by
      rw [mergedSets, if_neg]
      · rfl
      · simpa [leakEnv, leakTxn] using hcond.symm
    have hread : { key := [2] } ∈ (mergedSets (leakEnv params) (leakTxn querySet)).readSet := by
      rw [hmerged]
      exact List.mem_singleton_self _
    have hnewest : Newest leakPolicies [2] .zero := by
      intro e he
      rw [List.mem_singleton.1 he]
    obtain ⟨pc, hpc, himplied⟩ := hfree _ (.inr hread) rfl (.zero, .weight 0) rfl hnewest
    obtain rfl : some (.weight 1) = pc := Option.some.inj hpc
    exact absurd himplied (by decide)
  · intro hcond env ps txn digest verdict hparams hquery hlift hcheck hpass r hr hown tp htp hnewest
    obtain ⟨pc, hx, -⟩ := endorsementCheck_extract hcheck hpass
    have hbase : (mergedSets env txn).readSet = txn.readSet := by
      rw [mergedSets, if_pos]
      rw [hparams, hquery]
      rcases hcond with rfl | ⟨hcache, hmerge⟩
      · exact Bool.or_true _
      · simp [hcache, hmerge]
    rw [hbase, or_self] at hr
    exact implied_of_extractPolicy (by rw [hparams]) hlift hx hr hown htp hnewest

/-- The default of the replicas is to cache the read sets of queries. -/
theorem leak_through_query :
    let env := leakEnv { cacheReadSet := true }
    let txn := leakTxn [{ queryId := [3], retryVersion := 0 }]
    endorsementCheck env leakPolicies txn [] = some 0 ∧
      { key := [2] } ∈ (mergedSets env txn).readSet ∧
      getPolicy leakPolicies (env.policyIdFunction [2] []) .zero = some (.zero, .weight 0) ∧
      (leakPolicies [2]).entries.length = 1 ∧
      (writePolicy env leakPolicies txn).bind (·.isImpliedBy (.weight 0)) = some false := by
  decide +kernel

end Sintr
