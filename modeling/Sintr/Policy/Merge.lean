import Mathlib.Data.Finset.Image
import Sintr.Lib.PartialFold
import Sintr.Policy.Endorsement

/-!
# Merging policies

The policies of a transaction are merged into one, which should ask for what all of them ask for.
The order of a kind of policies is meant to be how hard they are to satisfy; for OR policies it is
inclusion of the client lists, in which the empty list has the wrong place: it is satisfied by
anyone, and it is below every list.
-/

namespace Sintr

open PartialFold List Option

namespace Policy

/-! ## What endorsers satisfy -/

def SameKind : Policy → Policy → Prop
  | weight _, weight _ => True
  | and _, and _ => True
  | or _, or _ => True
  | _, _ => False

def EmptyTogether : Policy → Policy → Prop
  | or ids, or js => ids = ∅ ↔ js = ∅
  | _, _ => True

variable {E : Endorsers} {ids : Finset UInt64} {js : Finset UInt64}

@[simp] theorem isSatisfied_weight {w : UInt64} :
    (weight w).isSatisfied E = true ↔ w.toNat ≤ E.card := by
  simp [isSatisfied]

@[simp] theorem isSatisfied_and :
    (and ids).isSatisfied E = true ↔ ids ⊆ E := by
  simp [isSatisfied]

@[simp] theorem isSatisfied_or :
    (or ids).isSatisfied E = true ↔ ids = ∅ ∨ (ids ∩ E).Nonempty := by
  simp [isSatisfied]

theorem exists_card_eq (w : UInt64) : ∃ E : Endorsers, E.card = w.toNat := by
  refine ⟨(Finset.range w.toNat).image UInt64.ofNat, ?_⟩
  rw [Finset.card_image_of_injOn, Finset.card_range]
  intro i hi j hj heq
  have hw : w.toNat < 2 ^ 64 := w.toNat_lt
  have hi' : i < 2 ^ 64 := (Finset.mem_range.1 hi).trans hw
  have hj' : j < 2 ^ 64 := (Finset.mem_range.1 hj).trans hw
  have hnat := congrArg UInt64.toNat heq
  rwa [UInt64.toNat_ofNat_of_lt' hi', UInt64.toNat_ofNat_of_lt' hj'] at hnat

theorem isSatisfied_or_empty :
    (or ids).isSatisfied ∅ = true ↔ ids = ∅ := by
  rw [isSatisfied_or, Finset.inter_empty]
  simp

theorem isSatisfied_or_mono (hsub : ids ⊆ js) (hempty : ids = ∅ → js = ∅)
    (h : (or ids).isSatisfied E = true) : (or js).isSatisfied E = true := by
  rw [isSatisfied_or] at h ⊢
  exact h.imp hempty fun hne => hne.mono (Finset.inter_subset_inter_right hsub)

/-! ## Merging -/

theorem toNat_larger (w v : UInt64) :
    (if v > w then v else w).toNat = max w.toNat v.toNat := by
  simp only [gt_iff_lt, UInt64.lt_iff_toNat_lt]
  split_ifs <;> omega

theorem conj_or_iff (hsub : ids ⊆ js) :
    (∀ E, (or ids).isSatisfied E = true ↔
      (or ids).isSatisfied E = true ∧ (or js).isSatisfied E = true) ↔ (ids = ∅ ↔ js = ∅) := by
  constructor
  · intro h
    refine ⟨fun hids => ?_, fun hjs => Finset.subset_empty.1 (hjs ▸ hsub)⟩
    exact isSatisfied_or_empty.1 ((h ∅).1 (isSatisfied_or_empty.2 hids)).2
  · intro hempty E
    exact ⟨fun h => ⟨h, isSatisfied_or_mono hsub hempty.1 h⟩, fun h => h.1⟩

/-- **Merging is conjunction**, where no empty OR list meets one that is not empty. -/
theorem mergePolicy_conj_iff {p q m : Policy} (h : p.mergePolicy q = some m) :
    (∀ E, m.isSatisfied E = true ↔ p.isSatisfied E = true ∧ q.isSatisfied E = true) ↔
      EmptyTogether p q := by
  cases p <;> cases q <;> simp only [mergePolicy, reduceCtorEq, Option.some.injEq] at h
  case weight.weight w v =>
    subst h
    refine iff_of_true (fun E => ?_) trivial
    rw [isSatisfied_weight, isSatisfied_weight, isSatisfied_weight, toNat_larger]
    omega
  case and.and ids js =>
    subst h
    refine iff_of_true (fun E => ?_) trivial
    rw [isSatisfied_and, isSatisfied_and, isSatisfied_and, Finset.union_subset_iff]
  case or.or ids js =>
    split_ifs at h with hij hji
    · cases h
      exact conj_or_iff hij
    · cases h
      have hcomm : EmptyTogether (or ids) (or js) ↔ (js = ∅ ↔ ids = ∅) := iff_comm
      rw [hcomm, ← conj_or_iff hji]
      exact forall_congr' fun E => iff_congr Iff.rfl and_comm

theorem mergePolicy_conj_iff_weights :
    (∀ E, (weight 3).isSatisfied E = true ↔
      (weight 2).isSatisfied E = true ∧ (weight 3).isSatisfied E = true) ↔
        EmptyTogether (weight 2) (weight 3) :=
  mergePolicy_conj_iff (p := weight 2) (q := weight 3) (by decide)

/-- An empty list stays when it is merged with another one, and lets anyone through. -/
theorem mergePolicy_drops_or :
    mergePolicy (or {1}) (or ∅) = some (or ∅) ∧ (or ∅).isSatisfied ∅ = true ∧
      (or {1}).isSatisfied ∅ = false := by
  decide

/-! ## Implication -/

/-- **The order of policies is implication**, where no empty OR list meets one that is not empty. -/
theorem isImpliedBy_iff {p q : Policy} (hkind : p.SameKind q) :
    (p.isImpliedBy q = some true ↔
      ∀ E, q.isSatisfied E = true → p.isSatisfied E = true) ↔ EmptyTogether p q := by
  cases p <;> cases q <;> try exact hkind.elim
  case weight.weight w v =>
    refine iff_of_true ?_ trivial
    simp only [isImpliedBy, Option.some.injEq, decide_eq_true_eq, isSatisfied_weight,
      UInt64.le_iff_toNat_le]
    constructor
    · intro hle E hv
      omega
    · intro h
      obtain ⟨E, hE⟩ := exists_card_eq v
      have hw := h E hE.ge
      omega
  case and.and ids js =>
    refine iff_of_true ?_ trivial
    simp only [isImpliedBy, Option.some.injEq, decide_eq_true_eq, isSatisfied_and]
    exact ⟨fun hsub E hjs => hsub.trans hjs, fun h => h js subset_rfl⟩
  case or.or ids js =>
    simp only [isImpliedBy, Option.some.injEq, decide_eq_true_eq, EmptyTogether]
    constructor
    · intro h
      constructor
      · intro hids
        have hsub : js ⊆ ids := h.2 fun E _ => isSatisfied_or.2 (.inl hids)
        exact Finset.subset_empty.1 (hids ▸ hsub)
      · intro hjs
        have himp := h.1 (hjs ▸ Finset.empty_subset ids) ∅
        exact isSatisfied_or_empty.1 (himp (isSatisfied_or_empty.2 hjs))
    · intro hempty
      refine ⟨fun hsub E => isSatisfied_or_mono hsub hempty.2, fun h i hi => ?_⟩
      -- the endorser `i` alone satisfies the one, and so the other
      have hsat := h {i} (isSatisfied_or.2 (.inr ⟨i, by simp [hi]⟩))
      rcases isSatisfied_or.1 hsat with hids | ⟨k, hk⟩
      · rw [hempty.1 hids] at hi
        exact absurd hi (Finset.notMem_empty i)
      · obtain ⟨hkids, hki⟩ := Finset.mem_inter.1 hk
        exact Finset.mem_singleton.1 hki ▸ hkids

theorem isImpliedBy_iff_ands :
    (isImpliedBy (and {1}) (and {1, 2}) = some true ↔
      ∀ E, (and {1, 2}).isSatisfied E = true → (and {1}).isSatisfied E = true) ↔
        EmptyTogether (and {1}) (and {1, 2}) :=
  isImpliedBy_iff trivial

/-- The empty OR list is said to imply each other one, and to be implied by none. -/
theorem isImpliedBy_empty :
    isImpliedBy (or {1}) (or ∅) = some true ∧
      ((or ∅).isSatisfied ∅ = true ∧ (or {1}).isSatisfied ∅ = false) ∧
    isImpliedBy (or ∅) (or {1}) = some false ∧
      ∀ E, (or {1}).isSatisfied E = true → (or ∅).isSatisfied E = true := by
  refine ⟨by decide, by decide, by decide, fun E _ => ?_⟩
  exact isSatisfied_or.2 (.inl rfl)

end Policy

/-! ## The order of policies -/

/-- What `AddPolicy` makes of policies, one after the other. -/
def addPolicies (l : List Policy) : Option PolicyClient := l.foldlM PolicyClient.addPolicy none

/-- The accumulated policies accept the same endorsers and are implied by the same policies. -/
def PolicyClient.SameVerdicts (pc pc' : PolicyClient) : Prop :=
  (∀ E, pc.isSatisfied E = pc'.isSatisfied E) ∧ ∀ q, pc.isImpliedBy q = pc'.isImpliedBy q

/-- If all are OR policies, then their client lists are comparable, or none of them is within all
others. -/
def OrderFree (l : List Policy) : Prop :=
  ∀ ls : List (Finset UInt64), l = ls.map .or →
    IsChain (· ≤ ·) {ids | ids ∈ ls} ∨ ¬ ∃ ids, IsLeast {ids | ids ∈ ls} ids

namespace Policy

def IsOr : Policy → Prop
  | or _ => True
  | _ => False

theorem mergePolicy_or (ids js : Finset UInt64) :
    mergePolicy (or ids) (or js) = (smaller ids js).map or := by
  simp only [mergePolicy, smaller]
  split_ifs <;> rfl

variable {p q : Policy}

theorem mergePolicy_isOr {m : Policy} (h : p.mergePolicy q = some m) :
    (q.IsOr ↔ p.IsOr) ∧ (m.IsOr ↔ p.IsOr) := by
  cases p <;> cases q <;> simp only [mergePolicy, reduceCtorEq, Option.some.injEq] at h
  case or.or ids js => split_ifs at h <;> cases h <;> exact ⟨Iff.rfl, Iff.rfl⟩
  all_goals
    subst h
    exact ⟨Iff.rfl, Iff.rfl⟩

theorem mergePolicy_comm (hp : ¬ p.IsOr) : p.mergePolicy q = q.mergePolicy p := by
  cases p <;> cases q
  case weight.weight w v =>
    refine congrArg (fun u => some (weight u)) (UInt64.toNat_inj.1 ?_)
    rw [toNat_larger, toNat_larger, max_comm]
  case and.and ids js => rw [mergePolicy, mergePolicy, Finset.union_comm]
  case or.or => exact absurd trivial hp
  all_goals rfl

theorem mergePolicy_swap (hp : ¬ p.IsOr) (hq : ¬ q.IsOr) (r : Policy) :
    (r.mergePolicy p).bind (fun m => m.mergePolicy q) =
      (r.mergePolicy q).bind fun m => m.mergePolicy p := by
  cases p <;> cases q <;> try first | exact absurd trivial hp | exact absurd trivial hq
  case weight.weight w v =>
    cases r with
    | weight u =>
      refine congrArg (fun u => some (weight u)) (UInt64.toNat_inj.1 ?_)
      rw [toNat_larger, toNat_larger, toNat_larger, toNat_larger, max_right_comm]
    | and | or => rfl
  case and.and ids js =>
    cases r with
    | and ks =>
      simp only [mergePolicy, bind_some]
      rw [Finset.union_right_comm]
    | weight | or => rfl
  all_goals cases r <;> rfl

end Policy

namespace PolicyClient

theorem addPolicy_swap {p q : Policy} (hp : ¬ p.IsOr) (hq : ¬ q.IsOr) (pc : PolicyClient) :
    (pc.addPolicy p).bind (fun pc => pc.addPolicy q) =
      (pc.addPolicy q).bind fun pc => pc.addPolicy p := by
  cases pc with
  | none => exact congrArg (Option.map some) (Policy.mergePolicy_comm hp)
  | some r =>
    have hswap := congrArg (Option.map some) (Policy.mergePolicy_swap hp hq r)
    simpa [addPolicy, Option.map_bind, Option.bind_map, Function.comp_def] using hswap

theorem foldlM_isOr {p : Policy} {l : List Policy} {r : PolicyClient}
    (h : l.foldlM addPolicy (some p) = some r) : ∀ q ∈ l, (q.IsOr ↔ p.IsOr) := by
  induction l generalizing p with
  | nil => simp
  | cons q l ih =>
    rw [foldlM_cons, bind_eq_bind, bind_eq_some_iff] at h
    obtain ⟨pc, hadd, hrest⟩ := h
    obtain ⟨m, hm, rfl⟩ := map_eq_some_iff.1 hadd
    obtain ⟨hq, hmor⟩ := Policy.mergePolicy_isOr hm
    intro q' hq'
    rcases mem_cons.1 hq' with rfl | hq'
    · exact hq
    · exact (ih hrest q' hq').trans hmor

theorem foldlM_or (ids : Finset UInt64) (ls : List (Finset UInt64)) :
    (ls.map Policy.or).foldlM addPolicy (some (.or ids)) =
      (keepLeast ids ls).map fun m => some (Policy.or m) := by
  induction ls generalizing ids with
  | nil => rfl
  | cons js ls ih =>
    rw [map_cons, foldlM_cons, keepLeast_cons, addPolicy, Policy.mergePolicy_or]
    cases smaller ids js with
    | none => rfl
    | some m => exact ih m

end PolicyClient

theorem addPolicies_or (ls : List (Finset UInt64)) :
    addPolicies (ls.map Policy.or) = (leastOf ls).map (Option.map Policy.or) := by
  cases ls with
  | nil => rfl
  | cons ids ls =>
    refine (PolicyClient.foldlM_or ids ls).trans ?_
    rw [leastOf, Option.map_map]
    rfl

variable {l : List Policy}

theorem addPolicies_mixed {p q : Policy} (hp : p ∈ l) (hq : q ∈ l) (hpor : p.IsOr)
    (hqor : ¬ q.IsOr) : addPolicies l = none := by
  rw [eq_none_iff_forall_ne_some]
  intro r hr
  cases l with
  | nil => cases hp
  | cons p₀ l =>
    have hkind : ∀ q ∈ p₀ :: l, (q.IsOr ↔ p₀.IsOr) := by
      intro q' hq'
      rcases mem_cons.1 hq' with rfl | hq'
      · exact Iff.rfl
      · exact PolicyClient.foldlM_isOr hr q' hq'
    exact hqor ((hkind q hq).2 ((hkind p hp).1 hpor))

theorem exists_map_or (h : ∀ p ∈ l, p.IsOr) :
    ∃ ls : List (Finset UInt64), l = ls.map Policy.or := by
  induction l with
  | nil => exact ⟨[], rfl⟩
  | cons p l ih =>
    obtain ⟨ls, hls⟩ := ih fun q hq => h q (mem_cons_of_mem _ hq)
    have hp := h p mem_cons_self
    cases p with
    | or ids => exact ⟨ids :: ls, by rw [hls]; rfl⟩
    | weight w => exact hp.elim
    | and ids => exact hp.elim

theorem addPolicies_perm {l₁ l₂ : List Policy} (hfree : OrderFree l) (h₁ : l₁.Perm l)
    (h₂ : l₂.Perm l) : addPolicies l₁ = addPolicies l₂ := by
  by_cases hall : ∀ p ∈ l, p.IsOr
  · obtain ⟨ls, hls⟩ := exists_map_or hall
    obtain ⟨ls₁, hls₁⟩ := exists_map_or fun p hp => hall p (h₁.mem_iff.1 hp)
    obtain ⟨ls₂, hls₂⟩ := exists_map_or fun p hp => hall p (h₂.mem_iff.1 hp)
    have hinj : Function.Injective Policy.or := fun _ _ h => Policy.or.inj h
    rw [hls, hls₁, map_perm_map_iff hinj] at h₁
    rw [hls, hls₂, map_perm_map_iff hinj] at h₂
    rw [hls₁, hls₂, addPolicies_or, addPolicies_or, leastOf_perm_iff.2 (hfree ls hls) _ _ h₁ h₂]
  · push Not at hall
    obtain ⟨q, hq, hqor⟩ := hall
    by_cases hnone : ∀ p ∈ l, ¬ p.IsOr
    · apply foldlM_perm (h₁.trans h₂.symm)
      intro p hp q hq
      exact PolicyClient.addPolicy_swap (hnone p (h₁.mem_iff.1 hp)) (hnone q (h₁.mem_iff.1 hq))
    · push Not at hnone
      obtain ⟨p, hp, hpor⟩ := hnone
      rw [addPolicies_mixed (h₁.mem_iff.2 hp) (h₁.mem_iff.2 hq) hpor hqor,
        addPolicies_mixed (h₂.mem_iff.2 hp) (h₂.mem_iff.2 hq) hpor hqor]

/-! ## The order of the reads -/

section
variable (env : Env) (ps : PolicyStore) (txn : Transaction)

def writePolicies : List WriteMessage → List Bytes → Option (List Policy)
  | [], _ => some []
  | w :: ws, checked =>
    if w.isTableColVersion then writePolicies ws checked
    else if txn.policyType ≠ .policyIdPolicy ∧ !env.keyOwned w.key then writePolicies ws checked
    else if writePolicyId env txn w ∈ checked then writePolicies ws checked
    else do
      let tsPolicy ← getPolicy ps (writePolicyId env txn w) txn.timestamp
      let rest ← writePolicies ws (writePolicyId env txn w :: checked)
      some (tsPolicy.2 :: rest)

/-- `ExtractPolicy` with the order in which it visits the hash set of read policies. -/
def extractPolicyIn (visit : List Policy → List Policy) : Option (Bool × PolicyClient) :=
  (extractWrites env ps txn txn.writeSet [] none).bind fun w =>
    (liftCheck env ps txn).bind fun versionsOk =>
      if !versionsOk then some (false, w.2)
      else
        (extractReads env ps txn (if liftsKeys env txn then txn.liftKeys else []) w.2 txn.readSet
          w.1 [] []).bind fun r =>
            if !r.1 then some (false, w.2)
            else (addReadsetPolicies env w.2 (visit r.2)).map fun pc => (true, pc)

def Adds (writes reads : List Policy) : Prop :=
  writePolicies env ps txn txn.writeSet [] = some writes ∧
    ∀ w, extractWrites env ps txn txn.writeSet [] none = some w →
      ∀ r, extractReads env ps txn (if liftsKeys env txn then txn.liftKeys else []) w.2 txn.readSet
        w.1 [] [] = some r → r.2 = reads

end

/-- Neither the result of adding the policies nor that of an extraction which adds them depends on
the order. -/
def OrderIrrelevant (l : List Policy) : Prop :=
  (∀ l₁ l₂, l₁.Perm l → l₂.Perm l →
    Option.Rel PolicyClient.SameVerdicts (addPolicies l₁) (addPolicies l₂)) ∧
  ∀ env ps txn writes reads, Adds env ps txn writes reads → (writes ++ reads).Perm l →
    ∀ visit visit' : List Policy → List Policy, (∀ l, (visit l).Perm l) →
      (∀ l, (visit' l).Perm l) →
      Option.Rel (fun r r' => r.1 = r'.1 ∧ PolicyClient.SameVerdicts r.2 r'.2)
        (extractPolicyIn env ps txn visit) (extractPolicyIn env ps txn visit')

variable {env : Env} {ps : PolicyStore} {txn : Transaction} {pc : PolicyClient}

theorem PolicyClient.SameVerdicts.rfl : pc.SameVerdicts pc :=
  ⟨fun _ => Eq.refl _, fun _ => Eq.refl _⟩

theorem extractWrites_eq_foldlM {ws : List WriteMessage} {checked : List Bytes}
    {w : List Bytes × PolicyClient} (h : extractWrites env ps txn ws checked pc = some w) :
    ∃ l, writePolicies env ps txn ws checked = some l ∧
      l.foldlM PolicyClient.addPolicy pc = some w.2 := by
  induction ws generalizing checked pc with
  | nil =>
    cases h
    exact ⟨[], rfl, rfl⟩
  | cons w₀ ws ih =>
    unfold extractWrites at h
    unfold writePolicies
    split_ifs at h ⊢
    · exact ih h
    · exact ih h
    · exact ih h
    · simp only [bind_eq_bind, bind_eq_some_iff] at h
      obtain ⟨tsPolicy, hget, pc', hadd, hrest⟩ := h
      obtain ⟨l, hl, hfold⟩ := ih hrest
      refine ⟨tsPolicy.2 :: l, by simp [hget, hl], ?_⟩
      rw [foldlM_cons, hadd]
      exact hfold

theorem extractPolicyIn_eq {writes reads : List Policy} {visit visit' : List Policy → List Policy}
    (hadds : Adds env ps txn writes reads)
    (heq : addPolicies (writes ++ visit reads) = addPolicies (writes ++ visit' reads)) :
    extractPolicyIn env ps txn visit = extractPolicyIn env ps txn visit' := by
  obtain ⟨hwrites, hreads⟩ := hadds
  unfold extractPolicyIn
  cases hw : extractWrites env ps txn txn.writeSet [] none with
  | none => rfl
  | some w =>
    obtain ⟨l, hl, hfold⟩ := extractWrites_eq_foldlM hw
    cases hwrites.symm.trans hl
    simp only [bind_some]
    refine congrArg (Option.bind _) (funext fun versionsOk => if_congr Iff.rfl rfl ?_)
    cases hr : extractReads env ps txn (if liftsKeys env txn then txn.liftKeys else []) w.2
        txn.readSet w.1 [] [] with
    | none => rfl
    | some r =>
      simp only [bind_some, hreads w hw r hr]
      have hadd : addReadsetPolicies env w.2 (visit reads) =
          addReadsetPolicies env w.2 (visit' reads) := by
        unfold addPolicies at heq
        rw [foldlM_append, foldlM_append, hfold] at heq
        exact if_congr Iff.rfl heq rfl
      rw [hadd]

/-- **The order of policies**: exactly where the lists of OR policies are comparable, or have no
least one. -/
theorem addPolicies_perm_iff (l : List Policy) : OrderIrrelevant l ↔ OrderFree l := by
  constructor
  · rintro ⟨hagree, -⟩ ls rfl
    rw [← leastOf_perm_iff]
    intro ls₁ ls₂ h₁ h₂
    have hrel := hagree _ _ (h₁.map Policy.or) (h₂.map Policy.or)
    rw [addPolicies_or, addPolicies_or] at hrel
    cases ho₁ : leastOf ls₁ with
    | none =>
      cases ho₂ : leastOf ls₂ with
      | none => rfl
      | some o₂ =>
        rw [ho₁, ho₂] at hrel
        cases hrel
    | some o₁ =>
      cases ho₂ : leastOf ls₂ with
      | none =>
        rw [ho₁, ho₂] at hrel
        cases hrel
      | some o₂ => rw [leastOf_agree (h₁.trans h₂.symm) ho₁ ho₂]
  · intro hfree
    constructor
    · intro l₁ l₂ h₁ h₂
      rw [addPolicies_perm hfree h₁ h₂]
      cases addPolicies l₂ with
      | none => exact .none
      | some pc => exact .some PolicyClient.SameVerdicts.rfl
    · intro env ps txn writes reads hadds hperm visit visit' hvisit hvisit'
      have heq := addPolicies_perm hfree (((hvisit reads).append_left writes).trans hperm)
        (((hvisit' reads).append_left writes).trans hperm)
      rw [extractPolicyIn_eq hadds heq]
      cases extractPolicyIn env ps txn visit' with
      | none => exact .none
      | some r => exact .some ⟨rfl, PolicyClient.SameVerdicts.rfl⟩

/-- Adding the list within the others first succeeds, adding it last stops the process. -/
theorem addPolicies_order :
    [Policy.or {1, 2}, .or {1, 3}, .or {1}].Perm [.or {1}, .or {1, 2}, .or {1, 3}] ∧
      addPolicies [.or {1, 2}, .or {1, 3}, .or {1}] = none ∧
      addPolicies [.or {1}, .or {1, 2}, .or {1, 3}] = some (some (.or {1})) := by
  decide

end Sintr
