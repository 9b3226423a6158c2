import Sintr.Mvtso.Delayed

/-!
# Policies and the transactions they govern

A check reads, for each write, the policy that governs it, and the version is recorded in the
transaction. `Outdated` says that such a record is older than it should be: a governance transaction
between the two has changed the policy.
-/

namespace Sintr.Mvtso

open State List Option Function

variable {env : Env}

/-! ## Records -/

/-- The regular transaction `t` has recorded a version of a policy, and the governance transaction
`g` writes a later one before `t`. -/
structure Outdated (env : Env) (t : Transaction) (r : ReadMessage) (g : Transaction)
    (w : WriteMessage) : Prop where
  regular : t.policyType = .none
  governance : g.policyType = .policyIdPolicy
  read : r ∈ t.implicitPolicyReads
  write : Writes env g w
  key : w.key = r.key
  older : r.readtime < g.timestamp
  before : g.timestamp < t.timestamp

def InForce (s : State) (txn : Transaction) : Prop :=
  (∃ d p, s.prepared d = some p ∧ p.txn = txn) ∨ ∃ d c, s.committed d = some c ∧ c.txn = txn

def firstPolicy (env : Env) (txn : Transaction) : Option WriteMessage :=
  (txn.writeSet.filter (ownedWrite env txn)).head?

variable {txn : Transaction} {w : WriteMessage} {s : State} {i : Input}
  {policyReads : List (Bytes × Timestamp)} {txns : List Transaction} {policyId : Bytes}
  {r : ReadMessage} {c : Committed}

inductive PolicyWrite (env : Env) (s : State) : Transaction → WriteMessage → Prop where
  | prepared {d : Digest} {p : Prepared} {w : WriteMessage} (h : s.prepared d = some p)
      (hw : Writes env p.txn w) : PolicyWrite env s p.txn w
  | committed {d : Digest} {c : Committed} {w : WriteMessage} (h : s.committed d = some c)
      (hw : firstPolicy env c.txn = some w) : PolicyWrite env s c.txn w

/-! ## The checks -/

theorem findPreparedVersion_none {ts : Timestamp} {committed : Option Timestamp}
    (h : s.findPreparedVersion policyId ts committed = none) :
    ∀ e ∈ s.preparedWrites policyId, e.1 ≤ ts → e.2.policyType = .policyIdPolicy →
      e.1 ≤ committed.getD .zero := by
  intro e he hle htype
  unfold findPreparedVersion at h
  rw [map_eq_none_iff, getLast?_eq_none_iff, filter_eq_nil_iff] at h
  have hno := h e he
  cases committed with
  | none => simp [hle, htype] at hno
  | some v => simpa [hle, htype] using hno

theorem policyCheckHelper_latest {ts v : Timestamp} (h : s.policyCheckHelper policyId ts = .ok v) :
    (∀ e ∈ s.preparedWrites policyId, e.1 ≤ ts → e.2.policyType = .policyIdPolicy → e.1 ≤ v) ∧
    ∀ e ∈ s.policyStore policyId, e.1 ≤ ts → e.1 ≤ v := by
  unfold policyCheckHelper at h
  dsimp only at h
  split at h
  · cases h
  · rename_i hnone
    split_ifs at h
    cases h
    refine ⟨findPreparedVersion_none hnone, fun e he hle => ?_⟩
    obtain ⟨last, hlast, hmax⟩ := OrdMap.exists_latestLE he hle
    rw [hlast]
    exact hmax

theorem readPolicies_ok {reads reads' : List (Bytes × Timestamp)}
    (h : s.readPolicies env txn reads w = .ok reads') :
    reads' = reads ∨ ∃ policyId v, policyOf env txn w = some policyId ∧
      s.policyCheckHelper policyId txn.timestamp = .ok v ∧ reads' = reads ++ [(policyId, v)] := by
  unfold readPolicies at h
  split at h
  · cases h
    exact .inl rfl
  · rename_i policyId hpol
    unfold readPolicy at h
    split_ifs at h
    · cases h
      exact .inl rfl
    · rw [Except.bind_eq_ok] at h
      obtain ⟨v, hv, h⟩ := h
      cases h
      exact .inr ⟨policyId, v, hpol, hv, rfl⟩

theorem checkWrites_policyReads (h : s.checkWrites env i txn = .ok policyReads) :
    ∀ e ∈ policyReads, s.policyCheckHelper e.1 txn.timestamp = .ok e.2 := by
  unfold checkWrites at h
  apply foldlM_induct
    (P := fun reads => ∀ e ∈ reads, s.policyCheckHelper e.1 txn.timestamp = .ok e.2) h
  · intro e he
    cases he
  · intro w _ reads reads' hw ih
    rcases readPolicies_ok (checkWrite_ok hw).1 with rfl | ⟨policyId, v, -, hv, rfl⟩
    · exact ih
    · intro e he
      rcases mem_append.1 he with he | he
      · exact ih e he
      · rw [mem_singleton.1 he]
        exact hv

theorem validate_checkWrites (h : s.validate env i txn = .ok policyReads) :
    s.checkWrites env i txn = .ok policyReads := by
  unfold validate at h
  dsimp only at h
  by_cases hmark : i.highWatermark < txn.timestamp
  · rw [if_pos hmark] at h
    cases h
  rw [if_neg hmark] at h
  by_cases hmono : env.params.useSemanticCC && !txn.writeSet.isEmpty && !i.monotonic
  · rw [if_pos hmono] at h
    cases h
  rw [if_neg hmono] at h
  split at h
  · cases h
  · rw [Except.bind_eq_ok] at h
    obtain ⟨reads, hreads, h⟩ := h
    split_ifs at h
    cases h
    exact hreads

/-! ## The invariant -/

/-- The policies and policy reads of committed transactions are in the indexes, and no record is
outdated, except for the deletion of a policy that was not there. -/
structure PolicyInv (env : Env) (s : State) : Prop where
  recorded : ∀ {d c r}, s.committed d = some c → r ∈ c.txn.implicitPolicyReads →
    ∃ proof, (toLex (c.txn.timestamp, r.readtime), proof) ∈ s.committedReads r.key
  installed : ∀ {d c w}, s.committed d = some c → c.txn.policyType = .policyIdPolicy →
    firstPolicy env c.txn = some w → ∃ v, (c.txn.timestamp, v) ∈ s.policyStore w.key
  order : ∀ {t r g w}, InForce s t → PolicyWrite env s g w → Outdated env t r g w →
    r.readtime = .zero ∧ w.value = some deletion

/-- A commit finds the transaction prepared, or done already, or there is nothing about policies in
it. -/
def CommitsPrepared (env : Env) (s : State) (txn : Transaction) : Prop :=
  (∃ p, s.prepared (env.digest txn) = some p ∧ p.txn = txn) ∨
  (s.committed (env.digest txn)).isSome ∨
  txn.policyType = .none ∧ txn.implicitPolicyReads = []

def ChecksApart (env : Env) (s : State) (txn : Transaction) : Prop :=
  txn.implicitPolicyReads = [] ∧ (txn.policyType = .policyIdPolicy →
    ∀ d p r w, s.prepared d = some p → p.txn.policyType = .none → r ∈ p.txn.implicitPolicyReads →
      Writes env txn w → w.key ≠ r.key)

def PolicyOrder (env : Env) (s : State) : Event → Prop
  | .check txn _ => ChecksApart env s txn
  | .commit txn _ _ => CommitsPrepared env s txn
  | .commitWithProof proof => CommitsPrepared env s proof.txn
  | .wakeCommitted .. | .abort _ => True

theorem PolicyInv.shrink {s' : State} (h : PolicyInv env s)
    (hprepared : ∀ d p, s'.prepared d = some p → s.prepared d = some p)
    (hcommitted : s'.committed = s.committed) (hreads : s'.committedReads = s.committedReads)
    (hpolicies : s'.policyStore = s.policyStore) : PolicyInv env s' where
  recorded := by rw [hcommitted, hreads]; exact h.recorded
  installed := by rw [hcommitted, hpolicies]; exact h.installed
  order ht hg := by
    refine h.order (ht.imp ?_ ?_) ?_
    · rintro ⟨d, p, hp, rfl⟩
      exact ⟨d, p, hprepared d p hp, rfl⟩
    · rw [hcommitted]
      exact id
    · cases hg with
      | prepared hp hw => exact .prepared (hprepared _ _ hp) hw
      | committed hc hw =>
        rw [hcommitted] at hc
        exact .committed hc hw

theorem PolicyInv.clean {d : Digest} (h : PolicyInv env s) :
    PolicyInv env (s.clean env d) := by
  refine h.shrink (clean_settles s d).prepared ?_ ?_ ?_
  all_goals
    unfold State.clean
    split <;> rfl

/-! ## Steps -/

theorem prepare_frame (s : State) (d : Digest) (txn : Transaction) (readSet : List ReadMessage)
    (policyReads : List (Bytes × Timestamp)) :
    (s.prepare env d txn readSet policyReads).committed = s.committed ∧
    (s.prepare env d txn readSet policyReads).committedReads = s.committedReads ∧
    (s.prepare env d txn readSet policyReads).policyStore = s.policyStore := by
  unfold State.prepare
  split_ifs
  · exact ⟨rfl, rfl, rfl⟩
  · exact ⟨rfl, rfl, rfl⟩

theorem not_outdated_of_validate (hprep : PreparedInv env txns s) (h : PolicyInv env s)
    (hvalid : s.validate env i txn = .ok policyReads) {t : Transaction}
    (htime : t.timestamp = txn.timestamp)
    (himplicit : t.implicitPolicyReads = policyReads.map fun p => { key := p.1, readtime := p.2 })
    {g : Transaction} (hg : PolicyWrite env s g w) :
    ¬ Outdated env t r g w := by
  intro ho
  have hread := ho.read
  rw [himplicit] at hread
  obtain ⟨e, he, rfl⟩ := mem_map.1 hread
  have hok := checkWrites_policyReads (validate_checkWrites hvalid) e he
  obtain ⟨hprepared, hstored⟩ := policyCheckHelper_latest hok
  have hkey : w.key = e.1 := ho.key
  have hbefore : g.timestamp ≤ txn.timestamp := htime ▸ ho.before.le
  have hlate : g.timestamp ≤ e.2 := by
    cases hg with
    | prepared hp hw =>
      have hentry := (hprep.written hp hw).resolve_right id
      rw [hprep.timestamp hp, hkey] at hentry
      exact hprepared _ hentry hbefore ho.governance
    | committed hc hw =>
      obtain ⟨v, hv⟩ := h.installed hc ho.governance hw
      rw [hkey] at hv
      exact hstored _ hv hbefore
  exact absurd ho.older (not_lt.2 hlate)

theorem PolicyInv.check (hprep : PreparedInv env txns s) (h : PolicyInv env s)
    (hapart : ChecksApart env s txn) :
    PolicyInv env (s.doMVTSOOCCCheck env txn i).1 := by
  rcases @check_prepares env s txn i with hs | ⟨policyReads, hnew, hvalid, hs⟩
  · rw [hs]
    exact h
  rw [hs]
  let new := addPolicyReads (preparedTxn env txn i) policyReads
  have hann : Annotates env new txn :=
    (addPolicyReads_annotates _ _).trans (dynamicDeps_annotates txn i)
  have himplicit : new.implicitPolicyReads =
      policyReads.map fun p => { key := p.1, readtime := p.2 } := by
    show (preparedTxn env txn i).implicitPolicyReads ++ _ = _
    rw [preparedTxn_implicitPolicyReads, hapart.1, nil_append]
  obtain ⟨hcommitted, hreads, hpolicies⟩ := @prepare_frame env s (env.digest txn)
    (preparedTxn env txn i) (mergedSets env txn).readSet policyReads
  refine ⟨by rw [hcommitted, hreads]; exact h.recorded,
    by rw [hcommitted, hpolicies]; exact h.installed, fun {t r g w} ht hg ho => ?_⟩
  have ht' : InForce s t ∨ t = new := by
    rcases ht with ⟨d, p, hp, rfl⟩ | hc
    · rcases prepare_prepared hp with hold | ⟨-, rfl⟩
      · exact .inl (.inl ⟨d, p, hold, rfl⟩)
      · exact .inr rfl
    · rw [hcommitted] at hc
      exact .inl (.inr hc)
  have hg' : PolicyWrite env s g w ∨ g = new := by
    cases hg with
    | prepared hp hw =>
      rcases prepare_prepared hp with hold | ⟨-, rfl⟩
      · exact .inl (.prepared hold hw)
      · exact .inr rfl
    | committed hc hw =>
      rw [hcommitted] at hc
      exact .inl (.committed hc hw)
  rcases ht' with hold | rfl
  · rcases hg' with hgold | rfl
    · exact h.order hold hgold ho
    · -- a governance transaction is new: only committed readers have to be considered
      have hw : Writes env txn w := hann.writes.1 ho.write
      rcases hold with ⟨d, p, hp, rfl⟩ | ⟨d, c, hc, rfl⟩
      · have hgov : txn.policyType = .policyIdPolicy := hann.policyType.symm.trans ho.governance
        exact absurd ho.key (hapart.2 hgov d p r w hp ho.regular ho.read hw)
      · obtain ⟨proof, hproof⟩ := h.recorded hc ho.read
        have hpass : ∀ x, s.validate env i txn = .error x → ¬ x.Refuses := fun x hx => by
          rw [hvalid] at hx
          cases hx
        obtain ⟨hconf, -⟩ := writeConflict_none ((validate_noConflict hpass).2 w hw.1 hw.2)
        rw [← ho.key] at hproof
        have hlt : txn.timestamp < c.txn.timestamp := hann.timestamp ▸ ho.before
        have holder : r.readtime < txn.timestamp := hann.timestamp ▸ ho.older
        exact overwrites_false (hconf _ hproof hlt) holder
  · rcases hg' with hgold | rfl
    · exact absurd ho (not_outdated_of_validate hprep h hvalid hann.timestamp himplicit hgold)
    · exact absurd (ho.regular.symm.trans ho.governance) (by decide)

theorem commitToStore_policyStore (s : State) (c : Committed) :
    (c.txn.policyType = .policyIdPolicy → ∀ w, firstPolicy env c.txn = some w →
      ∃ v, (c.txn.timestamp, v) ∈ (s.commitToStore env c).policyStore w.key) ∧
    ∀ k, ∀ e ∈ s.policyStore k, e ∈ (s.commitToStore env c).policyStore k := by
  unfold State.commitToStore firstPolicy
  dsimp only
  cases htype : c.txn.policyType with
  | none =>
    refine ⟨by simp, fun k e he => ?_⟩
    dsimp only
    split_ifs <;> exact he
  | policyIdPolicy =>
    cases c.txn.writeSet.filter (ownedWrite env c.txn) with
    | nil => exact ⟨by simp, fun k e he => he⟩
    | cons w ws =>
      refine ⟨fun _ w' hw' => ?_, fun k e he => ?_⟩
      · cases hw'
        dsimp only
        rw [update_self]
        exact OrdMap.exists_mem_insertNew _ _ _
      · dsimp only
        by_cases hk : k = w.key
        · subst hk
          rw [update_self]
          exact OrdMap.mem_insertNew.2 (.inl he)
        · rwa [update_of_ne hk]

theorem PolicyInv.commit (h : PolicyInv env s) (hc : CommitsPrepared env s c.txn) :
    PolicyInv env (s.commit env c) := by
  unfold State.commit
  dsimp only
  split_ifs with hdone
  · exact h
  let s₁ : State := { s with committed := update s.committed (env.digest c.txn) (some c) }
  obtain ⟨hprepared, -, -, hcommitted, hreads⟩ := @commitToStore_frame env s₁ c
  obtain ⟨hfirst, hpolicies⟩ := @commitToStore_policyStore env s₁ c
  have hkeep := (@updateCommittedReads_spec env s₁ c).2
  -- what is committed now was committed before, or is `c`
  have hcases : ∀ {d c'}, (s₁.commitToStore env c).committed d = some c' →
      c' = c ∨ s.committed d = some c' := fun {d c'} hc' => by
    rw [hcommitted, update_eq_some, some_inj] at hc'
    exact hc'.imp (·.2.symm) And.right
  refine PolicyInv.clean ⟨fun {d c' r} hc' hr => ?_, fun {d c' w} hc' hgov hw => ?_,
    fun {t r g w} ht hg ho => ?_⟩
  · rw [hreads]
    rcases hcases hc' with rfl | hold
    · exact OrdMap.exists_mem_inserts (g := ReadMessage.key)
        (t := fun r => toLex (c'.txn.timestamp, r.readtime)) (mem_append_right _ hr)
    · exact (h.recorded hold hr).imp fun proof hp => hkeep _ _ hp
  · rcases hcases hc' with rfl | hold
    · exact hfirst hgov w hw
    · exact (h.installed hold hgov hw).imp fun v hv => hpolicies _ _ hv
  · have ht' : InForce s t := by
      rcases ht with ⟨d, p, hp, rfl⟩ | ⟨d, c', hc', rfl⟩
      · rw [hprepared] at hp
        exact .inl ⟨d, p, hp, rfl⟩
      · rcases hcases hc' with rfl | hold
        · rcases hc with ⟨p, hp, heq⟩ | hin | ⟨-, hnone⟩
          · exact .inl ⟨_, p, hp, heq⟩
          · exact absurd hin hdone
          · have hread := ho.read
            rw [hnone] at hread
            cases hread
        · exact .inr ⟨d, c', hold, rfl⟩
    refine h.order ht' ?_ ho
    cases hg with
    | prepared hp hw =>
      rw [hprepared] at hp
      exact .prepared hp hw
    | committed hc' hw =>
      rcases hcases hc' with rfl | hold
      · rcases hc with ⟨p, hp, heq⟩ | hin | ⟨hreg, -⟩
        · rw [← heq] at hw ⊢
          exact .prepared hp (mem_filter.1 (mem_of_head? hw))
        · exact absurd hin hdone
        · exact absurd (hreg.symm.trans ho.governance) (by decide)
      · exact .committed hold hw

theorem PolicyInv.wakeCommitted {d : Digest} {merged : ReadSet} (h : PolicyInv env s) :
    PolicyInv env (s.wakeCommitted env d merged) := by
  unfold State.wakeCommitted
  cases hd : s.committed d with
  | none => exact h
  | some c =>
    dsimp only
    split_ifs
    · exact h
    refine ⟨fun {d' c' r} hc' hr => ?_, fun {d' c' w} hc' hgov hw => ?_,
      fun {t r g w} ht hg ho => ?_⟩
    · rcases update_eq_some.1 hc' with ⟨-, hsome⟩ | ⟨-, hold⟩
      · cases hsome
        exact (h.recorded hd hr).imp fun proof hp => (updateCommittedReads_spec _ _).2 _ _ hp
      · exact (h.recorded hold hr).imp fun proof hp => (updateCommittedReads_spec _ _).2 _ _ hp
    · rcases update_eq_some.1 hc' with ⟨-, hsome⟩ | ⟨-, hold⟩
      · cases hsome
        have hinst : ∃ v, (c.txn.timestamp, v) ∈ s.policyStore w.key := h.installed hd hgov hw
        exact hinst
      · exact h.installed hold hgov hw
    · have ht' : ∃ t₀, InForce s t₀ ∧ Outdated env t₀ r g w := by
        rcases ht with ⟨d', p, hp, rfl⟩ | ⟨d', c', hc', rfl⟩
        · exact ⟨_, .inl ⟨d', p, hp, rfl⟩, ho⟩
        · rcases update_eq_some.1 hc' with ⟨-, hsome⟩ | ⟨-, hold⟩
          · cases hsome
            exact ⟨c.txn, .inr ⟨d, c, hd, rfl⟩,
              ⟨ho.regular, ho.governance, ho.read, ho.write, ho.key, ho.older, ho.before⟩⟩
          · exact ⟨_, .inr ⟨d', c', hold, rfl⟩, ho⟩
      obtain ⟨t₀, ht₀, ho⟩ := ht'
      cases hg with
      | prepared hp hw => exact h.order ht₀ (.prepared hp hw) ho
      | committed hc' hw =>
        rcases update_eq_some.1 hc' with ⟨-, hsome⟩ | ⟨-, hold⟩
        · cases hsome
          exact h.order ht₀ (.committed hd hw)
            ⟨ho.regular, ho.governance, ho.read, ho.write, ho.key, ho.older, ho.before⟩
        · exact h.order ht₀ (.committed hold hw) ho

theorem step_policyInv {e : Event} (hprep : PreparedInv env txns s) (he : PolicyOrder env s e)
    (h : PolicyInv env s) :
    PolicyInv env (step env s e) := by
  unfold step
  split_ifs
  · exact h
  cases e with
  | check txn i => exact h.check hprep he
  | commit txn sigs view => exact h.commit he
  | commitWithProof proof => exact h.commit he
  | wakeCommitted d merged => exact h.wakeCommitted
  | abort d =>
    have habort : PolicyInv env { s with aborted := update s.aborted d true } :=
      h.shrink (fun _ _ hp => hp) rfl rfl rfl
    exact habort.clean

theorem Loaded.policyInv (h : Loaded s) : PolicyInv env s where
  recorded hc := by rw [h.committed] at hc; cases hc
  installed hc := by rw [h.committed] at hc; cases hc
  order ht := by
    rcases ht with ⟨d, p, hp, -⟩ | ⟨d, c, hc, -⟩
    · rw [h.prepared] at hp
      cases hp
    · rw [h.committed] at hc
      cases hc

/-- **Policy reads are serializable** if transactions with something about policies are committed
only where they are prepared, and no governance transaction is checked while a reader of its
policies is prepared. -/
theorem policies_serializable {s₀ : State} (h₀ : Loaded s₀) {es : List Event}
    (hes : TellApart env (checkedTxns es)) (horder : (machine env).Along (PolicyOrder env) s₀ es)
    {t g : Transaction} {r : ReadMessage} {w : WriteMessage}
    (ht : InForce ((machine env).run s₀ es) t) (hg : PolicyWrite env ((machine env).run s₀ es) g w)
    (hdel : ¬ (r.readtime = .zero ∧ w.value = some deletion)) : ¬ Outdated env t r g w := by
  have hmem : ∀ e ∈ es, ∀ txn i, e = Event.check txn i → txn ∈ checkedTxns es := by
    rintro e he txn i rfl
    exact List.mem_filterMap.2 ⟨_, he, rfl⟩
  have hinv := Machine.run_along
    (I := fun s => Inv env (checkedTxns es) s ∧ PolicyInv env s)
    (fun s e he h => ⟨step_inv hes he.2 h.1, step_policyInv h.1.prepared he.1 h.2⟩)
    ⟨h₀.inv _, h₀.policyInv⟩ (horder.and_forall hmem)
  exact fun ho => hdel (hinv.2.order ht hg ho)

/-! ## Runs that end with an outdated record -/

def policyEnv : Env := { Env.sample with params := { policyCCC := true } }

def putPolicy (value : Bytes) : WriteMessage := { key := [], value := some value }

def governor (writes : List WriteMessage) : Transaction :=
  { smallTxn 20000 2 [] writes with policyType := .policyIdPolicy }

def governed : Transaction := smallTxn 30000 1 [] [put [7]]

def governedAt (time : Timestamp) : Transaction := addPolicyReads governed [([], time)]

def namesake : Transaction := { smallTxn 20000 2 [] [putPolicy [1]] with clientSeqNum := 1 }

def EndsOutdated (env : Env) (es : List Event) (t g : Transaction) : Prop :=
  InForce ((machine env).run {} es) t ∧ InForce ((machine env).run {} es) g ∧
    ∃ r w, Outdated env t r g w

theorem EndsOutdated.intro {env : Env} {es : List Event} {t g : Transaction} (r : ReadMessage)
    (w : WriteMessage) (ho : Outdated env t r g w)
    (ht : (((machine env).run {} es).prepared (env.digest t)).map (·.txn) = some t ∨
      (((machine env).run {} es).committed (env.digest t)).map (·.txn) = some t)
    (hg : (((machine env).run {} es).prepared (env.digest g)).map (·.txn) = some g ∨
      (((machine env).run {} es).committed (env.digest g)).map (·.txn) = some g) :
    EndsOutdated env es t g := by
  have hforce : ∀ x, (((machine env).run {} es).prepared (env.digest x)).map (·.txn) = some x ∨
      (((machine env).run {} es).committed (env.digest x)).map (·.txn) = some x →
      InForce ((machine env).run {} es) x := by
    intro x hx
    rcases hx with hx | hx
    · obtain ⟨p, hp, heq⟩ := map_eq_some_iff.1 hx
      exact .inl ⟨_, p, hp, heq⟩
    · obtain ⟨c, hc, heq⟩ := map_eq_some_iff.1 hx
      exact .inr ⟨_, c, hc, heq⟩
  exact ⟨hforce t ht, hforce g hg, r, w, ho⟩

/-- **A recorded policy may be outdated.** By design a governance transaction commits whoever has
read its policies. Besides, its check misses policy reads of prepared transactions, only its first
policy is installed, and a client may send policy reads of its own. -/
theorem policies_outdated :
    EndsOutdated policyEnv [.check governed plain, .commit (governor [putPolicy [1]]) (.p1 []) 0]
      (governedAt .zero) (governor [putPolicy [1]]) ∧
    EndsOutdated policyEnv [.check governed plain, .commit (governedAt .zero) (.p1 []) 0,
        .check (governor [putPolicy deletion]) plain]
      (governedAt .zero) (addPolicyReads (governor [putPolicy deletion]) [([], .zero)]) ∧
    EndsOutdated policyEnv [.check governed plain, .check (governor [putPolicy [1]]) plain]
      (governedAt .zero) (addPolicyReads (governor [putPolicy [1]]) [([], .zero)]) ∧
    EndsOutdated policyEnv [.commit (governor [put [1], putPolicy [1]]) (.p1 []) 0,
        .check governed plain]
      (governedAt .zero) (governor [put [1], putPolicy [1]]) ∧
    EndsOutdated policyEnv [.check namesake plain, .check (governor [putPolicy [1]]) plain,
        .check governed plain]
      (governedAt .zero) (addPolicyReads (governor [putPolicy [1]]) [([], .zero)]) ∧
    EndsOutdated policyEnv [.commit (governor [putPolicy [1]]) (.p1 []) 0,
        .check (governedAt .zero) plain]
      (addPolicyReads (governedAt .zero) [([], ⟨20000, 2⟩)]) (governor [putPolicy [1]]) := by
  refine ⟨.intro { key := [], readtime := .zero } (putPolicy [1]) ?_ ?_ ?_,
    .intro { key := [], readtime := .zero } (putPolicy deletion) ?_ ?_ ?_,
    .intro { key := [], readtime := .zero } (putPolicy [1]) ?_ ?_ ?_,
    .intro { key := [], readtime := .zero } (putPolicy [1]) ?_ ?_ ?_,
    .intro { key := [], readtime := .zero } (putPolicy [1]) ?_ ?_ ?_,
    .intro { key := [], readtime := .zero } (putPolicy [1]) ?_ ?_ ?_⟩
  case refine_1 | refine_4 | refine_7 | refine_10 | refine_13 | refine_16 =>
    constructor <;> decide +kernel
  all_goals decide +kernel

theorem policies_serializable_governed :
    InForce ((machine policyEnv).run {} [.check (governor [putPolicy [1]]) plain,
      .commit (addPolicyReads (governor [putPolicy [1]]) [([], .zero)]) (.p1 []) 0,
      .check governed plain]) (governedAt ⟨20000, 2⟩) ∧
    ¬ Outdated policyEnv (governedAt ⟨20000, 2⟩) { key := [], readtime := ⟨20000, 2⟩ }
      (addPolicyReads (governor [putPolicy [1]]) [([], .zero)]) (putPolicy [1]) := by
  have hforce : InForce ((machine policyEnv).run {} [.check (governor [putPolicy [1]]) plain,
      .commit (addPolicyReads (governor [putPolicy [1]]) [([], .zero)]) (.p1 []) 0,
      .check governed plain]) (governedAt ⟨20000, 2⟩) :=
    .inl ⟨policyEnv.digest governed, ⟨⟨30000, 1⟩, governedAt ⟨20000, 2⟩, []⟩, by decide +kernel,
      rfl⟩
  refine ⟨hforce, policies_serializable loaded_empty (by decide +kernel) ?_ hforce
    (.committed (d := policyEnv.digest (governor [putPolicy [1]]))
      (c := ⟨addPolicyReads (governor [putPolicy [1]]) [([], .zero)], committedProof policyEnv
        (addPolicyReads (governor [putPolicy [1]]) [([], .zero)]) (.p1 []) 0⟩)
      (by decide +kernel) (by decide +kernel)) (by decide +kernel)⟩
  refine ⟨⟨rfl, ?_⟩, .inl ?_, ⟨rfl, ?_⟩, trivial⟩
  · intro _ d p r w hp
    cases hp
  · exact ⟨⟨⟨20000, 2⟩, addPolicyReads (governor [putPolicy [1]]) [([], .zero)], []⟩,
      by decide +kernel, rfl⟩
  · intro hgov
    cases hgov

end Sintr.Mvtso
