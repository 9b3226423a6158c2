import Sintr.Mvtso.Check

/-!
# What the indexes hold

`Inv` says that the indexes have the reads and writes of every committed and every prepared
transaction, so that a check which looks at the indexes has looked at all of them.

* `IndexInv.clean`, `prepare_preparedInv`, `commit_committedInv` and the like: each handler keeps
  both parts of it.
* `run_inv`: it holds in every run in which the transactions that are checked can be told apart by
  their timestamps.

The last condition is needed because prepared writes are indexed by timestamp: of two transactions
with the same timestamp only the first is entered, and cleaning either of them removes it.
-/

namespace Sintr.Mvtso

open State List Option Function

variable {env : Env}

def RowWrite (env : Env) (txn : Transaction) (w : WriteMessage) : Prop :=
  txn.policyType = .none ∧ w ∈ txn.writeSet ∧ ownedWrite env txn w
deriving Decidable

/-- `w` is a write of `txn` that takes effect here. -/
def Writes (env : Env) (txn : Transaction) (w : WriteMessage) : Prop :=
  w ∈ txn.writeSet ∧ ownedWrite env txn w
deriving Decidable

def TellApart (env : Env) (txns : List Transaction) : Prop :=
  ∀ t ∈ txns, ∀ t' ∈ txns, t.timestamp = t'.timestamp → env.digest t = env.digest t'
deriving Decidable

structure CommittedInv (env : Env) (s : State) : Prop where
  stored : s.crashed = false → ∀ {d c w}, s.committed d = some c → RowWrite env c.txn w →
    ∃ v, (c.txn.timestamp, v) ∈ s.store w.key
  recorded : ∀ {d c r}, s.committed d = some c → r ∈ (mergedSets env c.txn).readSet →
    ownedRead env r → ∃ proof, (toLex (c.txn.timestamp, r.readtime), proof) ∈ s.committedReads r.key

/-- What the prepared transactions have in the indexes, unless they are being prepared. -/
structure IndexInv (env : Env) (txns : List Transaction) (busy : Digest → Prop) (s : State) :
    Prop where
  timestamp : ∀ {d p}, s.prepared d = some p → p.timestamp = p.txn.timestamp
  digest : ∀ {d p}, s.prepared d = some p → env.digest p.txn = d
  checked : ∀ {d p}, s.prepared d = some p →
    ∃ t ∈ txns, t.timestamp = p.timestamp ∧ env.digest t = d
  read : ∀ {d p r}, s.prepared d = some p → r ∈ p.readSet → ownedRead env r →
    p.txn ∈ s.preparedReads r.key ∨ busy d
  written : ∀ {d p w}, s.prepared d = some p → Writes env p.txn w →
    (p.timestamp, p.txn) ∈ s.preparedWrites w.key ∨ busy d
  owner : ∀ {k e}, e ∈ s.preparedWrites k → ∃ d p, s.prepared d = some p ∧
    e = (p.timestamp, p.txn) ∧ ∃ w, Writes env p.txn w ∧ w.key = k

/-- No transaction is being prepared. -/
abbrev PreparedInv (env : Env) (txns : List Transaction) : State → Prop :=
  IndexInv env txns fun _ => False

structure Inv (env : Env) (txns : List Transaction) (s : State) : Prop where
  committed : CommittedInv env s
  prepared : PreparedInv env txns s

variable {s s' : State} {txns : List Transaction} {busy busy' : Digest → Prop} {d : Digest}
  {p : Prepared} {txn a b : Transaction} {c : Committed} {policyReads : List (Bytes × Timestamp)}
  {readSet : List ReadMessage} {merged : ReadSet} {t : Transaction}

theorem Loaded.inv (h : Loaded s) (txns : List Transaction) : Inv env txns s where
  committed :=
    { stored := fun _ _ _ _ hc => by rw [h.committed] at hc; cases hc
      recorded := fun hc => by rw [h.committed] at hc; cases hc }
  prepared :=
    { timestamp := fun hp => by rw [h.prepared] at hp; cases hp
      digest := fun hp => by rw [h.prepared] at hp; cases hp
      checked := fun hp => by rw [h.prepared] at hp; cases hp
      read := fun hp => by rw [h.prepared] at hp; cases hp
      written := fun hp => by rw [h.prepared] at hp; cases hp
      owner := fun he => by rw [h.preparedWrites] at he; cases he }

theorem CommittedInv.congr (h : CommittedInv env s) (hstore : s'.store = s.store)
    (hreads : s'.committedReads = s.committedReads) (hcommitted : s'.committed = s.committed)
    (hcrashed : s'.crashed = s.crashed) :
    CommittedInv env s' where
  stored hc := by rw [hstore, hcommitted]; exact h.stored (hcrashed ▸ hc)
  recorded := by rw [hreads, hcommitted]; exact h.recorded

theorem IndexInv.congr (h : IndexInv env txns busy s) (hprepared : s'.prepared = s.prepared)
    (hreads : s'.preparedReads = s.preparedReads) (hwrites : s'.preparedWrites = s.preparedWrites) :
    IndexInv env txns busy s' where
  timestamp := by rw [hprepared]; exact h.timestamp
  digest := by rw [hprepared]; exact h.digest
  checked := by rw [hprepared]; exact h.checked
  read := by rw [hprepared, hreads]; exact h.read
  written := by rw [hprepared, hwrites]; exact h.written
  owner := by rw [hprepared, hwrites]; exact h.owner

theorem IndexInv.settle (h : IndexInv env txns busy s)
    (hbusy : ∀ d, busy d → busy' d ∨ ∀ p, s.prepared d = some p →
      (∀ r ∈ p.readSet, ownedRead env r → p.txn ∈ s.preparedReads r.key) ∧
        ∀ w, Writes env p.txn w → (p.timestamp, p.txn) ∈ s.preparedWrites w.key) :
    IndexInv env txns busy' s where
  timestamp := h.timestamp
  digest := h.digest
  checked := h.checked
  read hp hr hown := by
    rcases h.read hp hr hown with hin | hb
    · exact .inl hin
    · exact (hbusy _ hb).symm.imp_left fun hall => (hall _ hp).1 _ hr hown
  written hp hw := by
    rcases h.written hp hw with hin | hb
    · exact .inl hin
    · exact (hbusy _ hb).symm.imp_left fun hall => (hall _ hp).2 _ hw
  owner := h.owner

/-! ## Clean -/

theorem clean_committedInv (h : CommittedInv env s) :
    CommittedInv env (s.clean env d) := by
  unfold clean
  cases s.prepared d with
  | none => exact h
  | some p => exact h.congr rfl rfl rfl rfl

theorem IndexInv.digest_eq (h : IndexInv env txns busy s) (htxns : TellApart env txns)
    (hp : s.prepared d = some p) (ht : t ∈ txns) (heq : p.timestamp = t.timestamp) :
    d = env.digest t := by
  obtain ⟨t', ht', htime, rfl⟩ := h.checked hp
  exact htxns t' ht' t ht (htime.trans heq)

theorem clean_prepared {d' : Digest} :
    (s.clean env d).prepared d' = some p ↔ d' ≠ d ∧ s.prepared d' = some p := by
  unfold clean
  cases hd : s.prepared d with
  | none =>
    refine ⟨fun hp => ⟨?_, hp⟩, And.right⟩
    rintro rfl
    rw [hd] at hp
    cases hp
  | some x => simp [update_eq_some]

theorem IndexInv.clean (htxns : TellApart env txns) (h : IndexInv env txns busy s) :
    IndexInv env txns busy (s.clean env d) := by
  cases hd : s.prepared d with
  | none => rwa [State.clean, hd]
  | some p =>
    refine ⟨fun hp => h.timestamp (clean_prepared.1 hp).2,
      fun hp => h.digest (clean_prepared.1 hp).2, fun hp => h.checked (clean_prepared.1 hp).2,
      ?_, ?_, ?_⟩
    · intro d' p' r hp' hr hown
      obtain ⟨hdd, hp'⟩ := clean_prepared.1 hp'
      refine (h.read hp' hr hown).imp_left fun hin => ?_
      refine (mem_preparedReads_clean hd).2 ⟨hin, fun heq => absurd ?_ hdd⟩
      rw [← h.digest hp', heq, h.digest hd]
    · intro d' p' w hp' hw
      obtain ⟨hdd, hp'⟩ := clean_prepared.1 hp'
      refine (h.written hp' hw).imp_left fun hin => ?_
      refine (mem_preparedWrites_clean hd).2 ⟨hin, fun heq => absurd ?_ hdd⟩
      obtain ⟨t, ht, htime, hdig⟩ := h.checked hd
      rw [← hdig]
      exact h.digest_eq htxns hp' ht (heq.trans htime.symm)
    · intro k e he
      obtain ⟨hmem, hkeys⟩ := (mem_preparedWrites_clean hd).1 he
      obtain ⟨d', p', hp', rfl, w, hw, rfl⟩ := h.owner hmem
      refine ⟨d', p', clean_prepared.2 ⟨?_, hp'⟩, rfl, w, hw, rfl⟩
      -- the entries of the cleaned transaction itself are gone
      rintro rfl
      obtain rfl : p = p' := some.inj (hd.symm.trans hp')
      refine hkeys rfl (mem_map.2 ⟨w, ?_, rfl⟩)
      simp [cleanedWrites, hw.1, hw.2]

/-! ## Prepare -/

theorem prepare_preparedInv (htxns : TellApart env txns) (h : PreparedInv env txns s)
    (ht : t ∈ txns) (htime : t.timestamp = txn.timestamp) (hdig : env.digest t = d)
    (hd : env.digest txn = d) :
    PreparedInv env txns (s.prepare env d txn readSet policyReads) := by
  cases hnew : s.prepared d with
  | some p => rwa [prepare, if_pos (by simp [hnew])]
  | none =>
  let new : Prepared := ⟨txn.timestamp, addPolicyReads txn policyReads, readSet⟩
  have hprepared : (s.prepare env d txn readSet policyReads).prepared =
      update s.prepared d (some new) := by
    rw [prepare, if_neg (by simp [hnew])]
    rfl
  have hcases : ∀ {d' p'}, (s.prepare env d txn readSet policyReads).prepared d' = some p' →
      d' = d ∧ new = p' ∨ s.prepared d' = some p' := fun {d' p'} hp' => by
    rw [hprepared, update_eq_some, some_inj] at hp'
    exact hp'.imp_right And.right
  -- nobody has prepared a write at this time
  have hfree : ∀ {k y}, (txn.timestamp, y) ∉ s.preparedWrites k := fun {k y} hy => by
    obtain ⟨d', p', hp', heq, -⟩ := h.owner hy
    obtain ⟨t', ht', htime', hdig'⟩ := h.checked hp'
    have hdd : d = d' := by
      rw [← hdig, ← hdig', htxns t ht t' ht' (by rw [htime, htime', (Prod.mk.inj heq).1])]
    rw [← hdd, hnew] at hp'
    cases hp'
  refine ⟨fun hp' => ?_, fun hp' => ?_, fun hp' => ?_, ?_, ?_, ?_⟩
  · rcases hcases hp' with ⟨rfl, rfl⟩ | hp'
    · rfl
    · exact h.timestamp hp'
  · rcases hcases hp' with ⟨rfl, rfl⟩ | hp'
    · exact (transactionDigest_annotated _ _ _ _ _ _ _).trans hd
    · exact h.digest hp'
  · rcases hcases hp' with ⟨rfl, rfl⟩ | hp'
    · exact ⟨t, ht, htime, hdig⟩
    · exact h.checked hp'
  · intro d' p' r hp' hr hown
    rw [mem_preparedReads_prepare hnew]
    rcases hcases hp' with ⟨rfl, rfl⟩ | hp'
    · refine .inl (.inr ⟨rfl, mem_append_left _ (mem_map.2 ⟨r, ?_, rfl⟩)⟩)
      exact mem_filter.2 ⟨hr, hown⟩
    · exact (h.read hp' hr hown).imp_left .inl
  · intro d' p' w hp' hw
    rw [mem_preparedWrites_prepare hnew]
    rcases hcases hp' with ⟨rfl, rfl⟩ | hp'
    · exact .inl (.inr ⟨rfl, ⟨w, hw.1, hw.2, rfl⟩, fun _ => hfree⟩)
    · exact (h.written hp' hw).imp_left .inl
  · intro k e he
    rw [hprepared]
    rcases (mem_preparedWrites_prepare hnew).1 he with he | ⟨rfl, ⟨w, hw, hown, hk⟩, -⟩
    · obtain ⟨d', p', hp', hrest⟩ := h.owner he
      refine ⟨d', p', update_eq_some.2 (.inr ⟨?_, hp'⟩), hrest⟩
      rintro rfl
      rw [hnew] at hp'
      cases hp'
    · exact ⟨d, new, update_self .., rfl, w, ⟨hw, hown⟩, hk⟩

/-! ## Commit -/

theorem storedValues_keys (ws : List WriteMessage) (val : Bytes) :
    (storedValues ws val).map (·.1) = ws.map (·.key) := by
  induction ws generalizing val with
  | nil => rfl
  | cons w ws ih => simp [storedValues, ih]

theorem updateCommittedReads_spec (s : State) (c : Committed) :
    (∀ r ∈ (mergedSets env c.txn).readSet, ownedRead env r → ∃ proof,
      (toLex (c.txn.timestamp, r.readtime), proof) ∈
        (s.updateCommittedReads env c).committedReads r.key) ∧
    ∀ k, ∀ e ∈ s.committedReads k, e ∈ (s.updateCommittedReads env c).committedReads k := by
  refine ⟨fun r hr hown => ?_, fun k e he => ?_⟩
  · refine OrdMap.exists_mem_inserts (g := ReadMessage.key)
      (t := fun r => toLex (c.txn.timestamp, r.readtime)) (mem_append_left _ ?_)
    exact mem_filter.2 ⟨hr, hown⟩
  · exact OrdMap.mem_inserts_of_mem (g := ReadMessage.key)
      (t := fun r => toLex (c.txn.timestamp, r.readtime)) he

theorem commitToStore_frame (s : State) (c : Committed) :
    (s.commitToStore env c).prepared = s.prepared ∧
    (s.commitToStore env c).preparedReads = s.preparedReads ∧
    (s.commitToStore env c).preparedWrites = s.preparedWrites ∧
    (s.commitToStore env c).committed = s.committed ∧
    (s.commitToStore env c).committedReads = (s.updateCommittedReads env c).committedReads := by
  unfold commitToStore
  dsimp only
  split
  · split <;> exact ⟨rfl, rfl, rfl, rfl, rfl⟩
  · split <;> exact ⟨rfl, rfl, rfl, rfl, rfl⟩

theorem commitToStore_store (h : (s.commitToStore env c).crashed = false) :
    s.crashed = false ∧
    (∀ w, RowWrite env c.txn w →
      ∃ v, (c.txn.timestamp, v) ∈ (s.commitToStore env c).store w.key) ∧
    ∀ k, ∀ e ∈ s.store k, e ∈ (s.commitToStore env c).store k := by
  revert h
  unfold commitToStore
  dsimp only
  cases htype : c.txn.policyType with
  | policyIdPolicy =>
    dsimp only
    split <;>
      exact fun h => ⟨h, fun w hw => absurd (hw.1.symm.trans htype) (by decide), fun _ _ he => he⟩
  | none =>
    dsimp only
    split_ifs
    · intro h
      cases h
    · refine fun h => ⟨h, fun w hw => ?_, fun k e he => ?_⟩
      · have hkey : w.key ∈ (storedValues (c.txn.writeSet.filter (ownedWrite env c.txn)) []).map
            (·.1) := by
          rw [storedValues_keys]
          exact mem_map.2 ⟨w, mem_filter.2 hw.2, rfl⟩
        obtain ⟨e, he, hek⟩ := mem_map.1 hkey
        rw [← hek]
        exact OrdMap.exists_mem_inserts (g := Prod.fst) (t := fun _ => c.txn.timestamp) he
      · exact OrdMap.mem_inserts_of_mem (g := Prod.fst) (t := fun _ => c.txn.timestamp) he

theorem commit_committedInv (h : CommittedInv env s) :
    CommittedInv env (s.commit env c) := by
  unfold commit
  dsimp only
  split_ifs
  · exact h
  refine clean_committedInv ⟨fun hlive d' c' w hc' hw => ?_, fun {d' c' r} hc' hr hown => ?_⟩
  · obtain ⟨hlive', hnew, hold⟩ := commitToStore_store hlive
    rw [(commitToStore_frame _ c).2.2.2.1, update_eq_some, some_inj] at hc'
    rcases hc' with ⟨-, rfl⟩ | ⟨-, hc'⟩
    · exact hnew w hw
    · exact (h.stored hlive' hc' hw).imp fun v hv => hold _ _ hv
  · obtain ⟨-, -, -, hcommitted, hreads⟩ := commitToStore_frame
      { s with committed := update s.committed (env.digest c.txn) (some c) } c
    obtain ⟨hnew, hold⟩ := @updateCommittedReads_spec env
      { s with committed := update s.committed (env.digest c.txn) (some c) } c
    rw [hcommitted, update_eq_some, some_inj] at hc'
    rw [hreads]
    rcases hc' with ⟨-, rfl⟩ | ⟨-, hc'⟩
    · exact hnew r hr hown
    · exact (h.recorded hc' hr hown).imp fun proof hp => hold _ _ hp

theorem commit_preparedInv (htxns : TellApart env txns) (h : PreparedInv env txns s) :
    PreparedInv env txns (s.commit env c) := by
  unfold commit
  dsimp only
  split_ifs
  · exact h
  · obtain ⟨hprepared, hreads, hwrites, -⟩ := commitToStore_frame
      { s with committed := update s.committed (env.digest c.txn) (some c) } c
    exact (h.congr hprepared hreads hwrites).clean htxns

theorem wakeCommitted_committedInv (h : CommittedInv env s) :
    CommittedInv env (s.wakeCommitted env d merged) := by
  unfold wakeCommitted
  cases hd : s.committed d with
  | none => exact h
  | some c =>
    dsimp only
    split_ifs
    · exact h
    refine ⟨fun hlive d' c' w hc' hw => ?_, fun {d' c' r} hc' hr hown => ?_⟩
    · rcases update_eq_some.1 hc' with ⟨-, hsome⟩ | ⟨-, hold⟩
      · rw [← some.inj hsome] at hw ⊢
        have hstored : ∃ v, (c.txn.timestamp, v) ∈ s.store w.key := h.stored hlive hd hw
        exact hstored
      · exact h.stored hlive hold hw
    · rcases update_eq_some.1 hc' with ⟨-, hsome⟩ | ⟨-, hold⟩
      · rw [← some.inj hsome] at hr ⊢
        exact (updateCommittedReads_spec _ _).1 r hr hown
      · exact (h.recorded hold hr hown).imp fun proof hp => (updateCommittedReads_spec _ _).2 _ _ hp

theorem wakeCommitted_preparedInv (h : PreparedInv env txns s) :
    PreparedInv env txns (s.wakeCommitted env d merged) := by
  unfold wakeCommitted
  cases s.committed d with
  | none => exact h
  | some c =>
    dsimp only
    split_ifs
    · exact h
    · exact h.congr rfl rfl rfl

/-! ## Runs -/

/-- `t'` is `t` with more of the server's own annotations. -/
structure Annotates (env : Env) (t' t : Transaction) : Prop where
  timestamp : t'.timestamp = t.timestamp
  readSet : t'.readSet = t.readSet
  writeSet : t'.writeSet = t.writeSet
  policyType : t'.policyType = t.policyType
  digest : env.digest t' = env.digest t

theorem Annotates.refl (t : Transaction) : Annotates env t t := ⟨rfl, rfl, rfl, rfl, rfl⟩

theorem Annotates.trans {c : Transaction} (h : Annotates env a b) (h' : Annotates env b c) :
    Annotates env a c :=
  ⟨h.timestamp.trans h'.timestamp, h.readSet.trans h'.readSet, h.writeSet.trans h'.writeSet,
    h.policyType.trans h'.policyType, h.digest.trans h'.digest⟩

theorem Annotates.ownedWrite (h : Annotates env a b) (w : WriteMessage) :
    ownedWrite env a w = ownedWrite env b w := by
  unfold Mvtso.ownedWrite
  rw [h.policyType]

theorem Annotates.writes (h : Annotates env a b) {w : WriteMessage} :
    Writes env a w ↔ Writes env b w := by
  unfold Writes
  rw [h.writeSet, h.ownedWrite]

theorem addPolicyReads_annotates (txn : Transaction) (reads : List (Bytes × Timestamp)) :
    Annotates env (addPolicyReads txn reads) txn :=
  ⟨rfl, rfl, rfl, rfl, transactionDigest_annotated _ _ _ _ _ _ _⟩

theorem addDynamicDeps_annotates (txn : Transaction) (deps : List Digest) :
    Annotates env (addDynamicDeps env txn deps) txn := by
  unfold addDynamicDeps
  split
  · exact .refl txn
  · exact ⟨rfl, rfl, rfl, rfl, transactionDigest_annotated _ _ _ _ _ _ _⟩

theorem dynamicDeps_annotates (txn : Transaction) (i : Input) :
    Annotates env
      (if env.params.useSemanticCC then addDynamicDeps env txn i.dynamicDeps else txn) txn := by
  split_ifs
  · exact addDynamicDeps_annotates txn _
  · exact .refl txn

/-- The transaction that `Prepare` gets: with the dependencies that predicates have added. -/
def preparedTxn (env : Env) (txn : Transaction) (i : Input) : Transaction :=
  if env.params.useSemanticCC then addDynamicDeps env txn i.dynamicDeps else txn

theorem preparedTxn_implicitPolicyReads (txn : Transaction) (i : Input) :
    (preparedTxn env txn i).implicitPolicyReads = txn.implicitPolicyReads := by
  unfold preparedTxn
  split_ifs
  · unfold addDynamicDeps
    split
    · rfl
    · rfl
  · rfl

theorem check_prepares (s : State) (txn : Transaction) (i : Input) :
    (s.doMVTSOOCCCheck env txn i).1 = s ∨
    ∃ policyReads, s.prepared (env.digest txn) = none ∧ s.validate env i txn = .ok policyReads ∧
      (s.doMVTSOOCCCheck env txn i).1 = s.prepare env (env.digest txn) (preparedTxn env txn i)
        (mergedSets env txn).readSet policyReads := by
  unfold doMVTSOOCCCheck
  dsimp only
  cases hnew : s.prepared (env.digest txn) with
  | some p => exact .inl rfl
  | none =>
    cases s.validate env i txn with
    | error r => exact .inl rfl
    | ok policyReads =>
      cases i.ongoing with
      | false => exact .inl rfl
      | true => exact .inr ⟨policyReads, rfl, rfl, rfl⟩

theorem check_state (s : State) (txn : Transaction) (i : Input) :
    (s.doMVTSOOCCCheck env txn i).1 = s ∨
    ∃ txn' policyReads, Annotates env txn' txn ∧ s.prepared (env.digest txn) = none ∧
      s.validate env i txn = .ok policyReads ∧
      (s.doMVTSOOCCCheck env txn i).1 =
        s.prepare env (env.digest txn) txn' (mergedSets env txn).readSet policyReads := by
  refine (check_prepares s txn i).imp_right ?_
  rintro ⟨policyReads, hnew, hvalid, hs⟩
  exact ⟨_, policyReads, dynamicDeps_annotates txn i, hnew, hvalid, hs⟩

def checkedTxns (es : List Event) : List Transaction :=
  es.filterMap fun
    | .check txn _ => some txn
    | _ => none

theorem check_inv {i : Input} (htxns : TellApart env txns) (h : Inv env txns s) (ht : txn ∈ txns) :
    Inv env txns (s.doMVTSOOCCCheck env txn i).1 := by
  rcases @check_state env s txn i with hs | ⟨txn', policyReads, hann, -, -, hs⟩
  · rwa [hs]
  · rw [hs]
    refine ⟨?_, prepare_preparedInv htxns h.prepared ht hann.timestamp.symm rfl hann.digest⟩
    unfold prepare
    split_ifs
    · exact h.committed
    · exact h.committed.congr rfl rfl rfl rfl

theorem step_inv {e : Event} (htxns : TellApart env txns)
    (he : ∀ txn i, e = .check txn i → txn ∈ txns) (h : Inv env txns s) :
    Inv env txns (step env s e) := by
  unfold step
  split_ifs
  · exact h
  cases e with
  | check txn i => exact check_inv htxns h (he txn i rfl)
  | commit txn sigs view =>
    exact ⟨commit_committedInv h.committed, commit_preparedInv htxns h.prepared⟩
  | commitWithProof proof =>
    exact ⟨commit_committedInv h.committed, commit_preparedInv htxns h.prepared⟩
  | wakeCommitted d merged =>
    exact ⟨wakeCommitted_committedInv h.committed, wakeCommitted_preparedInv h.prepared⟩
  | abort d =>
    exact ⟨clean_committedInv (h.committed.congr rfl rfl rfl rfl),
      IndexInv.clean htxns (h.prepared.congr rfl rfl rfl)⟩

theorem run_inv (hs : Loaded s) {es : List Event} (hes : TellApart env (checkedTxns es)) :
    Inv env (checkedTxns es) ((machine env).run s es) := by
  refine Machine.run_along (I := Inv env (checkedTxns es))
    (P := fun _ e => ∀ txn i, e = Event.check txn i → txn ∈ checkedTxns es)
    (fun s e he h => step_inv hes he h) (hs.inv _) (Machine.along_of_forall ?_)
  rintro e he txn i rfl
  exact mem_filterMap.2 ⟨_, he, rfl⟩

end Sintr.Mvtso
