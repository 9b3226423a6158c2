import Sintr.Lib.ExceptFold
import Sintr.Mvtso.Check
import Sintr.Phase1.Stored
import Sintr.Query.Merge

/-!
# The checks behind the votes

The pipeline from a Phase1 message to a vote takes the outcome of `mergeTxReadSets` and the verdict
of the concurrency check as inputs. Here they come from the models of these two.

* `merge_agrees`: if the merge ends in a vote, the pipeline gives this vote, and it parks the
  transactions that the merge has subscribed.
* `check_agrees`: the pipeline gives the result of the check, and both models go on with the same
  transactions prepared, committed and aborted. An ABORT aborts the transaction at once.
-/

namespace Sintr.Phase1

open State

/-! ## Queries that are missing -/

/-- The outcome of a merge as the pipeline gets it. -/
def mergeInput (m : Query.Merged) (merged : Option ReadSet) : MergeInput :=
  match m.vote with
  | .wait => .wait
  | .abstain => .abstain
  | .ignore => .ignore
  | _ => .merged merged

/-- The transactions that are parked are those that wait for a query. -/
def SameParked (p : State) (q : Query.QueryState) : Prop :=
  ∀ d, (p.missingQueries d).isSome = (q.missing d).isSome

section Merge
variable {env : Env} {params : Query.MergeParams} {q q' : Query.QueryState} {d : Digest}
  {qtxn qtxn' : Query.QueryTxn} {commit : Bool} {m : Query.Merged} {p : State} {i : CCInput}

/-- A merge that ends in a vote other than WAIT subscribes to nothing. -/
theorem mergeTxReadSets_missing
    (h : Query.mergeTxReadSets params q d qtxn commit = some (m, q', qtxn'))
    (hvote : m.vote ≠ .commit) :
    (m.vote = .wait ∧ ∃ w, q'.missing = Function.update q.missing d (some w)) ∨
      ((m.vote = .abstain ∨ m.vote = .ignore) ∧ q'.missing = q.missing) := by
  unfold Query.mergeTxReadSets at h
  split_ifs at h with hclient hempty
  · cases h
    exact absurd rfl hvote
  · cases h
    exact absurd rfl hvote
  split at h
  · cases h
    exact absurd rfl hvote
  split at h
  · cases h
    exact .inl ⟨rfl, _, rfl⟩
  split at h
  · cases h
  · rename_i res l herror
    cases h
    obtain ⟨md, -, c, hround⟩ := foldlM_error herror
    exact .inr ⟨Query.fetchReadSet_vote (Query.mergeRound_vote hround).1, rfl⟩
  · rcases Query.finishMerge_cases (Option.some.inj h).symm with
      ⟨-, hwait, -, rfl⟩ | ⟨-, -, -, rfl⟩ | ⟨-, rfl⟩
    · exact .inl ⟨hwait, _, rfl⟩
    · exact absurd rfl hvote
    · exact absurd rfl hvote

theorem park_missing (reqId : UInt64) (txn : Transaction) (g : Bool) (d' : Digest) :
    ((p.park reqId d txn g).missingQueries d').isSome =
      (decide (d' = d) || (p.missingQueries d').isSome) := by
  unfold State.park
  by_cases hd : d' = d
  · subst hd
    split_ifs with h <;> simp [h]
  · split_ifs <;> simp [hd]

theorem merge_agrees (hsame : SameParked p q) (reqId : UInt64) (txn : Transaction) (fb g : Bool)
    (h : Query.mergeTxReadSets params q d qtxn commit = some (m, q', qtxn'))
    (hvote : m.vote ≠ .commit) {merged : Option ReadSet} (hi : i.merge = mergeInput m merged)
    (hlate : 10000 < txn.timestamp.timestamp) :
    let r := p.doOCCCheck env i reqId d txn fb g
    r.result = m.vote ∧ SameParked r.state q' := by
  have hearly : ¬ txn.timestamp.timestamp ≤ 10000 := UInt64.not_le.2 hlate
  dsimp only
  unfold State.doOCCCheck
  rw [if_neg hearly, hi]
  obtain ⟨hwait, w, hmissing⟩ | ⟨habstain | hignore, hmissing⟩ := mergeTxReadSets_missing h hvote
  · simp only [mergeInput, hwait]
    refine ⟨trivial, fun d' => ?_⟩
    rw [park_missing, hmissing, State.record]
    by_cases hd : d' = d
    · simp [hd]
    · simpa [hd] using hsame d'
  · simp only [mergeInput, habstain]
    exact ⟨trivial, fun d' => hmissing ▸ hsame d'⟩
  · simp only [mergeInput, hignore]
    exact ⟨trivial, fun d' => hmissing ▸ hsame d'⟩

end Merge

/-! ## The indexes -/

/-- The two models of a replica agree on the transactions that are prepared, committed and
aborted. -/
structure SameReplica (p : State) (m : Mvtso.State) : Prop where
  prepared : ∀ d, (p.prepared d).isSome = (m.prepared d).isSome
  committed : ∀ d, (p.committed d).isSome = (m.committed d).isSome
  aborted : ∀ d, p.aborted d = m.aborted d

/-- A verdict on the indexes as the pipeline gets it. -/
inductive Decides : Except Mvtso.Result (List (Bytes × Timestamp)) → CheckInput → Prop where
  | ok (reads : List (Bytes × Timestamp)) : Decides (.ok reads) .ok
  | abstain {r : Mvtso.Result} (hr : r.result = .abstain) : Decides (.error r) .abstain
  | abort {r : Mvtso.Result} {c : CommittedProof} (hr : r.result = .abort)
      (hc : r.conflict = some c) : Decides (.error r) (.abort c)

section Check
variable {env : Env} {p p' : State} {m : Mvtso.State} {d : Digest} {txn : Transaction} {i : CCInput}
  {j : Mvtso.Input}

theorem SameReplica.of_eq (h : SameReplica p m) (hprepared : p'.prepared = p.prepared)
    (hcommitted : p'.committed = p.committed) (haborted : p'.aborted = p.aborted) :
    SameReplica p' m :=
  ⟨hprepared ▸ h.prepared, hcommitted ▸ h.committed, haborted ▸ h.aborted⟩

theorem SameReplica.prepare (h : SameReplica p m) (hongoing : (p.ongoing d).isSome)
    (readSet : List ReadMessage) (policyReads : List (Bytes × Timestamp)) :
    SameReplica (p.prepare d txn) (m.prepare env d txn readSet policyReads) := by
  obtain ⟨t, ht⟩ := Option.isSome_iff_exists.1 hongoing
  have hd := h.prepared d
  unfold State.prepare Mvtso.State.prepare
  cases hp : p.prepared d with
  | some e =>
    rw [hp] at hd
    simpa [ht, ← hd] using h
  | none =>
    rw [hp] at hd
    simp only [ht, ← hd, Option.isSome_none, Bool.false_eq_true, if_false]
    refine ⟨fun d' => ?_, h.committed, h.aborted⟩
    by_cases hd' : d' = d
    · simp [State.record, hd']
    · simpa [State.record, Function.update_of_ne hd'] using h.prepared d'

theorem SameReplica.checkDependencies (h : SameReplica p m) :
    p.checkDependencies env txn = m.checkDependencies env txn := by
  unfold State.checkDependencies Mvtso.State.checkDependencies State.localDeps
  simp only [List.all_filter, h.committed]
  rfl

theorem SameReplica.manageDependencies (h : SameReplica p m) :
    (p.manageDependencies env d txn).1 = m.manageDependencies env txn ∧
      SameReplica (p.manageDependencies env d txn).2 m := by
  have hmissing : (((localDeps env txn).map (·.preparedTxnDigest)).filter fun dep =>
      (p.committed dep).isNone && !p.aborted dep) = [] ↔
      (Mvtso.State.ownDeps env (Mvtso.State.depSet txn)).all (fun dep =>
        (m.committed dep).isSome || m.aborted dep) = true := by
    rw [List.filter_eq_nil_iff, List.all_eq_true]
    refine forall₂_congr fun dep _ => ?_
    rw [← h.committed, ← h.aborted]
    cases p.committed dep <;> cases p.aborted dep <;> simp
  unfold State.manageDependencies Mvtso.State.manageDependencies
  dsimp only
  split_ifs with hoff hnone hwaiting
  · exact ⟨by simp [hoff], h⟩
  · exact ⟨by rw [hmissing.1 hnone, Bool.or_true], h⟩
  · exact ⟨by simp [hoff, Bool.eq_false_iff.2 fun hall => hnone (hmissing.2 hall)], h⟩
  · exact ⟨by simp [hoff, Bool.eq_false_iff.2 fun hall => hnone (hmissing.2 hall)],
      h.of_eq rfl rfl rfl⟩

theorem SameReplica.dependencyCheck (h : SameReplica p m) :
    (p.dependencyCheck env d txn).1 = m.dependencyResult env txn ∧
      SameReplica (p.dependencyCheck env d txn).2 m := by
  unfold State.dependencyCheck Mvtso.State.dependencyResult
  obtain ⟨hmanage, hsame⟩ : (p.manageDependencies env d txn).1 = m.manageDependencies env txn ∧
    SameReplica (p.manageDependencies env d txn).2 m := h.manageDependencies
  rw [← hmanage]
  dsimp only
  split_ifs
  · exact ⟨hsame.checkDependencies, hsame⟩
  · exact ⟨rfl, hsame⟩

theorem SameReplica.sendPhase1Reply (h : SameReplica p m) (reqId : UInt64) (r : CCResult)
    (conflict : Option CommittedProof) (t : Option Transaction) :
    SameReplica (p.sendPhase1Reply env reqId r conflict t d) m := by
  unfold State.sendPhase1Reply
  split_ifs <;> exact h.of_eq rfl rfl rfl

theorem SameReplica.wakeDependent (h : SameReplica p m) :
    SameReplica (p.wakeDependent env d) m := by
  unfold State.wakeDependent
  cases hresult : p.checkDependenciesOf env d with
  | none => exact h.of_eq rfl rfl rfl
  | some r =>
    have hbuf : SameReplica (p.bufferP1Result r none none d 0 false .dependency).state m := by
      unfold State.bufferP1Result
      dsimp only
      rw [if_neg (checkDependenciesOf_ne_ignore hresult)]
      split_ifs <;> exact h.of_eq rfl rfl rfl
    have hwake : ∀ {s : State} (r : CCResult), SameReplica s m → SameReplica
        (if s.crashed then s else s.wakeAllInterestedFallbacks d r) m := by
      intro s r hs
      unfold State.wakeAllInterestedFallbacks
      split_ifs <;> exact hs.of_eq rfl rfl rfl
    dsimp only
    refine SameReplica.of_eq (hwake _ ?_) rfl rfl rfl
    split
    · exact hbuf.sendPhase1Reply _ _ _ _
    · exact hbuf

theorem SameReplica.abort (h : SameReplica p m) : SameReplica (p.abort env d) (m.abort env d) := by
  have hclean : SameReplica
      ({ p with aborted := Function.update p.aborted d true }.clean d false) (m.abort env d) := by
    have haborted : ∀ d',
        Function.update p.aborted d true d' = Function.update m.aborted d true d' := by
      simp [funext h.aborted]
    unfold Mvtso.State.abort Mvtso.State.clean
    cases hm : m.prepared d with
    | none =>
      dsimp only
      refine ⟨fun d' => ?_, h.committed, haborted⟩
      by_cases hd : d' = d
      · simp [State.clean, hd, hm]
      · simpa [State.clean, hd] using h.prepared d'
    | some e =>
      dsimp only
      refine ⟨fun d' => ?_, h.committed, haborted⟩
      by_cases hd : d' = d
      · simp [State.clean, hd]
      · simpa [State.clean, hd] using h.prepared d'
  have hdependents : ∀ (ds : List Digest) {s : State} {m' : Mvtso.State}, SameReplica s m' →
      SameReplica (ds.foldl (checkDependent env d) s) m' := by
    intro ds
    induction ds with
    | nil => exact id
    | cons dep ds ih =>
      intro s m' hs
      refine ih ?_
      unfold checkDependent
      split_ifs
      · exact hs
      · split
        · exact hs
        · split_ifs
          · exact hs.wakeDependent
          · exact hs.of_eq rfl rfl rfl
  exact (hdependents _ hclean).of_eq rfl rfl rfl

theorem SameReplica.mvtsoPassed (hsync : env.params.parallelEndorsementCheck = false) (fb : Bool)
    (h : SameReplica (if (p.prepared d).isNone then p.prepare d txn else p) m) :
    (p.mvtsoPassed env d txn fb).result = m.dependencyResult env txn ∧
      SameReplica (p.mvtsoPassed env d txn fb).state m := by
  simpa [State.mvtsoPassed, State.delaysPrepare, hsync] using h.dependencyCheck

theorem dependencyResult_ne_abort : m.dependencyResult env txn ≠ .abort := by
  unfold Mvtso.State.dependencyResult Mvtso.State.checkDependencies
  split_ifs <;> simp

/-- The pipeline after the merge gives the result of the check on the indexes. -/
theorem check_agrees (h : SameReplica p m) (hd : d = env.digest txn) (fb : Bool)
    (hsync : env.params.parallelEndorsementCheck = false)
    (hsemantic : env.params.useSemanticCC = false) (hongoing : j.ongoing = (p.ongoing d).isSome)
    (hi : Decides (m.validate env j txn) i.check) :
    let r := p.doMVTSOOCCCheck env i d txn fb
    let r' := m.doMVTSOOCCCheck env txn j
    (r'.2.result ≠ .abort → r.result = r'.2.result ∧ SameReplica r.state r'.1) ∧
    (r'.2.result = .abort → SameReplica r.state (r'.1.abort env d) ∧
      (env.params.cacheReadSet = false → r.result = .abort ∧ r.conflict = r'.2.conflict)) := by
  unfold State.doMVTSOOCCCheck Mvtso.State.doMVTSOOCCCheck
  dsimp only
  rw [← hd, h.prepared]
  cases hprep : (m.prepared d).isSome with
  | true =>
    have hsome : (p.prepared d).isNone = false := by
      rw [← Option.not_isSome, h.prepared, hprep, Bool.not_true]
    have hpassed := SameReplica.mvtsoPassed hsync fb
      (show SameReplica (if (p.prepared d).isNone then p.prepare d txn else p) m by rwa [hsome])
    exact ⟨fun _ => hpassed, fun habort => absurd habort dependencyResult_ne_abort⟩
  | false =>
    have hnone : (p.prepared d).isNone = true := by
      rw [← Option.not_isSome, h.prepared, hprep, Bool.not_false]
    generalize m.validate env j txn = v at hi ⊢
    generalize i.check = check at hi ⊢
    cases hi with
    | ok reads =>
      have hprepare : SameReplica (p.prepare d txn) (if j.ongoing then
          m.prepare env d txn (Mvtso.mergedSets env txn).readSet reads else m) := by
        rw [hongoing]
        cases ho : p.ongoing d with
        | none => simpa [State.prepare, ho] using h
        | some t => simpa using h.prepare (by simp [ho]) _ _
      have hpassed := SameReplica.mvtsoPassed hsync fb (by rwa [if_pos hnone])
      simp only [hsemantic, Bool.false_eq_true, if_false]
      exact ⟨fun _ => hpassed, fun habort => absurd habort dependencyResult_ne_abort⟩
    | abstain hr => simp [hr, h]
    | abort hr hc =>
      refine ⟨fun hne => absurd hr hne, fun _ => ?_⟩
      have haborted : SameReplica (State.abort env
          { p with writebackMessages := Function.update p.writebackMessages d true } d)
          (m.abort env d) := by
        refine SameReplica.abort ?_
        exact h.of_eq rfl rfl rfl
      simp only [Bool.false_eq_true, if_false, State.mvtsoAborted]
      cases env.params.cacheReadSet with
      | true => exact ⟨haborted, fun hcache => by simp at hcache⟩
      | false => exact ⟨haborted, fun _ => ⟨rfl, hc.symm⟩⟩

end Check

end Sintr.Phase1
