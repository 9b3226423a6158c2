import Sintr.Client.Integrity
import Sintr.Client.Senders

/-!
# One validating client

A validating client is described by three machines: `validationMachine` for the reads and calls of
one transaction, `queryMachine` for its queries, and `peerMachine` for the messages about all the
transactions of its peers. They agree on what they share.

* `validation_counts`: without queries, a validation is a run of the query machine over its reads,
  with the same counts, and it commits in the same states.
* `peer_reads`: the reads that the messages of peers leave for a transaction are the ones that its
  validation receives, in the same order.
-/

namespace Sintr.Client

open List

/-! ## Reads and queries -/

/-- What the query machine knows of a validation that has no queries. -/
def Validation.counts (s : Validation) : QueryValidation where
  numPendingReads := s.numPendingReads
  numValidReads := s.numValidReads
  commitWaitOnValidForwardQuery := s.commitWait
  committed := s.committed

/-- The program calls `Commit` once. -/
def Validation.Once (s : Validation) : Prop :=
  s.committed = true ∨ s.commitWait = true → s.finished = true

section Counts
variable {qenv : QueryEnv} {s : Validation}

/-- The query machine gets from the counts of `s` to those of `s'` by events about reads. -/
def Counted (qenv : QueryEnv) (s s' : Validation) : Prop :=
  s'.Once ∧ ∃ qs ⊆ [QueryEvent.read, .readValid, .commit],
    (queryMachine qenv).run s.counts qs = s'.counts

theorem Counted.of_eq {s' : Validation} (hs : s.Once) (hcounts : s'.counts = s.counts)
    (hfinished : s'.finished = s.finished) : Counted qenv s s' := by
  refine ⟨fun h => ?_, [], by simp, hcounts.symm⟩
  have hcommitted : s'.committed = s.committed := congrArg (·.committed) hcounts
  have hwait : s'.commitWait = s.commitWait :=
    congrArg (·.commitWaitOnValidForwardQuery) hcounts
  rw [hfinished]
  exact hs (by rwa [hcommitted, hwait] at h)

theorem counted_process (hs : s.Once) (r : ForwardReadResult) (l : List Arrival)
    (h : (Validation.process qenv.toValidationEnv { s with arrivals := l } r).crashed = false) :
    Counted qenv s (Validation.process qenv.toValidationEnv { s with arrivals := l } r) := by
  unfold Validation.process Validation.edit at h ⊢
  cases hadd : r.addReadset with
  | true =>
    simp only [hadd, if_true] at h ⊢
    split_ifs <;> exact ⟨hs, [.read], by simp, rfl⟩
  | false =>
    simp only [hadd, Bool.false_eq_true, if_false] at h ⊢
    cases hvalue : s.readValues r.key with
    | none => simp [hvalue, Validation.panic] at h
    | some value =>
      simp only [hvalue] at h ⊢
      split_ifs <;> exact .of_eq hs rfl rfl

theorem counted_check (hs : s.Once) (i : Nat)
    (h : (s.check qenv.toValidationEnv i).crashed = false) :
    Counted qenv s (s.check qenv.toValidationEnv i) := by
  have hvalid : ∀ x, Counted qenv s
      (if s.commitWait && s.numPendingReads == s.numValidReads + 1 then
        { s with
          numValidReads := s.numValidReads + 1, arrivals := x, commitWait := false
          committed := true }
      else { s with numValidReads := s.numValidReads + 1, arrivals := x }) := by
    intro x
    refine ⟨?_, [.readValid], by simp, ?_⟩
    · split_ifs with hlast
      · exact fun _ => hs (.inr (Bool.and_eq_true_iff.1 hlast).1)
      · exact hs
    · simp only [Machine.run_cons, Machine.run_nil, queryMachine, QueryValidation.step,
        QueryValidation.unblock, Validation.counts]
      split_ifs <;> simp_all
  unfold Validation.check at h ⊢
  split
  · exact .of_eq hs rfl rfl
  · split_ifs
    · exact .of_eq hs rfl rfl
    · simpa using hvalid _
    · simp_all [Validation.panic]

theorem counted_commit (hs : s.Once) (hrun : s.finished = false)
    (h : (s.commit qenv.toValidationEnv).crashed = false) :
    Counted qenv s (s.commit qenv.toValidationEnv) := by
  have hcommitted : s.committed = false := by
    by_contra hc
    simp [hs (.inl (eq_true_of_ne_false hc))] at hrun
  have hwait : s.commitWait = false := by
    by_contra hc
    simp [hs (.inr (eq_true_of_ne_false hc))] at hrun
  unfold Validation.commit at h ⊢
  split_ifs at h ⊢ with hpanic hpending
  · simp [Validation.panic] at h
  · refine ⟨fun _ => rfl, [.commit], by simp, ?_⟩
    simp_all [queryMachine, QueryValidation.step, QueryValidation.commit, Validation.counts]
  · refine ⟨fun _ => rfl, [.commit], by simp, ?_⟩
    simp_all [queryMachine, QueryValidation.step, QueryValidation.commit, Validation.counts]

theorem counted_step (hs : s.Once) (e : ValidationEvent)
    (h : (s.step qenv.toValidationEnv e).crashed = false) :
    Counted qenv s (s.step qenv.toValidationEnv e) := by
  unfold Validation.step at h ⊢
  by_cases hcrashed : s.crashed = true
  · rw [if_pos hcrashed]
    exact .of_eq hs rfl rfl
  rw [if_neg hcrashed] at h ⊢
  cases e with
  | receive msg =>
    dsimp only [Validation.receive]
    split_ifs <;> exact .of_eq hs rfl rfl
  | handle i =>
    dsimp only [Validation.handle] at h ⊢
    cases hx : s.arrivals[i]? with
    | none => exact .of_eq hs rfl rfl
    | some x =>
      rw [hx] at h
      dsimp only at h ⊢
      split_ifs at h ⊢
      · exact .of_eq hs rfl rfl
      · exact counted_process hs _ _ h
  | check i => exact counted_check hs i h
  | get key group =>
    dsimp only
    split_ifs
    · rw [get_frame]
      exact .of_eq hs rfl rfl
    · exact .of_eq hs rfl rfl
  | put key value group =>
    dsimp only
    split_ifs
    · rw [put_eq]
      exact .of_eq hs rfl rfl
    · exact .of_eq hs rfl rfl
  | commit =>
    dsimp only at h ⊢
    split_ifs at h ⊢ with hrun
    · exact counted_commit hs (by simpa using (Bool.and_eq_true_iff.1 hrun).2) h
    · exact .of_eq hs rfl rfl

/-- The query machine over the reads of a validation has its counts, and is committed when it is. -/
theorem validation_counts (policyType : TxnPolicyType) (es : List ValidationEvent)
    (h : ((validationMachine qenv.toValidationEnv).run { policyType } es).crashed = false) :
    ∃ qs ⊆ [QueryEvent.read, .readValid, .commit], (queryMachine qenv).run {} qs =
      ((validationMachine qenv.toValidationEnv).run { policyType } es).counts := by
  have hes : (validationMachine qenv.toValidationEnv).Along (fun _ _ => True) { policyType } es :=
    Machine.along_of_forall fun _ _ => trivial
  refine (Machine.run_history (I := fun _ s => s.crashed = false → Counted qenv { policyType } s)
    (fun _ => .of_eq (by simp [Validation.Once]) rfl rfl) (fun es e ih _ hnext => ?_) hes h).2
  generalize (validationMachine qenv.toValidationEnv).run { policyType } es = s at ih hnext ⊢
  have hs : s.crashed = false := by
    by_contra hc
    have hstop : (validationMachine qenv.toValidationEnv).step s e = s := if_pos (by simpa using hc)
    exact hc (hstop ▸ hnext)
  obtain ⟨honce, qs, hqs, hcounts⟩ := ih hs
  obtain ⟨honce', qs', hqs', hcounts'⟩ := counted_step honce e hnext
  refine ⟨honce', qs ++ qs', append_subset.2 ⟨hqs, hqs'⟩, ?_⟩
  rw [Machine.run_append, hcounts]
  exact hcounts'

end Counts

/-! ## Messages of peers -/

/-- The read that a message forwards for the transaction `id`. -/
def PeerMessage.readOf (penv : PeerEnv) (id : UInt64 × UInt64) (msg : PeerMessage) :
    Option ForwardReadResult :=
  match msg.content penv with
  | some ⟨clientId, clientSeqNum, .forwardReadResult r⟩ =>
    if (clientId, clientSeqNum) = id then some r else none
  | _ => none

theorem handlePeerMessage_reads {penv : PeerEnv} {s : Peers} {msg : PeerMessage}
    (id : UInt64 × UInt64) (h : (handlePeerMessage penv s msg).crashed = false) :
    s.crashed = false ∧ ((handlePeerMessage penv s msg).allValTxnStates id).reads =
      (s.allValTxnStates id).reads ++ (msg.readOf penv id).toList := by
  unfold handlePeerMessage at h ⊢
  by_cases hs : s.crashed = true
  · simp [hs] at h
  refine ⟨eq_false_of_ne_true hs, ?_⟩
  rw [if_neg hs] at h ⊢
  unfold PeerMessage.readOf
  cases hcontent : msg.content penv with
  | none => simp
  | some c =>
    obtain ⟨clientId, clientSeqNum, body⟩ := c
    simp only [hcontent] at h ⊢
    split_ifs at h ⊢ with hevidence
    by_cases hid : (clientId, clientSeqNum) = id
    · subst hid
      cases body <;> simp [PeerTxn.process]
    · cases body <;> simp [hid, Function.update_of_ne (Ne.symm hid)]

theorem receive_arrivals {venv : ValidationEnv} {s : Validation}
    (msgs : List ForwardReadResultMessage)
    (h : ((validationMachine venv).run s (msgs.map .receive)).crashed = false) :
    ((validationMachine venv).run s (msgs.map .receive)).arrivals.map (·.msg.result) =
      s.arrivals.map (·.msg.result) ++ msgs.map (·.result) := by
  induction msgs using reverseRecOn with
  | nil => simp
  | append_singleton msgs msg ih =>
    rw [map_append, Machine.run_append] at h ⊢
    generalize (validationMachine venv).run s (msgs.map .receive) = s' at ih h ⊢
    by_cases hs : s'.crashed = true
    · simp [validationMachine, Validation.step, hs] at h
    have hreceive : (validationMachine venv).run s' [.receive msg] = s'.receive venv msg :=
      if_neg hs
    rw [map_singleton, hreceive] at h ⊢
    unfold Validation.receive at h ⊢
    split_ifs at h ⊢
    · simp [ih (eq_false_of_ne_true hs)]
    · simp [Validation.panic] at h
    · simp [ih (eq_false_of_ne_true hs)]

/-- The reads that are filed for a transaction are those that its validation receives. -/
theorem peer_reads (penv : PeerEnv) (venv : ValidationEnv) (policyType : TxnPolicyType)
    (id : UInt64 × UInt64) (es : List PeerMessage) (msgs : List ForwardReadResultMessage)
    (hmsgs : msgs.map (·.result) = es.filterMap (·.readOf penv id))
    (hpeers : ((peerMachine penv).run {} es).crashed = false)
    (hval : ((validationMachine venv).run { policyType } (msgs.map .receive)).crashed = false) :
    (((peerMachine penv).run {} es).allValTxnStates id).reads =
      ((validationMachine venv).run { policyType } (msgs.map .receive)).arrivals.map
        (·.msg.result) := by
  have hes : (peerMachine penv).Along (fun _ _ => True) {} es :=
    Machine.along_of_forall fun _ _ => trivial
  have hreads := Machine.run_history (I := fun es s => s.crashed = false →
    (s.allValTxnStates id).reads = es.filterMap (·.readOf penv id)) (fun _ => rfl) ?_ hes hpeers
  · rw [hreads, ← hmsgs, receive_arrivals msgs hval]
    rfl
  · intro es e ih _ hnext
    obtain ⟨hs, hstep⟩ := handlePeerMessage_reads id hnext
    refine hstep.trans ?_
    rw [ih hs, filterMap_append]
    congr 1

end Sintr.Client
