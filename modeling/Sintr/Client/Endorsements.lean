import Sintr.Client.Endorsing
import Sintr.Lib.Machine
import Sintr.Policy.Endorsement

/-!
# What is stored for a counted endorser

A `FinishValidate` message names its sender three times: in the envelope, in the contents that are
signed, and next to the signature. The sender in the envelope is counted, after a check of the
signature and the contents or, in the optimistic mode, before it.
-/

namespace Sintr.Client

open EndorsementClient List Option

/-! ## Messages and steps -/

/-- `validationTxnMsg` holds the contents if they are not signed. -/
structure FinishValidateTxnMessage where
  clientId : UInt64
  validationTxnSeqNum : UInt64
  validationTxnMsg : Bytes := []
  signedMsg : Option SignedMessage := none
  deriving DecidableEq

def FinishValidateTxnMessage.unsigned (msg : FinishValidateTxnMessage) : SignedMessage :=
  { data := msg.validationTxnMsg, processId := msg.clientId, signature := [] }

/-- What the handlers are given: keys and digests, the mode, and the client id and sequence number
of parsed contents. -/
structure FinishEnv extends Env where
  optimisticReceiveEndorsement : Bool
  valTxnIds : Bytes → UInt64 × UInt64

structure Collector where
  clientSeqNum : UInt64
  endorseClient : EndorsementClient SignedMessage

inductive FinishEvent
  | next
  | expect (d : Digest)
  | satisfied
  | used
  | receive (msg : FinishValidateTxnMessage)
  | handle (msg : FinishValidateTxnMessage)
  deriving DecidableEq

namespace Collector

variable (fenv : FinishEnv) (s : Collector) (msg : FinishValidateTxnMessage)

/-- The contents must be those of the envelope, or an assertion fails. -/
def finish (m : SignedMessage) : Option Collector :=
  if fenv.valTxnIds m.data ≠ (msg.clientId, msg.validationTxnSeqNum) then none
  else if fenv.optimisticReceiveEndorsement then
    some { s with endorseClient := (s.endorseClient.checkValidation
      msg.validationTxnSeqNum msg.clientId (fenv.valTxnDigest m.data)) }
  else
    some { s with endorseClient := (s.endorseClient.addValidation
      s.clientSeqNum msg.clientId (fenv.valTxnDigest m.data) m) }

/-- `HandleFinishValidateTxnMessage`; `none` is an assertion that fails. -/
def handleFinishValidateTxnMessage : Option Collector :=
  if msg.validationTxnSeqNum ≠ s.clientSeqNum then some s
  else if fenv.params.signFinishValidation then
    match msg.signedMsg with
    | none => some s
    | some m =>
      if fenv.verifyClient m.processId (.endorsement m.data) m.signature then s.finish fenv msg m
      else some s
  else if msg.signedMsg.isSome then none
  else s.finish fenv msg msg.unsigned

def handleFinishValidateTxnMessageOptimistic : Option Collector :=
  if msg.validationTxnSeqNum ≠ s.clientSeqNum then some s
  else
    (if fenv.params.signFinishValidation then msg.signedMsg
      else if msg.signedMsg.isSome then none else some msg.unsigned).map fun m =>
      { s with endorseClient :=
          s.endorseClient.addValidationOptimistic s.clientSeqNum msg.clientId m }

/-- `none` if the process stops or the event does not occur: `Commit` sets the digest once, and a
message is handled on receipt only in the optimistic mode. -/
def attempt : FinishEvent → Option Collector
  | .next => (s.endorseClient.setClientSeqNum (s.clientSeqNum + 1)).map (⟨s.clientSeqNum + 1, ·⟩)
  | .expect d =>
    if d ≠ [] ∧
        (s.endorseClient.endorsementCheckStates s.clientSeqNum).any (·.expectedTxnDigest = []) then
      (s.endorseClient.setExpectedTxnDigest s.clientSeqNum d).map (⟨s.clientSeqNum, ·⟩)
    else none
  | .satisfied => (s.endorseClient.isSatisfied s.clientSeqNum).map (⟨s.clientSeqNum, ·⟩)
  | .used => (s.endorseClient.setEndorsementsUsed s.clientSeqNum).map (⟨s.clientSeqNum, ·⟩)
  | .receive msg =>
    if fenv.optimisticReceiveEndorsement then s.handleFinishValidateTxnMessageOptimistic fenv msg
    else none
  | .handle msg => s.handleFinishValidateTxnMessage fenv msg

end Collector

/-- A client that collects endorsements. An event that stops the process ends the run, so that there
is no step for it. -/
def finishMachine (fenv : FinishEnv) : Machine Collector FinishEvent :=
  ⟨fun s e => (s.attempt fenv e).getD s⟩

/-! ## Counted endorsers -/

section
variable (fenv : FinishEnv) (es : List FinishEvent)

/-- What is known of the message `m` that client `p` is counted for: who its contents name, and that
it is signed by the client next to it or came in an envelope of `p`. -/
def Vetted (seq p : UInt64) (m : SignedMessage) : Prop :=
  if fenv.optimisticReceiveEndorsement then ∃ msg, .receive msg ∈ es ∧ msg.clientId = p ∧
    msg.validationTxnSeqNum = seq ∧ msg.signedMsg = some m
  else fenv.valTxnIds m.data = (p, seq) ∧
    fenv.verifyClient m.processId (.endorsement m.data) m.signature = true

structure StoredInv (client seq : UInt64) (st : EndorsementCheckState SignedMessage) : Prop where
  stored : ∀ p ∈ st.clientIdsReceived, p ≠ client → ∃ m ∈ st.endorsements, Vetted fenv es seq p m ∧
    (fenv.optimisticReceiveEndorsement = false →
      fenv.valTxnDigest m.data = st.expectedTxnDigest)
  pending : ∀ x ∈ st.pendingEndorsements, Vetted fenv es seq x.1 x.2.2 ∧
    fenv.valTxnDigest x.2.2.data = x.2.1
  early : fenv.optimisticReceiveEndorsement = false → st.expectedTxnDigest = [] →
    ∀ p ∈ st.clientIdsReceived, p = client

end

section
variable {fenv : FinishEnv} {es : List FinishEvent} {seq id p : UInt64} {m : SignedMessage}
  {c c' : EndorsementClient SignedMessage}

theorem StoredInv.expect {d : Digest} (h : c.EachState id (StoredInv fenv es id)) (hd : d ≠ [])
    (hunset : ((c.endorsementCheckStates seq).any fun st => st.expectedTxnDigest = []) = true)
    (hset : c.setExpectedTxnDigest seq d = some c') : c'.EachState id (StoredInv fenv es id) := by
  obtain ⟨st, hst, rfl⟩ := map_eq_some_iff.1 hset
  have hinv := h.state hst
  have hnone : st.expectedTxnDigest = [] := by simpa [hst] using hunset
  refine ((h.blacklist _).blacklist _).put ⟨fun p hp hself => ?_, by simp,
    fun _ hempty => absurd hempty hd⟩
  rcases Finset.mem_union.1 hp with hp | hp
  · have hold := (Finset.mem_insert.1 hp).resolve_left (h.client ▸ hself)
    obtain ⟨m, hm, hvet, -⟩ := hinv.stored p hold hself
    exact ⟨m, mem_append_left _ hm, hvet, fun hmode =>
      absurd (hinv.early hmode hnone p hold) hself⟩
  · obtain ⟨x, hx, rfl⟩ := mem_map.1 (mem_toFinset.1 hp)
    obtain ⟨hx, heq⟩ := mem_filter.1 hx
    obtain ⟨hvet, hdigest⟩ := hinv.pending x hx
    exact ⟨x.2.2, mem_append_right _ (mem_map_of_mem (mem_filter.2 ⟨hx, heq⟩)), hvet,
      fun _ => hdigest.trans (beq_iff_eq.1 heq)⟩

theorem StoredInv.count {st : EndorsementCheckState SignedMessage} {n : Nat}
    (h : StoredInv fenv es id seq st) (hvet : Vetted fenv es seq p m)
    (hmode : fenv.optimisticReceiveEndorsement = false →
      fenv.valTxnDigest m.data = st.expectedTxnDigest ∧ st.expectedTxnDigest ≠ []) :
    StoredInv fenv es id seq { st with
      clientIdsReceived := insert p st.clientIdsReceived
      endorsements := st.endorsements ++ [m]
      numCheckValidations := n } := by
  refine ⟨fun q hq hself => ?_, h.pending, fun hopt hempty => absurd hempty (hmode hopt).2⟩
  rcases Finset.mem_insert.1 hq with rfl | hq
  · exact ⟨m, by simp, hvet, fun hopt => (hmode hopt).1⟩
  · obtain ⟨m', hm', hrest⟩ := h.stored q hq hself
    exact ⟨m', mem_append_left _ hm', hrest⟩

theorem StoredInv.addValidation (h : c.EachState id (StoredInv fenv es id))
    (hvet : Vetted fenv es seq p m) :
    (c.addValidation seq p (fenv.valTxnDigest m.data) m).EachState id (StoredInv fenv es id) := by
  unfold EndorsementClient.addValidation
  split
  · exact h
  · rename_i st hst
    have hinv := h.state hst
    split_ifs with hmem hset heq
    · exact h.put hinv
    · exact h.put (hinv.count hvet fun _ => ⟨heq, length_pos_iff.1 hset⟩)
    · exact (h.blacklist _).put ⟨hinv.stored, hinv.pending, hinv.early⟩
    · refine h.put ⟨hinv.stored, fun x hx => ?_, hinv.early⟩
      rcases mem_assign hx with rfl | hx
      · exact ⟨hvet, rfl⟩
      · exact hinv.pending x hx

theorem StoredInv.addValidationOptimistic (h : c.EachState id (StoredInv fenv es id))
    (hvet : Vetted fenv es seq p m) (hmode : fenv.optimisticReceiveEndorsement = true) :
    (c.addValidationOptimistic seq p m).EachState id (StoredInv fenv es id) := by
  unfold EndorsementClient.addValidationOptimistic
  split
  · exact h
  · rename_i st hst
    split_ifs
    · exact h
    · refine h.set ?_
      rintro _ ⟨⟩
      exact (h.state hst).count hvet (by simp [hmode])

theorem StoredInv.checkValidation {d : Digest} (h : c.EachState id (StoredInv fenv es id)) :
    (c.checkValidation seq p d).EachState id (StoredInv fenv es id) := by
  unfold EndorsementClient.checkValidation
  split
  · exact h
  · rename_i st hst
    have hinv := h.state hst
    split_ifs
    · exact (h.blacklist _).put ⟨hinv.stored, hinv.pending, hinv.early⟩
    · exact h.put ⟨hinv.stored, hinv.pending, hinv.early⟩
    · exact h.put ⟨hinv.stored, hinv.pending, hinv.early⟩

theorem handleFinish_inv {s s' : Collector} {msg : FinishValidateTxnMessage}
    (hsign : fenv.params.signFinishValidation = true)
    (h : s.endorseClient.EachState id (StoredInv fenv es id))
    (hs : s.handleFinishValidateTxnMessage fenv msg = some s') :
    s'.endorseClient.EachState id (StoredInv fenv es id) := by
  unfold Collector.handleFinishValidateTxnMessage at hs
  rw [if_pos hsign] at hs
  split_ifs at hs with hseq
  · exact some.inj hs ▸ h
  · split at hs
    · exact some.inj hs ▸ h
    · rename_i m hm
      split_ifs at hs with hverify
      · unfold Collector.finish at hs
        split_ifs at hs with hids hmode
        · exact some.inj hs ▸ StoredInv.checkValidation h
        · have hvet : Vetted fenv es s.clientSeqNum msg.clientId m := by
            simp_all [Vetted]
          exact some.inj hs ▸ StoredInv.addValidation h hvet
      · exact some.inj hs ▸ h

theorem handleFinishOptimistic_inv {s s' : Collector} {msg : FinishValidateTxnMessage}
    (hsign : fenv.params.signFinishValidation = true)
    (hmode : fenv.optimisticReceiveEndorsement = true) (hmem : .receive msg ∈ es)
    (h : s.endorseClient.EachState id (StoredInv fenv es id))
    (hs : s.handleFinishValidateTxnMessageOptimistic fenv msg = some s') :
    s'.endorseClient.EachState id (StoredInv fenv es id) := by
  unfold Collector.handleFinishValidateTxnMessageOptimistic at hs
  rw [if_pos hsign] at hs
  split_ifs at hs with hseq
  · exact some.inj hs ▸ h
  · obtain ⟨m, hm, rfl⟩ := map_eq_some_iff.1 hs
    have hvet : Vetted fenv es s.clientSeqNum msg.clientId m := by
      rw [Vetted, if_pos hmode]
      exact ⟨msg, hmem, rfl, not_ne_iff.1 hseq, hm⟩
    exact StoredInv.addValidationOptimistic h hvet hmode

theorem attempt_inv {s s' : Collector} {e : FinishEvent}
    (hsign : fenv.params.signFinishValidation = true) (he : e ∈ es)
    (h : s.endorseClient.EachState id (StoredInv fenv es id)) (hs : s.attempt fenv e = some s') :
    s'.endorseClient.EachState id (StoredInv fenv es id) := by
  cases e with
  | next =>
    obtain ⟨c', hc', rfl⟩ := map_eq_some_iff.1 hs
    unfold setClientSeqNum at hc'
    split at hc'
    · cases hc'
    · cases hc'
      refine h.set ?_
      rintro _ ⟨⟩
      exact ⟨by simp, by simp, by simp⟩
  | expect d =>
    obtain ⟨⟨hd, hunset⟩, hs⟩ := ite_none_right_eq_some.1 hs
    obtain ⟨c', hc', rfl⟩ := map_eq_some_iff.1 hs
    exact StoredInv.expect h hd hunset hc'
  | satisfied =>
    obtain ⟨c', hc', rfl⟩ := map_eq_some_iff.1 hs
    obtain ⟨st, hst, rfl⟩ := map_eq_some_iff.1 hc'
    have hinv := h.state hst
    split_ifs
    · refine h.set ?_
      rintro _ ⟨⟩
      exact ⟨hinv.stored, hinv.pending, hinv.early⟩
    · exact h
  | used =>
    obtain ⟨c', hc', rfl⟩ := map_eq_some_iff.1 hs
    obtain ⟨st, hst, rfl⟩ := map_eq_some_iff.1 hc'
    have hinv := h.state hst
    exact h.put ⟨hinv.stored, hinv.pending, hinv.early⟩
  | receive msg =>
    obtain ⟨hmode, hs⟩ := ite_none_right_eq_some.1 hs
    exact handleFinishOptimistic_inv hsign hmode he h hs
  | handle msg => exact handleFinish_inv hsign h hs

end

/-- **What is stored for a counted endorser**: a message that names it, the transaction and the
expected digest, signed by the client that the message gives as its signer; in the optimistic mode
the first one that came in an envelope of the endorser. -/
theorem counted_stored (fenv : FinishEnv) (hsign : fenv.params.signFinishValidation = true)
    (seq client : UInt64) (es : List FinishEvent) (st : EndorsementCheckState SignedMessage)
    (p : UInt64) (hp : p ∈ st.clientIdsReceived) (hself : p ≠ client) :
    let s := (finishMachine fenv).run ⟨seq, { clientId := client }⟩ es
    s.endorseClient.endorsementCheckStates s.clientSeqNum = some st →
      ∃ m ∈ st.endorsements, if fenv.optimisticReceiveEndorsement then
        ∃ msg, .receive msg ∈ es ∧ msg.clientId = p ∧
          msg.validationTxnSeqNum = s.clientSeqNum ∧ msg.signedMsg = some m
      else
        fenv.valTxnIds m.data = (p, s.clientSeqNum) ∧
        fenv.valTxnDigest m.data = st.expectedTxnDigest ∧
        fenv.verifyClient m.processId (.endorsement m.data) m.signature = true := by
  intro s hst
  have hinv : s.endorseClient.EachState client (StoredInv fenv es client) := by
    refine Machine.run_along (I := fun s : Collector => s.endorseClient.EachState client _)
      (fun s e he h => ?_) ⟨rfl, by simp⟩ (Machine.along_of_forall fun e he => he)
    show ((s.attempt fenv e).getD s).endorseClient.EachState client _
    cases hs : s.attempt fenv e with
    | none => exact h
    | some s' => exact attempt_inv hsign he h hs
  obtain ⟨m, hm, hvet, hdigest⟩ := (hinv.state hst).stored p hp hself
  refine ⟨m, hm, ?_⟩
  unfold Vetted at hvet
  split_ifs at hvet ⊢ with hmode
  · exact hvet
  · exact ⟨hvet.1, hdigest (Bool.eq_false_iff.2 hmode), hvet.2⟩

def sampleFinish (optimistic : Bool) : FinishEnv :=
  { Env.sample with optimisticReceiveEndorsement := optimistic, valTxnIds := fun _ => (1, 1) }

def sampleReceived (optimistic : Bool) (m : SignedMessage) : Collector :=
  let msg := { clientId := 1, validationTxnSeqNum := 1, signedMsg := some m }
  (finishMachine (sampleFinish optimistic)).run ⟨0, { clientId := 0 }⟩
    [.next, .expect [7], .receive msg, .handle msg]

theorem counted_stored_signed :
    ∃ st, (sampleReceived false ⟨[7], 1, [1]⟩).endorseClient.endorsementCheckStates 1 = some st ∧
      1 ∈ st.clientIdsReceived ∧ ∃ m ∈ st.endorsements, (sampleFinish false).valTxnIds m.data =
        (1, 1) ∧ (sampleFinish false).valTxnDigest m.data = st.expectedTxnDigest ∧
        (sampleFinish false).verifyClient m.processId (.endorsement m.data) m.signature = true := by
  have hany : ((sampleReceived false ⟨[7], 1, [1]⟩).endorseClient.endorsementCheckStates 1).any
      (1 ∈ ·.clientIdsReceived) = true := by decide +kernel
  obtain ⟨st, hst, hp⟩ := (Option.any_eq_true _ _).1 hany
  exact ⟨st, hst, of_decide_eq_true hp, counted_stored (sampleFinish false) rfl 0 0 _ st 1
    (of_decide_eq_true hp) (by decide) hst⟩

/-- Without a signature in the optimistic mode, and with a signature of client 2. -/
theorem stored_unsigned :
    let stored := fun optimistic m =>
      ((sampleReceived optimistic m).endorseClient.endorsementCheckStates 1).map fun st =>
        (st.clientIdsReceived, st.endorsements)
    (stored true ⟨[7], 1, []⟩ = some ({0, 1}, [⟨[7], 1, []⟩]) ∧
      (sampleFinish true).verifyClient 1 (.endorsement [7]) [] = false) ∧
    stored false ⟨[7], 2, [2]⟩ = some ({0, 1}, [⟨[7], 2, [2]⟩]) ∧
      (sampleFinish false).verifyClient 1 (.endorsement [7]) [2] = false := by
  decide +kernel

end Sintr.Client
