import Sintr.Phase1.Paths

/-!
# Who is counted as an endorser

A Phase1 message carries the proposal's signature and the endorsements of other clients. The replica
checks the signature against the client whose id is in the timestamp, and counts as endorsers the
client the transaction names, and everyone with a valid endorsement.

* `Signed`: a client signed the proposal, or an endorsement of this transaction.
-/

namespace Sintr.Phase1

open State

section
variable (env : Env)

/-- The digest `HandlePhase1` has the endorsements of a transaction checked against. -/
def phase1CheckDigest (txn : Transaction) : Digest :=
  let ds := phase1Digests env txn
  checkDigestOf env txn (if env.params.hashEndorsements then ds.2 else ds.1)

theorem phase1CheckDigest_eq (txn : Transaction) :
    phase1CheckDigest env txn = env.endorsedDigest txn := by
  unfold phase1CheckDigest
  dsimp only
  split
  · exact checkDigestOf_phase1Digests env txn
  · rename_i hhash
    rw [phase1Digests_fst, env.digest_eq_bareDigest (.inl (Bool.eq_false_iff.2 hhash))]
    exact checkDigestOf_bareDigest env txn

def counted (msg : Phase1Msg) : Endorsers := endorsers env msg.txn (phase1CheckDigest env msg.txn)

/-- The endorsement is one of the transaction, signed by client `id`. -/
def Endorses (txn : Transaction) (id : ProcessId) (m : SignedMessage) : Prop :=
  m.processId = id ∧ env.valTxnDigest m.data = env.endorsedDigest txn ∧
    env.verifyClient id (.endorsement m.data) m.signature = true

def SignedBy (msg : Phase1Msg) (id : ProcessId) : Prop :=
  msg.signer = id ∧ env.verifyClient id (.proposal msg.txn) msg.signature = true ∨
    ∃ m ∈ msg.txn.endorsements.getD [], Endorses env msg.txn id m

end

section
variable {env : Env} {msg : Phase1Msg}

theorem endorses_of_valid (hfin : env.params.signFinishValidation = true) {txn : Transaction}
    {m : SignedMessage} (hm : validateEndorsementHelper env (env.endorsedDigest txn) m = true) :
    Endorses env txn m.processId m := by
  simp only [validateEndorsementHelper, hfin, Bool.not_true, Bool.false_or, Bool.and_eq_true,
    beq_iff_eq] at hm
  exact ⟨rfl, hm.1.2, hm.2⟩

theorem mem_counted {id : ProcessId} : id ∈ counted env msg ↔ id = msg.txn.clientId ∨
    ∃ m ∈ msg.txn.endorsements.getD [],
      validateEndorsementHelper env (env.endorsedDigest msg.txn) m = true ∧ m.processId = id := by
  simp [counted, phase1CheckDigest_eq, endorsers, and_assoc]

end

/-- Everyone who is counted for an accepted Phase1 message has signed, exactly if the client that
the transaction names is the one in its timestamp or endorsed it too. -/
theorem counted_signed_iff (env : Env) (hsign : env.params.signClientProposals = true)
    (hfin : env.params.signFinishValidation = true) (msg : Phase1Msg)
    (hacc : checkProposalValidity env msg.txn msg.signer msg.signature = true) :
    (∀ id ∈ counted env msg, SignedBy env msg id) ↔
      msg.txn.clientId = msg.txn.timestamp.id ∨
        ∃ m ∈ msg.txn.endorsements.getD [], Endorses env msg.txn msg.txn.clientId m := by
  simp only [checkProposalValidity, hsign, Bool.not_true, Bool.false_or, Bool.and_eq_true,
    beq_iff_eq] at hacc
  obtain ⟨hid, hver⟩ := hacc
  constructor
  · intro h
    rcases h msg.txn.clientId (mem_counted.2 (.inl rfl)) with ⟨hsigner, -⟩ | hend
    · exact .inl (hsigner.symm.trans hid.symm)
    · exact .inr hend
  · intro h id hmem
    rcases mem_counted.1 hmem with rfl | ⟨m, hm, hvalid, rfl⟩
    · refine h.imp (fun heq => ?_) id
      rw [heq, hid]
      exact ⟨rfl, hver⟩
    · exact .inr ⟨m, hm, endorses_of_valid hfin hvalid⟩

/-! ## A client that signed nothing -/

def proposalEnv : Env := { Env.sample with params := { signClientProposals := true } }

def proposedFor (id : UInt64) : Phase1Msg :=
  { reqId := 1, signer := 1, signature := [1]
    txn := { clientId := id, clientSeqNum := 1, involvedGroups := [0], timestamp := ⟨20000, 1⟩
             writeSet := [{ key := [7], value := some [8] }] } }

/-- The proposal of client 1 is accepted, and client 2, which signed nothing, is its only
endorser. -/
theorem counted_unsigned :
    proposalEnv.params.signClientProposals = true ∧
      proposalEnv.params.signFinishValidation = true ∧
      checkProposalValidity proposalEnv (proposedFor 2).txn (proposedFor 2).signer
        (proposedFor 2).signature = true ∧
      counted proposalEnv (proposedFor 2) = {2} ∧ ¬ SignedBy proposalEnv (proposedFor 2) 2 := by
  refine ⟨rfl, rfl, rfl, rfl, ?_⟩
  rintro (⟨hsigner, -⟩ | ⟨m, hm, -⟩)
  · exact absurd hsigner (by decide)
  · cases hm

theorem counted_signed_own :
    counted proposalEnv (proposedFor 1) = {1} ∧
      ∀ id ∈ counted proposalEnv (proposedFor 1), SignedBy proposalEnv (proposedFor 1) id :=
  ⟨rfl, (counted_signed_iff proposalEnv rfl rfl (proposedFor 1) rfl).2 (.inl rfl)⟩

end Sintr.Phase1
