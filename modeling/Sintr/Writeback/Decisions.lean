import Sintr.Lib.History
import Sintr.Writeback.State

/-!
# Decisions have been validated

A transaction is entered in `committed` or, by a Writeback, in `aborted` only after a validator has
accepted a certificate for it: the transaction, its digest and the decision are those of the
certificate, whichever way the message came. Its writes go to the store once.

* `Backs`: a check that accepted the certificate of a message. Callbacks that wait have one.
-/

namespace Sintr.Writeback

open Quorum List Option Function

def Check.proof (c : Check) : Option CommittedProof :=
  match c.evidence with
  | .p1 gs _ => some { txn := c.txn, sigs := some (.p1 gs) }
  | .p2 gs view _ => some { txn := c.txn, sigs := some (.p2 gs), p2View := some view }
  | .commitProof proof => some proof
  | .conflict _ => none

variable (env : Env)

structure Accepted (log : List Entry) (c : Check) (decision : CommitDecision) (d : Digest) :
    Prop where
  mem : .checked c .accept ∈ log
  decision : c.decision = decision
  digest : c.digest = d
  txn : env.digest c.txn = d

def Justified (before : List Entry) : Entry → Prop
  | .checked c v => v = c.verdict env
  | .commit d proof => ∃ c, Accepted env before c .commit d ∧ c.proof = proof
  | .commitToStore d => .commitToStore d ∉ before
  | .abort d => ∃ c, Accepted env before c .abort d
  | .invalid _ => True

structure DecisionsSound (s t : State) : Prop where
  log : EachAfter (Justified env) t.log
  committed : ∀ d proof, t.committed d = some proof →
    s.committed d = some proof ∨ .commit d proof ∈ t.log
  aborted : ∀ d, t.aborted d = true → s.aborted d = true ∨ .abort d ∈ t.log ∨ .invalid d ∈ t.log

variable {env} {log : List Entry} {decision : CommitDecision}

theorem Accepted.append {c : Check} {d : Digest} (h : Accepted env log c decision d)
    (l : List Entry) :
    Accepted env (log ++ l) c decision d :=
  { h with mem := mem_append_left l h.mem }

theorem DecisionsSound.accepted {s t : State} (h : DecisionsSound env s t) {d : Digest}
    {proof : Option CommittedProof} (hd : t.committed d = some proof)
    (hs : s.committed d ≠ some proof) :
    ∃ c, Accepted env t.log c .commit d ∧ c.proof = proof := by
  have hmem := (h.committed d proof hd).resolve_left hs
  refine h.log.before (fun before after hbefore => ?_) hmem
  obtain ⟨c, hc, hp⟩ := hbefore
  exact ⟨c, hc.append after, hp⟩

variable (env)

/-! ## The invariant -/

section
variable (live : Prop)

/-- A certificate has been accepted; it is for the transaction with digest `d` only if `live`. -/
structure Vouched (log : List Entry) (c : Check) (decision : CommitDecision) (d : Digest) :
    Prop where
  mem : .checked c .accept ∈ log
  decision : c.decision = decision
  txn : env.digest c.txn = c.digest
  proof : ∀ p, c.proof = some p → p.txn = c.txn
  digest : live → c.digest = d

/-- As `Justified`, for any `live`. -/
def JustifiedIf (before : List Entry) : Entry → Prop
  | .checked c v => v = c.verdict env
  | .commit d proof => ∃ c, Vouched env live before c .commit d ∧ c.proof = proof
  | .commitToStore d => .commitToStore d ∉ before
  | .abort d => ∃ c, Vouched env live before c .abort d
  | .invalid _ => True

structure Backs (c : Check) (msg : Msg) : Prop where
  decision : c.decision = msg.decision
  digest : env.digest c.txn = c.digest
  named : ∀ d, msg.txnDigest = some d → d = c.digest
  proof : msg.decision = .commit → c.proof = msg.committedProof env c.txn
  proofTxn : ∀ p, c.proof = some p → p.txn = c.txn

def TaskOk (log : List Entry) : Task → Prop
  | .writebackCallback msg txn true =>
    ∃ c, .checked c .accept ∈ log ∧ c.txn = txn ∧ Backs env c msg
  | .commitWithProof d proof => ∃ c, Vouched env live log c .commit d ∧ c.proof = some proof
  | _ => True

/-- Kept by every step of a run that began in `s₀`. -/
structure Inv (s₀ s : State) : Prop where
  log : EachAfter (JustifiedIf env live) s.log
  committed : ∀ d proof, s.committed d = some proof →
    s₀.committed d = some proof ∨ .commit d proof ∈ s.log
  aborted : ∀ d, s.aborted d = true → s₀.aborted d = true ∨ .abort d ∈ s.log ∨ .invalid d ∈ s.log
  ongoing : ∀ d txn, s.ongoing d = some txn → env.digest txn = d
  oo : ∀ d msg, s.ooMessages d = some msg → msg.txnDigest = some d
  tasks : ∀ t ∈ s.tasks, TaskOk env live s.log t
  stored : ∀ d, .commitToStore d ∈ s.log → (s.committed d).isSome = true

end

variable {env} {live : Prop} {s₀ s t : State} {d : Digest} {txn : Transaction} {msg : Msg}
  {c : Check} {schedule : List Nat}

theorem Vouched.accepted (h : Vouched env True log c decision d) : Accepted env log c decision d :=
  ⟨h.mem, h.decision, h.digest trivial, h.txn.trans (h.digest trivial)⟩

theorem JustifiedIf.justified {before : List Entry} {e : Entry}
    (h : JustifiedIf env True before e) : Justified env before e := by
  cases e with
  | commit d proof =>
    obtain ⟨c, hc, hp⟩ := h
    exact ⟨c, hc.accepted, hp⟩
  | abort d =>
    obtain ⟨c, hc⟩ := h
    exact ⟨c, hc.accepted⟩
  | checked c v => exact h
  | commitToStore d => exact h
  | invalid d => trivial

theorem Inv.sound (h : Inv env True s₀ s) : DecisionsSound env s₀ s where
  log := fun before e after heq => (h.log before e after heq).justified
  committed := h.committed
  aborted := h.aborted

theorem TaskOk.append {t : Task} (h : TaskOk env live log t) (l : List Entry) :
    TaskOk env live (log ++ l) t := by
  cases t with
  | writebackCallback msg txn valid =>
    cases valid with
    | false => trivial
    | true =>
      obtain ⟨c, hc, hb⟩ := h
      exact ⟨c, mem_append_left l hc, hb⟩
  | commitWithProof d proof =>
    obtain ⟨c, hc, hp⟩ := h
    exact ⟨c, { hc with mem := mem_append_left l hc.mem }, hp⟩
  | handleWriteback msg => trivial
  | stop => trivial

namespace Inv

section
variable (h : Inv env live s₀ s) {proof : Option CommittedProof}
include h

theorem transfer (hc : t.committed = s.committed)
    (ha : t.aborted = s.aborted) (hl : t.log = s.log)
    (ho : ∀ d txn, t.ongoing d = some txn → env.digest txn = d)
    (hoo : ∀ d msg, t.ooMessages d = some msg → msg.txnDigest = some d)
    (ht : ∀ x ∈ t.tasks, TaskOk env live s.log x) : Inv env live s₀ t where
  log := hl ▸ h.log
  committed := hc ▸ hl ▸ h.committed
  aborted := ha ▸ hl ▸ h.aborted
  ongoing := ho
  oo := hoo
  tasks := hl ▸ ht
  stored := hc ▸ hl ▸ h.stored

theorem panic : Inv env live s₀ s.panic :=
  h.transfer rfl rfl rfl h.ongoing h.oo h.tasks

theorem push {x : Task} (hx : TaskOk env live s.log x) :
    Inv env live s₀ (s.push x) := by
  refine h.transfer rfl rfl rfl h.ongoing h.oo fun y hy => ?_
  rcases mem_append.1 hy with hy | hy
  · exact h.tasks y hy
  · rw [mem_singleton.1 hy]
    exact hx

theorem addOngoing :
    Inv env live s₀ (s.addOngoing (env.digest txn) txn) := by
  refine h.transfer rfl rfl rfl (fun d x hd => ?_) h.oo h.tasks
  by_cases hdd : d = env.digest txn
  · subst hdd
    simp only [State.addOngoing, update_self, some.injEq] at hd
    rw [hd]
  · exact h.ongoing d x (by simpa [State.addOngoing, hdd] using hd)

theorem clean : Inv env live s₀ (s.clean d) := by
  refine h.transfer rfl rfl rfl (fun d' x hd => ?_) h.oo h.tasks
  by_cases hdd : d' = d
  · subst hdd
    simp [State.clean] at hd
  · exact h.ongoing d' x (by simpa [State.clean, hdd] using hd)

theorem reclean : Inv env live s₀ (s.reclean env d) := by
  unfold State.reclean
  split
  · exact h.clean
  · exact h

theorem wait (hd : msg.txnDigest = some d) :
    Inv env live s₀ { s with
      ooMessages := update s.ooMessages d (some ((s.ooMessages d).getD msg)) } := by
  refine h.transfer rfl rfl rfl h.ongoing (fun d' m hm => ?_) h.tasks
  by_cases hdd : d' = d
  · subst hdd
    simp only [update_self, some.injEq] at hm
    cases hoo : s.ooMessages d' with
    | none => rw [hoo] at hm; rw [← hm]; exact hd
    | some m' => rw [hoo] at hm; rw [← hm]; exact h.oo d' m' hoo
  · exact h.oo d' m (by simpa [hdd] using hm)

theorem dropOo :
    Inv env live s₀ { s with ooMessages := update s.ooMessages d none } := by
  refine h.transfer rfl rfl rfl h.ongoing (fun d' m hm => ?_) h.tasks
  by_cases hdd : d' = d
  · subst hdd
    simp at hm
  · exact h.oo d' m (by simpa [hdd] using hm)

/-! ### Decisions -/

theorem record {e : Entry} (he : JustifiedIf env live s.log e)
    (hst : ∀ d, e = .commitToStore d → (s.committed d).isSome = true) :
    Inv env live s₀ (s.record e) where
  log := h.log.snoc he
  committed := fun d proof hd => (h.committed d proof hd).imp_right (mem_append_left [e])
  aborted := fun d hd => (h.aborted d hd).imp_right
    (Or.imp (mem_append_left [e]) (mem_append_left [e]))
  ongoing := h.ongoing
  oo := h.oo
  tasks := fun t ht => (h.tasks t ht).append [e]
  stored := by
    intro d hd
    rcases mem_append.1 hd with hd | hd
    · exact h.stored d hd
    · exact hst d (mem_singleton.1 hd).symm

theorem setCommitted (hmem : .commit d proof ∈ s.log) :
    Inv env live s₀ { s with committed := update s.committed d (some proof) } where
  log := h.log
  committed := by
    intro d' p hd
    by_cases hdd : d' = d
    · subst hdd
      simp only [update_self, some.injEq] at hd
      exact .inr (hd ▸ hmem)
    · exact h.committed d' p (by simpa [hdd] using hd)
  aborted := h.aborted
  ongoing := h.ongoing
  oo := h.oo
  tasks := h.tasks
  stored := by
    intro d' hd
    by_cases hdd : d' = d
    · subst hdd
      simp
    · simpa [hdd] using h.stored d' hd

theorem setAborted (w : Digest → Option Msg)
    (hmem : .abort d ∈ s.log ∨ .invalid d ∈ s.log) :
    Inv env live s₀ { s with
      writebackMessages := w, aborted := update s.aborted d true } where
  log := h.log
  committed := h.committed
  aborted := by
    intro d' hd
    by_cases hdd : d' = d
    · exact .inr (hdd ▸ hmem)
    · exact h.aborted d' (by simpa [hdd] using hd)
  ongoing := h.ongoing
  oo := h.oo
  tasks := h.tasks
  stored := h.stored

theorem commitWithProof (hc : ∃ c, Vouched env live s.log c .commit d ∧ c.proof = proof) :
    Inv env live s₀ (s.commitWithProof d proof) := by
  unfold State.commitWithProof
  split
  · exact h
  · rename_i hd
    have hlog : Inv env live s₀ (s.record (.commit d proof)) := h.record hc (fun d h => by cases h)
    have hset := hlog.setCommitted (d := d) (mem_append_right s.log mem_cons_self)
    -- The writes cannot be in the store yet: the digest would be in `committed`.
    have hnew : .commitToStore d ∉ s.log ++ [.commit d proof] := by
      intro hmem
      rcases mem_append.1 hmem with hmem | hmem
      · exact hd (h.stored d hmem)
      · simp at hmem
    refine Inv.clean (hset.record hnew fun d' hd' => ?_)
    cases hd'
    simp

theorem abort (hc : ∃ c, Vouched env live s.log c .abort d) :
    Inv env live s₀ (s.abort d msg txn) := by
  have hlog : Inv env live s₀ (s.record (.abort d)) := h.record hc (fun d h => by cases h)
  exact (hlog.setAborted _ (.inl (mem_append_right s.log mem_cons_self))).clean

theorem cleanHard : Inv env live s₀ (s.cleanHard d) := by
  unfold State.cleanHard
  split
  · have hlog : Inv env live s₀ (s.record (.invalid d)) := h.record trivial (fun d h => by cases h)
    exact (hlog.setAborted _ (.inr (mem_append_right s.log mem_cons_self))).clean
  · exact h

theorem applyWriteback (hmem : .checked c .accept ∈ s.log)
    (hb : Backs env c msg) (hd : live → c.digest = d) :
    Inv env live s₀ (s.applyWriteback env msg d c.txn) := by
  have hacc : Vouched env live s.log c msg.decision d :=
    ⟨hmem, hb.decision, hb.digest, hb.proofTxn, hd⟩
  unfold State.applyWriteback
  split
  · exact h
  · split
    · rename_i hdec
      exact h.commitWithProof ⟨c, hdec ▸ hacc, hb.proof hdec⟩
    · rename_i hdec
      exact h.abort ⟨c, hdec ▸ hacc⟩

/-! ### Validation -/

theorem writebackCallback (hmem : .checked c .accept ∈ s.log)
    (hb : Backs env c msg) : Inv env live s₀ (s.writebackCallback env msg c.digest c.txn true) := by
  unfold State.writebackCallback
  rw [if_neg (by simp)]
  split
  · exact h.push ⟨c, hmem, rfl, hb⟩
  · exact h.applyWriteback hmem hb fun _ => rfl

theorem checked (c : Check) : Inv env live s₀ (s.record (.checked c (c.verdict env))) ∧
    .checked c (c.verdict env) ∈ (s.record (.checked c (c.verdict env))).log :=
  ⟨h.record rfl (fun d h => by cases h), mem_append_right s.log mem_cons_self⟩

theorem validate (hb : Backs env c msg) :
    Inv env live s₀ (s.validate env msg c) := by
  obtain ⟨hrec, hmem⟩ := h.checked c
  unfold State.validate
  generalize c.verdict env = v at hrec hmem ⊢
  dsimp only
  split
  · cases v with
    | accept => exact hrec.push ⟨c, hmem, rfl, hb⟩
    | reject => exact hrec.push trivial
    | silent => exact hrec
    | panic => exact hrec.push trivial
  · cases v with
    | accept => exact hrec.writebackCallback hmem hb
    | reject => exact hrec.panic
    | silent => exact hrec
    | panic => exact hrec.panic

theorem validateProof {proof : CommittedProof} (hdec : c.decision = .commit)
    (hd : env.digest c.txn = c.digest) (hp : c.proof = some proof) (htxn : proof.txn = c.txn) :
    Inv env live s₀ (s.validateProof env proof c) := by
  obtain ⟨hrec, hmem⟩ := h.checked c
  unfold State.validateProof
  generalize c.verdict env = v at hrec hmem ⊢
  dsimp only
  have hstop : Inv env live s₀ (if c.immediate env then (s.record (.checked c v)).panic
      else (s.record (.checked c v)).push .stop) := by
    split
    · exact hrec.panic
    · exact hrec.push trivial
  cases v with
  | accept =>
    have hproof : ∀ p, c.proof = some p → p.txn = c.txn := fun p h => by
      rw [← some.inj (hp.symm.trans h)]
      exact htxn
    exact hrec.push ⟨c, ⟨hmem, hdec, hd, hproof, fun _ => rfl⟩, hp⟩
  | reject => exact hstop
  | silent => exact hrec
  | panic => exact hstop

end

section
variable (hv : env.params.validateProofs = true) (hs : env.params.signedMessages = true)
include hv hs

theorem manageWritebackValidation (h : Inv env live s₀ s) (hd : env.digest txn = d)
    (hname : ∀ d', msg.txnDigest = some d' → d' = d) :
    Inv env live s₀ (s.manageWritebackValidation env msg d txn schedule) := by
  unfold State.manageWritebackValidation
  simp only [hv, hs, Bool.not_true, Bool.false_eq_true, if_false, if_true]
  split
  · rename_i gs hp
    exact h.validate ⟨rfl, hd, hname,
      fun _ => by simp [Check.proof, Msg.committedProof, hv, hs, hp], by rintro _ ⟨⟩; rfl⟩
  · rename_i gs hp
    split
    · exact h
    · rename_i view hview
      exact h.validate ⟨rfl, hd, hname,
        fun _ => by simp [Check.proof, Msg.committedProof, hv, hs, hp, hview], by rintro _ ⟨⟩; rfl⟩
  · split
    · rename_i hdec
      refine h.validate ⟨hdec.symm, hd, hname, fun hc => ?_, fun _ hp => by cases hp⟩
      rw [hdec] at hc
      cases hc
    · exact h.panic
  · exact h.panic

theorem handleWriteback (h : Inv env live s₀ s) :
    Inv env live s₀ (s.handleWriteback env msg schedule) := by
  unfold State.handleWriteback
  cases hd : msg.txnDigest with
  | none =>
    cases msg.txn with
    | none => exact h.panic
    | some txn =>
      dsimp only
      split
      · exact h.reclean
      · exact h.manageWritebackValidation hv hs rfl fun d' h' => by rw [hd] at h'; cases h'
  | some d =>
    have hname : ∀ d', msg.txnDigest = some d' → d' = d := fun d' h' =>
      some.inj (h'.symm.trans hd)
    dsimp only
    split
    · exact h.reclean
    · split
      · exact h.manageWritebackValidation hv hs (h.ongoing d _ ‹_›) hname
      · split
        · exact h.manageWritebackValidation hv hs (Eq.symm ‹_›) hname
        · exact h
      · exact h.wait hd

theorem handlePhase1 (h : Inv env live s₀ s) {hasP1 : Bool} :
    Inv env live s₀ (s.handlePhase1 env txn hasP1 schedule) := by
  unfold State.handlePhase1
  dsimp only
  split
  · exact (h.addOngoing.handleWriteback hv hs).dropOo
  · split
    · exact h
    · exact h.addOngoing

theorem processSuppliedTxn (h : Inv env live s₀ s) {info : TxnInfo} :
    Inv env live s₀ (s.processSuppliedTxn env d info schedule) := by
  have hsup : Inv env live s₀ { s with suppliedSync := update s.suppliedSync d true } :=
    h.transfer rfl rfl rfl h.ongoing h.oo h.tasks
  unfold State.processSuppliedTxn
  split
  · exact h
  · dsimp only
    split
    · exact hsup
    · split
      · exact hsup.panic
      · split
        · exact hsup.push trivial
        · exact hsup.handleWriteback hv hs
      · split
        · exact hsup
        · split
          · exact hsup.panic
          · rename_i hdig
            exact hsup.validateProof rfl (Eq.symm (not_not.1 hdig)) rfl rfl

theorem runTask (h : Inv env live s₀ s) {stale : Digest} {x : Task} (hx : TaskOk env live s.log x)
    (hlive : live → ∀ msg txn, x = .writebackCallback msg txn true → msg.txnDigest = none →
      stale = env.digest txn) : Inv env live s₀ (s.runTask env stale schedule x) := by
  cases x with
  | writebackCallback msg txn valid =>
    cases valid with
    | false => exact h.panic
    | true =>
      obtain ⟨c, hmem, rfl, hb⟩ := hx
      refine h.applyWriteback hmem hb fun hl => ?_
      -- The pointer reads the digest that was validated.
      cases hn : msg.txnDigest with
      | none => exact ((hlive hl msg c.txn rfl hn).trans hb.digest).symm
      | some d => exact (hb.named d hn).symm
  | handleWriteback msg => exact h.handleWriteback hv hs
  | commitWithProof d proof => exact h.commitWithProof hx
  | stop => exact h.panic

end

end Inv

/-! ## Runs -/

variable (env) in
/-- A callback that is run finds the digest of its transaction: the message named it, or the memory
that held it has not been used since. -/
def pointersLive (s : State) : Event → Bool
  | .task k stale _ =>
    match s.tasks[k]? with
    | some (.writebackCallback msg txn true) => msg.txnDigest.isSome || stale == env.digest txn
    | _ => true
  | _ => true

theorem step_inv (hv : env.params.validateProofs = true) (hs : env.params.signedMessages = true)
    (e : Event) (hlive : live → pointersLive env s e = true) (h : Inv env live s₀ s) :
    Inv env live s₀ (step env s e) := by
  unfold step
  split
  · exact h
  · cases e with
    | writeback msg schedule => exact h.handleWriteback hv hs
    | phase1 txn hasP1 schedule => exact h.handlePhase1 hv hs
    | supply d info schedule => exact h.processSuppliedTxn hv hs
    | addOngoing txn => exact h.addOngoing
    | cleanHard d => exact h.cleanHard
    | vote d result => exact h.transfer rfl rfl rfl h.ongoing h.oo h.tasks
    | log d decision => exact h.transfer rfl rfl rfl h.ongoing h.oo h.tasks
    | task k stale schedule =>
      cases hk : s.tasks[k]? with
      | none =>
        simp only [hk]
        exact h
      | some x =>
        simp only [hk]
        have hrest : Inv env live s₀ { s with tasks := s.tasks.eraseIdx k } :=
          h.transfer rfl rfl rfl h.ongoing h.oo fun y hy => h.tasks y (mem_of_mem_eraseIdx hy)
        refine hrest.runTask hv hs (h.tasks x (mem_of_getElem? hk)) ?_
        rintro hl msg txn rfl hn
        simpa [pointersLive, hk, hn] using hlive hl

variable (env) in
/-- Nothing is under way, and `ongoing` is right. -/
structure Idle (s : State) : Prop where
  ongoing : ∀ d txn, s.ongoing d = some txn → env.digest txn = d
  oo : ∀ d, s.ooMessages d = none
  tasks : s.tasks = []
  log : s.log = []

theorem Idle.inv (h : Idle env s) : Inv env live s s where
  log := h.log ▸ eachAfter_nil
  committed := fun _ _ hd => .inl hd
  aborted := fun _ hd => .inl hd
  ongoing := h.ongoing
  oo := fun d msg hd => by rw [h.oo d] at hd; cases hd
  tasks := fun t ht => by rw [h.tasks] at ht; cases ht
  stored := fun d hd => by rw [h.log] at hd; cases hd

theorem run_inv (hv : env.params.validateProofs = true) (hs : env.params.signedMessages = true)
    (h : Idle env s) {es : List Event}
    (hes : (machine env).Along (fun s e => live → pointersLive env s e = true) s es) :
    Inv env live s ((machine env).run s es) :=
  Machine.run_along (I := Inv env live s) (fun _ e hlive hi => step_inv hv hs e hlive hi) h.inv hes

/-- In every run whose callbacks find their digests, what is committed and what Writebacks abort has
been validated before, and nothing goes to the store twice. -/
theorem decisions_sound (hv : env.params.validateProofs = true)
    (hs : env.params.signedMessages = true) (h : Idle env s) {es : List Event}
    (hes : (machine env).Along (fun s e => pointersLive env s e = true) s es) :
    DecisionsSound env s ((machine env).run s es) := by
  have hlive : (machine env).Along (fun s e => True → pointersLive env s e = true) s es :=
    hes.mono fun _ _ h _ => h
  exact (run_inv hv hs h hlive).sound

/-! ## A digest that is gone -/

def threaded : Env := { Env.sample with params := { multiThreading := true } }

theorem idle_initial : Idle env {} where
  ongoing := fun d txn h => by cases h
  oo := fun _ => rfl
  tasks := rfl
  log := rfl

def write : Transaction := { clientId := 1, clientSeqNum := 1, involvedGroups := [0] }

def commitMsg (d : Option Digest) : Msg where
  decision := .commit
  txnDigest := d
  txn := some write
  proof := some (.p1Sigs [(0, [⟨0, [0]⟩, ⟨1, [1]⟩, ⟨2, [2]⟩, ⟨3, [3]⟩, ⟨4, [4]⟩, ⟨5, [5]⟩])])

/-- The workers verify the certificate; when they call back, the memory where the digest was
computed holds something else. -/
def lateCallback (named : Option Digest) : List Event :=
  [.writeback (commitMsg named) [], .task 0 [7] []]

def Entry.checkedDigest? : Entry → Option Digest
  | .checked c _ => some c.digest
  | _ => none

/-- If the message does not name the digest, something is committed that has not been validated. -/
theorem committed_unvalidated :
    ((machine threaded).run {} (lateCallback none)).committed [7] ≠ none ∧
    ¬ DecisionsSound threaded {} ((machine threaded).run {} (lateCallback none)) := by
  refine ⟨by decide +kernel, fun h => ?_⟩
  obtain ⟨proof, hproof⟩ :
      ∃ proof, ((machine threaded).run {} (lateCallback none)).committed [7] = some proof :=
    Option.isSome_iff_exists.1 (by decide +kernel)
  obtain ⟨c, hc, -⟩ := h.accepted hproof (by simp)
  have hlog : [7] ∉ ((machine threaded).run {} (lateCallback none)).log.filterMap
      Entry.checkedDigest? := by decide +kernel
  exact hlog (List.mem_filterMap.2 ⟨_, hc.mem, congrArg some hc.digest⟩)

theorem decisions_sound_named :
    ((machine threaded).run {} (lateCallback (some (threaded.digest write)))).committed
      (threaded.digest write) ≠ none ∧
    DecisionsSound threaded {}
      ((machine threaded).run {} (lateCallback (some (threaded.digest write)))) :=
  ⟨by decide +kernel, decisions_sound rfl rfl idle_initial (by decide +kernel)⟩

end Sintr.Writeback
