import Sintr.Phase1.Endorsed
import Sintr.Phase1.Votes

/-!
# Votes for prepared transactions

The paths from a message to a vote, against `VoteInv`.
-/

namespace Sintr.Phase1

open State List Function

section
variable {d d' : Digest} {parked : Prop} {s s' s'' : State} {env : Env} {txn : Transaction}
  {i : CCInput} {fallbackFlow : Bool}

/-! ## The normal path -/

/-- The step keeps the invariant, if leaving the transaction parked counts as parking it. -/
def Keeps (d : Digest) (parked : Prop) (s s' : State) : Prop :=
  ((s'.missingQueries d).isSome → parked) → VoteStep d parked s s'

theorem VoteStep.keeps (h : VoteStep d parked s s') : Keeps d parked s s' := fun _ => h

namespace Keeps

theorem after (h : Keeps d parked s' s'') (h₀ : VoteStep d parked s s') : Keeps d parked s s'' :=
  fun hpark => h₀.trans (h hpark)

theorem ite {p : Prop} [Decidable p] (h : p → Keeps d parked s s')
    (h' : ¬ p → Keeps d parked s s'') : Keeps d parked s (if p then s' else s'') := by
  split
  · exact h ‹_›
  · exact h' ‹_›

end Keeps

theorem doOCCCheck_delayed (hdel : delaysPrepare env fallbackFlow = false) (s : State)
    (i : CCInput) (reqId : UInt64) (d : Digest) (txn : Transaction) (isGossip : Bool) :
    (s.doOCCCheck env i reqId d txn fallbackFlow isGossip).delayed = none := by
  have hpassed : ∀ (s : State) (txn : Transaction),
      (s.mvtsoPassed env d txn fallbackFlow).delayed = none := by
    intro s txn
    simp [State.mvtsoPassed, hdel]
  unfold State.doOCCCheck
  split
  · rfl
  · dsimp only
    cases i.merge with
    | wait => rfl
    | abstain => rfl
    | ignore => rfl
    | merged m =>
      dsimp only
      unfold State.doMVTSOOCCCheck
      split
      · exact hpassed _ _
      · cases i.check with
        | ok => exact hpassed _ _
        | abstain => rfl
        | abort c =>
          dsimp only [State.mvtsoAborted]
          split
          · rfl
          · rfl

namespace VoteInv

theorem checkAndReport (h : VoteInv d parked s) (reqId : UInt64) (isGossip : Bool)
    (hdel : delaysPrepare env false = false) (hcan : d' = d → CanPrepare env s d false) :
    Keeps d parked s (s.checkAndReport env i reqId txn d' isGossip) := by
  intro hpark
  have hnone := doOCCCheck_delayed hdel s i reqId d' txn isGossip
  have hocc : (_ → _ → parked) →
      OccGood env d d' parked s (s.doOCCCheck env i reqId d' txn false isGossip) :=
    h.doOCCCheck reqId isGossip hcan
  unfold State.checkAndReport at hpark ⊢
  generalize s.doOCCCheck env i reqId d' txn false isGossip = r at hnone hocc hpark ⊢
  dsimp only at hpark ⊢
  by_cases hc : r.state.crashed
  · rw [if_pos hc] at hpark ⊢
    exact (hocc fun _ => hpark).step
  · rw [if_neg hc] at hpark ⊢
    rw [handlePhase1CB_missingQueries] at hpark
    have hgood := hocc fun _ => hpark
    exact hgood.step.trans (rules.handlePhase1CB hgood.step.inv reqId r.conflict isGossip fun heq =>
      hgood.vote heq hnone)

variable {c : Digest}

section
variable (h : VoteInv d parked s) {a : AsyncCheck}
include h

theorem checkAndVote (reqId : UInt64) (isGossip : Bool)
    (hdel : delaysPrepare env false = false) (hcan : d' = d → CanPrepare env s d false) :
    Keeps d parked s (s.checkAndVote env i reqId txn d' c isGossip) := by
  unfold State.checkAndVote
  split
  · exact h.checkAndReport reqId isGossip hdel hcan
  · have hrec : VoteStep d parked s (s.record (.endorsementCheck txn c)) :=
      h.record (by rintro r ⟨⟩)
    dsimp only
    split
    · exact (hrec.trans hrec.inv.panic).keeps
    · refine .ite (fun _ => ?_) fun _ => ?_
      · refine (hrec.trans ?_).keeps
        exact rules.handlePhase1CB hrec.inv reqId none isGossip fun _ => .abstain
      · refine (hrec.inv.checkAndReport reqId isGossip hdel fun heq => ?_).after hrec
        exact (hcan heq).imp_left hrec.entered

theorem addAsync (ha : a.avp.ccDone = false) :
    VoteStep d parked s (s.addAsync a) := by
  refine ⟨{ h with checks := fun b hb hd hcc => ?_ }, id⟩
  rcases mem_append.1 hb with hb | hb
  · exact h.checks b hb hd hcc
  · rw [mem_singleton.1 hb, ha] at hcc
    cases hcc

theorem setAsync {k : Nat}
    (ha : a.digest = d → a.avp.ccDone = true → CheckGood parked (s.Entered d) a) :
    VoteStep d parked s (s.setAsync k a) := by
  refine ⟨{ h with checks := fun b hb hd hcc => ?_ }, id⟩
  rcases mem_or_eq_of_mem_set hb with hb | rfl
  · exact h.checks b hb hd hcc
  · exact ha hd hcc

theorem launchAsync (reqId : UInt64) (isGossip : Bool) :
    VoteStep d parked s (s.launchAsync env reqId txn d' c isGossip) := by
  have hrec : VoteStep d parked s (s.record (.endorsementCheck txn c)) :=
    h.record (by rintro r ⟨⟩)
  have hadd : ∀ a : AsyncCheck, a.avp.ccDone = false →
      VoteStep d parked s ((s.record (.endorsementCheck txn c)).addAsync a) :=
    fun a ha => hrec.trans (hrec.inv.addAsync ha)
  have hfail : ∀ (a : AsyncCheck) (t : Task), a.avp.ccDone = false → VoteStep d parked s
      ((((s.record (.endorsementCheck txn c)).addAsync a).handlePhase1CB env reqId .abstain none d'
        txn isGossip).push t) := by
    intro a t ha
    have hcb : VoteStep d parked _ (State.handlePhase1CB env _ reqId .abstain none d' txn
        isGossip) := rules.handlePhase1CB (hadd a ha).inv reqId none isGossip fun _ => .abstain
    exact ((hadd a ha).trans hcb).trans (hcb.inv.push t)
  have hlaunch : ∀ (a : AsyncCheck) (t : Task) (ts : SignedMessage → Task), a.avp.ccDone = false →
      VoteStep d parked s (((txn.endorsements.getD []).foldl (fun s m => s.push (ts m))
        ((s.record (.endorsementCheck txn c)).addAsync a)).push t) := by
    intro a t ts ha
    have hall : VoteStep d parked _ _ := rules.foldl
      (fun s m (h : VoteInv d parked s) => h.push (ts m)) (hadd a ha).inv (txn.endorsements.getD [])
    exact ((hadd a ha).trans hall).trans (hall.inv.push t)
  unfold State.launchAsync
  dsimp only
  split
  · exact hrec.trans hrec.inv.panic
  · exact hfail _ _ rfl
  · exact hlaunch _ _ _ rfl

theorem runChecks (reqId : UInt64) (isGossip : Bool)
    (hcan : d' = d → CanPrepare env s d false) :
    Keeps d parked s (s.runChecks env i reqId txn d' c isGossip) := by
  refine .ite (fun _ => (h.launchAsync reqId isGossip).keeps) fun hpar => ?_
  refine h.checkAndVote reqId isGossip ?_ hcan
  simpa [delaysPrepare] using hpar

theorem tryPrepare (reqId : UInt64) (isGossip aliased : Bool)
    {old : Digest} (hcan : (if aliased then checkDigestOf env txn old else d') = d →
      CanPrepare env s d false) :
    Keeps d parked s (s.tryPrepare env i reqId txn d' old aliased isGossip) :=
  .ite (fun _ => (h.push _).keeps) fun _ => h.runChecks reqId isGossip hcan

theorem dispatchedCheck (reqId : UInt64) (isGossip : Bool) :
    Keeps d parked s (s.dispatchedCheck env i reqId txn d' c isGossip) := by
  refine .ite (fun _ => .ite (fun hco => ?_) fun _ => .ite (fun _ => ?_) fun _ => h.panic.keeps)
    fun ho => ?_
  · refine (rules.sendPhase1Reply h reqId none ?_).keeps
    rintro rfl
    exact .of_entered (.inr hco)
  · exact (rules.sendPhase1Reply h reqId none fun _ => .abstain).keeps
  · refine h.runChecks reqId isGossip ?_
    rintro rfl
    exact .inr ⟨by simpa [Option.isSome_iff_ne_none] using ho, nofun⟩

theorem addOngoing : VoteStep d parked s (s.addOngoing d' txn) :=
  h.other rfl rfl rfl rfl rfl rfl

end

theorem canPrepare_addOngoing (heq : d' = d)
    (hpar : fallbackFlow = true → s.Entered d ∨ checksInParallel env = false) :
    CanPrepare env (s.addOngoing d' txn) d fallbackFlow := by
  subst heq
  by_cases he : s.Entered d'
  · exact .inl he
  · refine .inr ⟨by simp [State.addOngoing], fun hfb => (hpar hfb).resolve_left he⟩

theorem removeOngoing (h : VoteInv d parked s) : VoteStep d parked s (s.removeOngoing d') :=
  .ite (fun _ => h.refl) fun _ => h.panic

theorem processProposal (h : VoteInv d parked s) {msg : Phase1Msg} (isGossip aliased : Bool)
    {old : Digest} (hal : aliased = true →
      (env.params.multiThreading && env.params.signClientProposals) = false →
      checkDigestOf env msg.txn old = d → d' = d ∨ CanPrepare env s d false) :
    Keeps d parked s (s.processProposal env i msg d' old aliased isGossip) := by
  have hadd : VoteStep d parked s (s.addOngoing d' msg.txn) := h.addOngoing
  have hown : d' = d → CanPrepare env (s.addOngoing d' msg.txn) d false :=
    fun heq => canPrepare_addOngoing heq nofun
  refine .ite (fun _ => (hadd.trans (hadd.inv.push _)).keeps) fun hst => .ite (fun _ => ?_)
    fun _ => (hadd.trans hadd.inv.removeOngoing).keeps
  refine (hadd.inv.tryPrepare msg.reqId isGossip aliased fun hd => ?_).after hadd
  cases aliased with
  | false => exact hown hd
  | true =>
    rcases hal rfl (Bool.eq_false_iff.2 hst) hd with heq | he | ⟨ho, hfb⟩
    · exact hown heq
    · exact .inl (hadd.entered he)
    · refine .inr ⟨?_, hfb⟩
      by_cases hne : d = d'
      · simp [State.addOngoing, hne]
      · simpa [State.addOngoing, update_of_ne hne] using ho

/-! ## Messages -/

theorem storedResult (h : VoteInv d parked s) {m : P1MetaData}
    (hm : (s.p1MetaData d).filter (·.hasP1) = some m) :
    VoteGood parked (s.Entered d) m.result := by
  obtain ⟨hm, hP1⟩ := Option.filter_eq_some_iff.1 hm
  exact h.votes hm hP1

theorem waitAgain (h : VoteInv d parked s) {m m' : P1MetaData}
    (hm : (s.p1MetaData d').filter (·.hasP1) = some m) (hr : m'.result = m.result)
    (he : d' = d → s.Entered d) :
    VoteStep d parked s ((s.setP1MetaData d' m').manageDependencies env d' txn).2 := by
  have hset : VoteStep d parked s (s.setP1MetaData d' m') := by
    refine h.setP1MetaData fun heq _ => ?_
    subst heq
    rw [hr]
    exact h.storedResult hm
  refine hset.trans ?_
  exact rules.manageDependencies hset.inv fun heq => .of_entered (hset.entered (he heq))

end VoteInv

end

/-- WAIT is stored for the transaction, which was never entered. -/
def WaitsOutside (s : State) (d : Digest) : Prop :=
  (∃ m, (s.p1MetaData d).filter (·.hasP1) = some m ∧ m.result = .wait) ∧ ¬ s.Entered d

section
variable {d d' : Digest} {parked : Prop} {s : State} {env : Env} {txn : Transaction}
  {i : CCInput}

namespace VoteInv

theorem handlePhase1 (h : VoteInv d parked s) {msg : Phase1Msg}
    (hwait : env.digest msg.txn = d → ¬ WaitsOutside s d)
    (hal : aliases env = true → env.endorsedDigest msg.txn = d →
      env.digest msg.txn = d ∨ CanPrepare env s d false) :
    Keeps d parked s (s.handlePhase1 env i msg) := by
  have hfst := phase1Digests_fst env msg.txn
  unfold State.handlePhase1
  generalize phase1Digests env msg.txn = ds at hfst ⊢
  obtain ⟨d', old⟩ := ds
  dsimp only at hfst ⊢
  subst hfst
  split
  · refine VoteStep.keeps ?_
    exact h.other rfl rfl rfl rfl rfl rfl
  · split
    · rename_i m hm
      refine .ite (fun _ => h.refl.keeps) fun _ => .ite (fun hw => VoteStep.keeps ?_) fun _ => ?_
      · refine h.waitAgain hm ?_ fun heq => ?_
        · rfl
        · by_contra hne
          exact hwait heq ⟨⟨m, heq ▸ hm, hw⟩, hne⟩
      · refine (rules.sendPhase1Reply h msg.reqId m.conflict ?_).keeps
        rintro rfl
        exact h.storedResult hm
    · refine .ite (fun hco => ?_) fun _ => .ite (fun _ => ?_) fun _ => .ite (fun _ => ?_)
        fun hhash => ?_
      · refine (rules.sendPhase1Reply h msg.reqId none ?_).keeps
        rintro rfl
        exact .of_entered (.inr hco)
      · exact (rules.sendPhase1Reply h msg.reqId none fun _ => .abstain).keeps
      · exact h.processProposal msg.replicaGossip false nofun
      · have hhash : env.params.hashEndorsements = false := Bool.eq_false_iff.2 hhash
        refine h.processProposal msg.replicaGossip true fun _ hst hd => hal ?_ ?_
        · simp [aliases, hhash, hst]
        · rwa [env.digest_eq_bareDigest (.inl hhash), checkDigestOf_bareDigest] at hd

theorem processSuppliedTxn (h : VoteInv d parked s) {txnId : Digest} {msg : Phase1Msg} :
    Keeps d parked s (s.processSuppliedTxn env i txnId msg) := by
  have hsync : VoteStep d parked s { s with
      suppliedSync := update s.suppliedSync txnId true } :=
    h.other rfl rfl rfl rfl rfl rfl
  refine .ite (fun _ => h.refl.keeps) fun _ => .ite (fun _ => hsync.keeps) fun _ =>
    .ite (fun _ => (hsync.trans hsync.inv.panic).keeps) fun _ => ?_
  exact (hsync.inv.processProposal true false nofun).after hsync

theorem wakeSubscribedTx (h : VoteInv d parked s) (hcan : d' = d → CanPrepare env s d false) :
    Keeps d parked s (s.wakeSubscribedTx env i d') := by
  unfold State.wakeSubscribedTx
  split
  · exact h.refl.keeps
  · rename_i w _
    have hmiss : VoteStep d parked s { s with
        missingQueries := update s.missingQueries d' none } :=
      h.other rfl rfl rfl rfl rfl rfl
    refine (hmiss.inv.tryPrepare w.reqId w.isGossip false fun heq => ?_).after hmiss
    exact (hcan heq).imp_left hmiss.entered

end VoteInv

/-! ## Asynchronous checks -/

namespace VoteInv

variable (h : VoteInv d parked s) {msg : Phase1FBMsg} {a : AsyncCheck}
include h

theorem delayedPrepare (he : a.digest = d → a.callPrepare = false → s.Entered d)
    (hcan : a.digest = d → CanPrepare env s d false) :
    VoteStep d parked s (s.delayedPrepare env a).2 ∧
      (a.digest = d → (s.delayedPrepare env a).2.Entered d) := by
  have hprep : VoteStep d parked s
      (if a.callPrepare then s.prepare a.digest a.txn else s) :=
    .ite (fun _ => h.prepare) fun _ => h.refl
  have hnow : a.digest = d →
      (if a.callPrepare then s.prepare a.digest a.txn else s).Entered d := by
    intro heq
    rcases hcan heq with hent | ⟨ho, -⟩
    · exact hprep.entered hent
    · split
      · rw [heq]
        exact h.entered_prepare ho
      · rename_i hcall
        exact he heq (Bool.eq_false_iff.2 hcall)
  have hdeps : VoteStep d parked _ (s.delayedPrepare env a).2 := hprep.inv.dependencyCheck hnow
  exact ⟨hprep.trans hdeps, fun heq => hdeps.entered (hnow heq)⟩

theorem asyncAction {act : AsyncAction}
    (hact : AsyncValidatePrepare.Harmless act ∨
      (a.digest = d → CheckGood parked (s.Entered d) a ∧
        (a.avp.delayed = true → CanPrepare env s d false)) ∧
        act = if a.avp.delayed then .delayedPrepare else .report a.avp.result false) :
    VoteStep d parked s (s.asyncAction env a act) := by
  rcases hact with (rfl | ⟨fail, rfl | rfl⟩) | ⟨hgood, rfl⟩
  · exact h.refl
  · exact rules.handlePhase1CB h a.reqId _ a.isGossip fun _ => .abstain
  · exact rules.handlePhase1CB h a.reqId _ a.isGossip fun _ => .of_ne nofun nofun
  · cases hdel : a.avp.delayed with
    | false =>
      refine rules.handlePhase1CB h a.reqId _ a.isGossip fun heq => ?_
      simpa [CheckGood, hdel] using (hgood heq).1
    | true =>
      have hcall : a.digest = d → a.callPrepare = false → s.Entered d := by
        intro heq
        simpa [CheckGood, hdel] using (hgood heq).1
      obtain ⟨hstep, hent⟩ := h.delayedPrepare hcall fun heq => (hgood heq).2 hdel
      exact hstep.trans (rules.handlePhase1CB hstep.inv a.reqId a.conflict a.isGossip fun heq =>
        .of_entered (hent heq))

theorem validateEndorsement {k : Nat} {m : SignedMessage} {c : Digest}
    (hcan : ∀ a, s.asyncChecks[k]? = some a → a.digest = d → a.avp.ccDone = true →
      a.avp.cbDone = false → CanPrepare env s d false) :
    VoteStep d parked s (s.validateEndorsement env k m c) := by
  unfold State.validateEndorsement
  split
  · exact h.refl
  · rename_i a hk
    have hrep := a.avp.addCompletedValidation_reports (validateEndorsementHelper env c m)
      m.processId
    generalize a.avp.addCompletedValidation (validateEndorsementHelper env c m) m.processId = r
      at hrep ⊢
    have hgood : a.digest = d → a.avp.ccDone = true →
        CheckGood parked (s.Entered d) { a with avp := r.1 } := by
      intro hd hcc
      have hold := h.checks a (mem_of_getElem? hk) hd hcc
      unfold CheckGood at hold ⊢
      dsimp only
      rwa [hrep.delayed, hrep.result]
    have hset : VoteStep d parked s (s.setAsync k { a with avp := r.1 }) :=
      h.setAsync fun hd hcc => hgood hd (hrep.ccDone ▸ hcc)
    refine hset.trans (hset.inv.asyncAction (hrep.action.imp_right ?_))
    rintro ⟨hcc, hcb, hact⟩
    refine ⟨fun hd => ⟨(hgood hd hcc).mono hset.entered, fun _ => hcan a hk hd hcc hcb⟩, ?_⟩
    dsimp only
    rw [hact, hrep.delayed, hrep.result]

theorem concurrencyCheck {k : Nat}
    (hcan : ∀ a, s.asyncChecks[k]? = some a → a.digest = d → CanPrepare env s d false) :
    Keeps d parked s (s.concurrencyCheck env i k) := by
  unfold State.concurrencyCheck
  split
  · exact h.refl.keeps
  · rename_i a hk
    intro hpark
    have hocc : (_ → _ → parked) → OccGood env d a.digest parked s
        (s.doOCCCheck env i a.reqId a.digest a.txn false a.isGossip) :=
      h.doOCCCheck a.reqId a.isGossip (hcan a hk)
    generalize s.doOCCCheck env i a.reqId a.digest a.txn false a.isGossip = r at hocc hpark ⊢
    dsimp only at hpark ⊢
    by_cases hc : r.state.crashed
    · rw [if_pos hc] at hpark ⊢
      exact (hocc fun _ => hpark).step
    · rw [if_neg hc] at hpark ⊢
      rw [asyncAction_missingQueries] at hpark
      have hgood := hocc fun _ => hpark
      have hrep := a.avp.setCCResult_reports r.result r.delayed.isSome
      generalize a.avp.setCCResult r.result r.delayed.isSome = v at hrep ⊢
      have hcheck : a.digest = d → CheckGood parked (r.state.Entered d)
          { a with avp := v.1, conflict := r.conflict, callPrepare := r.delayed.getD false } := by
        intro hd
        unfold CheckGood
        dsimp only
        rw [hrep.delayed, hrep.result]
        cases hdel : r.delayed with
        | none => exact hgood.vote hd hdel
        | some call => exact fun hcall => hgood.entered hd (hdel.trans (congrArg some hcall))
      have hset : VoteStep d parked r.state (r.state.setAsync k
          { a with avp := v.1, conflict := r.conflict, callPrepare := r.delayed.getD false }) :=
        hgood.step.inv.setAsync fun hd _ => hcheck hd
      refine (hgood.step.trans hset).trans (hset.inv.asyncAction (hrep.action.imp_right ?_))
      rintro ⟨-, -, hact⟩
      refine ⟨fun hd => ⟨(hcheck hd).mono hset.entered, fun hdel => ?_⟩, ?_⟩
      · refine hgood.canPrepare hd fun hnone => ?_
        have hdel : v.1.delayed = true := hdel
        rw [hrep.delayed, hnone] at hdel
        cases hdel
      · dsimp only
        rw [hact, hrep.delayed, hrep.result]

/-! ## The fallback path -/

theorem execP1 (reqId : UInt64)
    (hcan : d' = d → CanPrepare env s d true) :
    Keeps d parked s (s.execP1 env i reqId d' txn) := by
  have hrec : VoteStep d parked s (s.record (.execP1 txn d')) := h.record (by rintro r ⟨⟩)
  have hnone : ((s.record (.execP1 txn d')).doOCCCheck env i reqId d' txn true false).delayed =
      none := by
    apply doOCCCheck_delayed
    simp [delaysPrepare]
  intro hpark
  have hocc : (_ → _ → parked) → OccGood env d d' parked (s.record (.execP1 txn d'))
      ((s.record (.execP1 txn d')).doOCCCheck env i reqId d' txn true false) :=
    hrec.inv.doOCCCheck reqId false fun heq => (hcan heq).imp_left hrec.entered
  have hmissing := missingQueries_rules.execP1 (s := s) _ (Eq.refl
    ((s.record (.execP1 txn d')).doOCCCheck env i reqId d' txn true false)) rfl trivial
  have hgood := hocc fun hr hmiss => hpark (by rwa [hmissing fun h => absurd h hr])
  refine rules.execP1 s rfl (hrec.trans hgood.step) (fun heq => hgood.vote heq hnone) ?_
  exact fun _ => hgood.step.inv.clean true

theorem processProposalFB (hpar : d' = d → s.Entered d ∨ checksInParallel env = false) :
    Keeps d parked s (s.processProposalFB env i msg d') := by
  have hadd : VoteStep d parked s (s.addOngoing d' msg.txn) := h.addOngoing
  refine .ite (fun _ => (hadd.trans (hadd.inv.push _)).keeps) fun _ => .ite
    (fun _ => (hadd.trans hadd.inv.removeOngoing).keeps) fun _ => .ite (fun _ => hadd.keeps)
    fun _ => ?_
  refine (hadd.inv.execP1 msg.reqId fun heq => ?_).after hadd
  exact canPrepare_addOngoing heq fun _ => hpar heq

theorem handlePhase1FB (hwait : env.digest msg.txn = d → ¬ WaitsOutside s d)
    (hpar : env.digest msg.txn = d → s.Entered d ∨ checksInParallel env = false) :
    Keeps d parked s (s.handlePhase1FB env i msg) := by
  have hint : VoteStep d parked s (s.addInterested (env.digest msg.txn) msg.clientId) :=
    h.other rfl rfl rfl rfl rfl rfl
  refine .ite (fun _ => h.refl.keeps) fun _ => Keeps.after ?_ hint
  split
  · rename_i m hm
    refine .ite (fun hw => VoteStep.keeps ?_) fun _ => VoteStep.keeps ?_
    · refine hint.inv.waitAgain hm ?_ fun heq => ?_
      · rfl
      · by_contra hne
        exact hwait heq ⟨⟨m, heq ▸ hm, hw⟩, hne⟩
    · refine hint.inv.record ?_
      rintro r ⟨⟩
      exact hint.inv.storedResult hm
  · refine .ite (fun _ => .ite (fun _ => ?_) fun _ => hint.inv.refl.keeps) fun _ => ?_
    · have hadd : VoteStep d parked _ (State.addOngoing _ (env.digest msg.txn) msg.txn) :=
        hint.inv.addOngoing
      exact (hadd.inv.execP1 msg.reqId fun heq =>
        canPrepare_addOngoing heq fun _ => (hpar heq).imp_left hint.entered).after hadd
    · exact hint.inv.processProposalFB fun heq => (hpar heq).imp_left hint.entered

end VoteInv

end

/-! ## Every event -/

section
variable (env : Env) (d : Digest) (s : State)

def TaskReady : Task → Prop
  | .tryPrepare _ _ d' _ _ => d' = d → CanPrepare env s d false
  | .validateEndorsement k _ _ => ∀ a, s.asyncChecks[k]? = some a → a.digest = d →
    a.avp.ccDone = true → a.avp.cbDone = false → CanPrepare env s d false
  | .concurrencyCheck k => ∀ a, s.asyncChecks[k]? = some a → a.digest = d →
    CanPrepare env s d false
  | .tryExec _ d' => d' = d → CanPrepare env s d true
  | _ => True

/-- An event that checks `d` finds it ongoing or entered before; it is not on the fallback path
beside a parallel endorsement check, nor asks again for a WAIT given for missing queries. -/
def Ready : Event → Prop
  | .phase1 msg _ => (env.digest msg.txn = d → ¬ WaitsOutside s d) ∧
    (aliases env = true → env.endorsedDigest msg.txn = d →
      env.digest msg.txn = d ∨ CanPrepare env s d false)
  | .phase1FB msg _ => (env.digest msg.txn = d → ¬ WaitsOutside s d) ∧
    (env.digest msg.txn = d → s.Entered d ∨ checksInParallel env = false)
  | .task k _ => ∀ t, s.tasks[k]? = some t → TaskReady env d s t
  | .wake d' _ => d' = d → CanPrepare env s d false
  | _ => True

end

section
variable {d : Digest} {parked : Prop} {s : State} {env : Env} {i : CCInput}

namespace VoteInv

theorem runTask (h : VoteInv d parked s) {t : Task} (ht : TaskReady env d s t) :
    Keeps d parked s (s.runTask env i t) := by
  cases t with
  | checkProposal msg d' old g =>
    exact .ite (fun _ => (h.push _).keeps) fun _ => h.removeOngoing.keeps
  | tryPrepare reqId txn d' old g => exact h.tryPrepare reqId g false ht
  | dispatchedCheck reqId txn d' c g => exact h.dispatchedCheck reqId g
  | validateEndorsement k m c => exact (h.validateEndorsement ht).keeps
  | concurrencyCheck k => exact h.concurrencyCheck ht
  | checkProposalFB msg d' =>
    exact .ite (fun _ => (h.push _).keeps) fun _ => h.removeOngoing.keeps
  | tryExec msg d' => exact h.execP1 msg.reqId ht

theorem step (h : VoteInv d parked s) {e : Event} (he : Ready env d s e) :
    Keeps d parked s (step env s e) := by
  refine .ite (fun _ => h.refl.keeps) fun _ => ?_
  cases e with
  | phase1 msg i => exact h.handlePhase1 he.1 he.2
  | phase1FB msg i => exact h.handlePhase1FB he.1 he.2
  | supply txnId msg i => exact h.processSuppliedTxn
  | task k i =>
    dsimp only
    cases hk : s.tasks[k]? with
    | none => exact h.refl.keeps
    | some t =>
      have herase : VoteStep d parked s { s with tasks := s.tasks.eraseIdx k } :=
        h.other rfl rfl rfl rfl rfl rfl
      refine (herase.inv.runTask ?_).after herase
      have ht := he t hk
      cases t with
      | _ => exact ht
  | wake d' i => exact h.wakeSubscribedTx he
  | commit d' proof => exact (h.commit proof).keeps
  | abort d' =>
    have hmark : VoteStep d parked s { s with
        writebackMessages := update s.writebackMessages d' true } :=
      h.other rfl rfl rfl rfl rfl rfl
    exact (hmark.trans (rules.abort hmark.inv)).keeps
  | logP2 d' =>
    refine VoteStep.keeps ?_
    exact h.other rfl rfl rfl rfl rfl rfl
  | outOfOrder d' =>
    refine VoteStep.keeps ?_
    exact h.other rfl rfl rfl rfl rfl rfl

theorem mono {parked' : Prop} (h : VoteInv d parked s) (hp : parked → parked') :
    VoteInv d parked' s where
  prepared := h.prepared
  votes := fun hm hP1 => (h.votes hm hP1).park hp
  waiting := h.waiting
  checks := fun a ha hd hcc => (h.checks a ha hd hcc).park hp
  log := h.log.mono fun _ _ hgood r hr => (hgood r hr).park hp

end VoteInv

theorem voteInv_initial (ps : PolicyStore) : VoteInv d parked (initial ps) where
  prepared := by simp [initial]
  votes := by simp [initial]
  waiting := by simp [initial]
  checks := by simp [initial]
  log := eachAfter_nil

end

def WasParked (env : Env) (s : State) (es : List Event) (d : Digest) : Prop :=
  ∃ es₀, es₀ <+: es ∧ (((phase1Machine env).run s es₀).missingQueries d).isSome

theorem voteInv_run {env : Env} {d : Digest} {ps : PolicyStore} {es : List Event}
    (hes : (phase1Machine env).Along (Ready env d) (initial ps) es) :
    VoteInv d (WasParked env (initial ps) es d) ((phase1Machine env).run (initial ps) es) := by
  refine Machine.run_history (I := fun es s => VoteInv d (WasParked env (initial ps) es d) s)
    (voteInv_initial ps) ?_ hes
  intro es e hinv hready
  have hgrow : WasParked env (initial ps) es d → WasParked env (initial ps) (es ++ [e]) d := by
    rintro ⟨es₀, hpre, hmiss⟩
    exact ⟨es₀, hpre.trans (prefix_append _ _), hmiss⟩
  refine ((hinv.mono hgrow).step hready fun hmiss => ?_).inv
  refine ⟨es ++ [e], prefix_rfl, ?_⟩
  rw [Machine.run_append]
  exact hmiss

/-- If the transaction is ongoing, or entered before, whenever it is checked, a vote to commit it
comes only after `Prepare` entered it, unless it is committed; so does WAIT, unless queries are
missing. -/
theorem votes_prepared (env : Env) (d : Digest) (ps : PolicyStore) (es : List Event)
    (hes : (phase1Machine env).Along (Ready env d) (initial ps) es) :
    let s := (phase1Machine env).run (initial ps) es
    let parked := WasParked env (initial ps) es d
    (∀ before e after r, s.log = before ++ e :: after → e.vote = some (d, r) →
      VoteGood parked ((∃ e ∈ before, e.prepares d) ∨ (s.committed d).isSome) r) ∧
    (∀ m, s.p1MetaData d = some m → m.hasP1 = true → VoteGood parked (s.Entered d) m.result) := by
  have hinv := voteInv_run hes
  exact ⟨fun before e after r hlog hr => hinv.log before e after hlog r hr,
    fun m hm hP1 => hinv.votes hm hP1⟩

/-! ## Votes for transactions that were never prepared -/

def VotesUnprepared (env : Env) (es : List Event) (d : Digest) (r : CCResult) : Prop :=
  let s := (phase1Machine env).run (initial twoEndorsers) es
  (∃ e ∈ s.log, e.vote = some (d, r)) ∧ ¬ s.Entered d
deriving Decidable

def workerEnv : Env :=
  { Env.sample with params := { multiThreading := true, signClientProposals := true } }

def parallelEnv : Env := { Env.sample with params := { parallelEndorsementCheck := true } }

/-- WAIT is voted for missing queries, COMMIT for a transaction that was aborted before its check,
and COMMIT on the fallback path beside a parallel endorsement check, where nobody calls `Prepare`.
-/
theorem voted_unprepared :
    VotesUnprepared Env.sample [.phase1 { reqId := 1, txn := endorsedWrite } { merge := .wait }]
      (Env.sample.digest endorsedWrite) .wait ∧
    VotesUnprepared workerEnv
      [.phase1 { reqId := 1, txn := endorsedWrite, signer := 1, signature := [1] } {}, .task 0 {},
        .abort (workerEnv.digest endorsedWrite), .task 0 {}]
      (workerEnv.digest endorsedWrite) .commit ∧
    VotesUnprepared parallelEnv [.phase1FB { reqId := 1, txn := endorsedWrite } {}]
      (parallelEnv.digest endorsedWrite) .commit := by
  decide +kernel

theorem votes_prepared_endorsedWrite :
    let es : List Event := [.phase1 { reqId := 1, txn := endorsedWrite } {}]
    let s := (phase1Machine Env.sample).run (initial twoEndorsers) es
    (∃ e ∈ s.log, e.vote = some (Env.sample.digest endorsedWrite, .commit)) ∧
      s.Entered (Env.sample.digest endorsedWrite) := by
  intro es s
  have hready : (phase1Machine Env.sample).Along
      (Ready Env.sample (Env.sample.digest endorsedWrite)) (initial twoEndorsers) es := by
    refine ⟨⟨fun _ => ?_, fun _ _ => .inl rfl⟩, trivial⟩
    rintro ⟨⟨m, hm, -⟩, -⟩
    cases hm
  have hvote : ∃ e ∈ s.log, e.vote = some (Env.sample.digest endorsedWrite, .commit) := by
    decide +kernel
  refine ⟨hvote, ?_⟩
  obtain ⟨hlog, -⟩ := votes_prepared Env.sample _ twoEndorsers es hready
  obtain ⟨e, he, hr⟩ := hvote
  obtain ⟨before, after, hsplit⟩ := List.append_of_mem he
  refine ((hlog before e after .commit hsplit hr).commit rfl).imp_left ?_
  rintro ⟨e', he', hp⟩
  exact ⟨e', hsplit ▸ List.mem_append_left _ he', hp⟩

end Sintr.Phase1
