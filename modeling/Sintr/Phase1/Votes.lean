import Sintr.Lib.History
import Sintr.Phase1.Invariant

/-!
# Votes and `Prepare`

A vote to commit, or to wait, should only be stored or sent once the transaction is prepared, so
that later checks see it. `Prepare` is called by the check itself, or by a callback that waits for
endorsements, or not at all.

* `VoteInv`: for one transaction, every stored or sent vote of this kind comes after `Prepare`, and
  every callback that may still lead to one will call it.
* `VoteStep`: the functions that decide, store and announce votes keep the invariant and lose no
  `Prepare`.
-/

namespace Sintr.Phase1

open State List Option Function

/-! ## Votes -/

def LogEntry.prepares (d : Digest) : LogEntry → Bool
  | .prepare _ d' => d' == d
  | _ => false

def LogEntry.vote : LogEntry → Option (Digest × CCResult)
  | .buffer _ d r | .reply _ d r _ | .fbReply d r => some (d, r)
  | _ => none

def State.Entered (s : State) (d : Digest) : Prop :=
  (∃ e ∈ s.log, e.prepares d) ∨ (s.committed d).isSome
deriving Decidable

/-- COMMIT needs a transaction that was entered, and WAIT too, unless it waits for queries. -/
structure VoteGood (parked entered : Prop) (r : CCResult) : Prop where
  commit : r = .commit → entered
  wait : r = .wait → entered ∨ parked

def LogGood (d : Digest) (parked committed : Prop) (before : List LogEntry) (e : LogEntry) : Prop :=
  ∀ r, e.vote = some (d, r) → VoteGood parked ((∃ e ∈ before, e.prepares d) ∨ committed) r

def CheckGood (parked entered : Prop) (a : AsyncCheck) : Prop :=
  if a.avp.delayed then a.callPrepare = false → entered
  else VoteGood parked entered a.avp.result

structure VoteInv (d : Digest) (parked : Prop) (s : State) : Prop where
  prepared : (s.prepared d).isSome → s.Entered d
  votes : ∀ {m}, s.p1MetaData d = some m → m.hasP1 = true →
    VoteGood parked (s.Entered d) m.result
  waiting : (s.waitingDependencies d).isSome → s.Entered d
  checks : ∀ a ∈ s.asyncChecks, a.digest = d → a.avp.ccDone = true →
    CheckGood parked (s.Entered d) a
  log : EachAfter (LogGood d parked (s.committed d).isSome) s.log

structure VoteStep (d : Digest) (parked : Prop) (s s' : State) : Prop where
  inv : VoteInv d parked s'
  entered : s.Entered d → s'.Entered d

section
variable {d d' : Digest} {parked entered entered' : Prop} {s s' s'' : State} {env : Env}
  {txn : Transaction} {r : CCResult} {parked' : Prop} {a : AsyncCheck}

theorem VoteGood.mono (h : VoteGood parked entered r) (he : entered → entered') :
    VoteGood parked entered' r :=
  ⟨fun hr => he (h.commit hr), fun hr => (h.wait hr).imp_left he⟩

theorem VoteGood.park (h : VoteGood parked entered r) (hp : parked → parked') :
    VoteGood parked' entered r :=
  ⟨h.commit, fun hr => (h.wait hr).imp_right hp⟩

theorem VoteGood.of_entered (he : entered) : VoteGood parked entered r :=
  ⟨fun _ => he, fun _ => .inl he⟩

theorem VoteGood.of_ne (hc : r ≠ .commit) (hw : r ≠ .wait) : VoteGood parked entered r :=
  ⟨fun h => absurd h hc, fun h => absurd h hw⟩

theorem VoteGood.abstain : VoteGood parked entered .abstain := .of_ne nofun nofun

theorem CheckGood.mono (h : CheckGood parked entered a) (he : entered → entered') :
    CheckGood parked entered' a := by
  unfold CheckGood at h ⊢
  split
  · rename_i hdel
    rw [if_pos hdel] at h
    exact fun hcall => he (h hcall)
  · rename_i hdel
    rw [if_neg hdel] at h
    exact h.mono he

theorem CheckGood.park (h : CheckGood parked entered a) (hp : parked → parked') :
    CheckGood parked' entered a := by
  unfold CheckGood at h ⊢
  split
  · rename_i hdel
    rwa [if_pos hdel] at h
  · rename_i hdel
    rw [if_neg hdel] at h
    exact h.park hp

namespace VoteStep

theorem trans (h : VoteStep d parked s s') (h' : VoteStep d parked s' s'') :
    VoteStep d parked s s'' :=
  ⟨h'.inv, fun he => h'.entered (h.entered he)⟩

theorem ite {p : Prop} [Decidable p] (h : p → VoteStep d parked s s')
    (h' : ¬ p → VoteStep d parked s s'') : VoteStep d parked s (if p then s' else s'') := by
  split
  · exact h ‹_›
  · exact h' ‹_›

end VoteStep

namespace VoteInv

section
variable (h : VoteInv d parked s)
include h

theorem refl : VoteStep d parked s s := ⟨h, id⟩

theorem transfer (he : s.Entered d → s'.Entered d)
    (hp : (s'.prepared d).isSome → (s.prepared d).isSome)
    (hv : ∀ m, s'.p1MetaData d = some m → s.p1MetaData d = some m)
    (hw : (s'.waitingDependencies d).isSome → (s.waitingDependencies d).isSome)
    (ha : s'.asyncChecks = s.asyncChecks)
    (hl : EachAfter (LogGood d parked (s'.committed d).isSome) s'.log) :
    VoteStep d parked s s' := by
  refine ⟨⟨fun hs => he (h.prepared (hp hs)), fun hm hP1 => (h.votes (hv _ hm) hP1).mono he,
    fun hs => he (h.waiting (hw hs)), fun a hmem hd hcc => ?_, hl⟩, he⟩
  rw [ha] at hmem
  exact (h.checks a hmem hd hcc).mono he

theorem other (hlog : s'.log = s.log)
    (hcommitted : s'.committed = s.committed) (hprepared : s'.prepared = s.prepared)
    (hvotes : s'.p1MetaData = s.p1MetaData)
    (hwaiting : s'.waitingDependencies = s.waitingDependencies)
    (hasync : s'.asyncChecks = s.asyncChecks) : VoteStep d parked s s' := by
  have he : s.Entered d → s'.Entered d := by
    unfold State.Entered
    rw [hlog, hcommitted]
    exact id
  refine h.transfer he ?_ ?_ ?_ hasync ?_
  · rw [hprepared]
    exact id
  · rw [hvotes]
    exact fun _ hm => hm
  · rw [hwaiting]
    exact id
  · rw [hlog, hcommitted]
    exact h.log

theorem panic : VoteStep d parked s s.panic :=
  h.other rfl rfl rfl rfl rfl rfl

theorem push (t : Task) : VoteStep d parked s (s.push t) :=
  h.other rfl rfl rfl rfl rfl rfl

theorem record {e : LogEntry}
    (hvote : ∀ r, e.vote = some (d, r) → VoteGood parked (s.Entered d) r) :
    VoteStep d parked s (s.record e) := by
  have he : s.Entered d → (s.record e).Entered d := by
    refine fun hs => hs.imp_left ?_
    rintro ⟨e', he', hp⟩
    exact ⟨e', mem_append_left _ he', hp⟩
  exact h.transfer he id (fun _ hm => hm) id rfl (h.log.snoc hvote)

theorem setP1MetaData {m : P1MetaData}
    (hm : d' = d → m.hasP1 = true → VoteGood parked (s.Entered d) m.result) :
    VoteStep d parked s (s.setP1MetaData d' m) := by
  refine ⟨{ h with votes := fun {m'} hm' hP1 => ?_ }, id⟩
  obtain ⟨rfl, heq⟩ | hold := update_some_cases hm'
  · cases heq
    exact hm rfl hP1
  · exact h.votes hold hP1

theorem clean (hard : Bool) : VoteStep d parked s (s.clean d' hard) := by
  refine h.transfer id (fun hp => ?_) (fun m hm => ?_) id rfl h.log
  · obtain ⟨p, hp⟩ := isSome_iff_exists.1 hp
    exact isSome_iff_exists.2 ⟨p, update_none hp⟩
  · simp only [State.clean] at hm
    split at hm
    · exact update_none hm
    · exact hm

theorem cleanDependencies :
    VoteStep d parked s (s.cleanDependencies d') := by
  refine h.transfer id id (fun _ hm => hm) (fun hw => ?_) rfl h.log
  obtain ⟨v, hv⟩ := isSome_iff_exists.1 hw
  exact isSome_iff_exists.2 ⟨v, update_none hv⟩

/-! ## Storing, sending and waiting -/

theorem setWaiting (he : d' = d → s.Entered d) (deps : List Digest) :
    VoteStep d parked s { s with
      waitingDependencies := update s.waitingDependencies d' (some deps) } := by
  refine ⟨{ h with waiting := fun hw => ?_ }, id⟩
  obtain ⟨v, hv⟩ := isSome_iff_exists.1 hw
  obtain ⟨heq, -⟩ | hold := update_some_cases hv
  · exact he heq.symm
  · exact h.waiting (isSome_iff_exists.2 ⟨v, hold⟩)

end

theorem rules : EndRules (VoteInv d parked) (VoteStep d parked)
    (fun s _ d' r => d' = d → VoteGood parked (s.Entered d) r) where
  inv := VoteStep.inv
  refl := refl
  trans := VoteStep.trans
  ok_mono := fun h hr heq => (hr heq).mono h.entered
  ok_commit := fun _ hr heq => .of_entered ((hr heq).commit rfl)
  stored := by
    rintro s T d' r m h hm hP1 - rfl
    exact h.votes hm hP1
  waiting := by
    rintro s d' h hw rfl
    exact .of_entered (h.waiting hw)
  other := fun h _ _ _ _ _ => h.other rfl rfl rfl rfl rfl rfl
  announce := by
    rintro s T d' r e h hr (_ | _ | _)
    all_goals
      refine h.record ?_
      rintro r' ⟨⟩
      exact hr rfl
  store := fun h hr => h.setP1MetaData fun heq _ => hr heq
  wait := fun h hr deps => h.setWaiting (fun heq => (hr heq).commit rfl) deps
  stopWaiting := cleanDependencies
  clean := clean

theorem dependencyCheck (h : VoteInv d parked s) (he : d' = d → s.Entered d) :
    VoteStep d parked s (s.dependencyCheck env d' txn).2 :=
  rules.dependencyCheck h fun heq => .of_entered (he heq)

theorem commit (h : VoteInv d parked s) (proof : CommittedProof) :
    VoteStep d parked s (s.commit env d' proof) := by
  refine .ite (fun _ => h.refl) fun _ => ?_
  have hgrow : (s.committed d).isSome →
      (update s.committed d' (some proof) d).isSome := by
    intro hs
    by_cases hd : d = d'
    · subst hd
      rw [update_self]
      rfl
    · rwa [update_of_ne hd]
  have hmark : VoteStep d parked s { s with
      committed := update s.committed d' (some proof)
      policyStore := commitPolicies env s.policyStore proof.txn } := by
    refine h.transfer (fun he => he.imp_right hgrow) id (fun _ hm => hm) id rfl ?_
    exact h.log.mono fun before e hgood r hr => (hgood r hr).mono fun he => he.imp_right hgrow
  exact hmark.trans (rules.finish hmark.inv)

/-! ## Prepare and the check -/

theorem prepare (h : VoteInv d parked s) : VoteStep d parked s (s.prepare d' txn) := by
  unfold State.prepare
  split
  · rename_i T hT _
    have hrec : VoteStep d parked s (s.record (.prepare T d')) := h.record (by rintro r ⟨⟩)
    refine ⟨{ hrec.inv with prepared := fun hp => ?_ }, hrec.entered⟩
    obtain ⟨p, hp⟩ := isSome_iff_exists.1 hp
    obtain ⟨rfl, -⟩ | hold := update_some_cases hp
    · refine .inl ⟨.prepare T d, mem_append_right _ (mem_singleton_self _), ?_⟩
      exact beq_self_eq_true d
    · exact hrec.inv.prepared (isSome_iff_exists.2 ⟨p, hold⟩)
  · exact h.refl

theorem entered_prepare (h : VoteInv d parked s) (ho : (s.ongoing d).isSome) :
    (s.prepare d txn).Entered d := by
  obtain ⟨T, hT⟩ := isSome_iff_exists.1 ho
  unfold State.prepare
  rw [hT]
  cases hp : s.prepared d with
  | none =>
    refine .inl ⟨.prepare T d, mem_append_right _ (mem_singleton_self _), ?_⟩
    exact beq_self_eq_true d
  | some p => exact h.prepared (by rw [hp]; rfl)

end VoteInv

end

def checksInParallel (env : Env) : Bool :=
  env.params.parallelEndorsementCheck && !env.params.serverSkipEndorsementCheck

/-- A check may prepare the transaction: it is ongoing, and not on the fallback path beside a
parallel endorsement check; or it was entered before. -/
def CanPrepare (env : Env) (s : State) (d : Digest) (fallbackFlow : Bool) : Prop :=
  s.Entered d ∨ (s.ongoing d).isSome ∧ (fallbackFlow = true → checksInParallel env = false)

/-! ## Parked transactions -/

section
variable {s : State} {d : Digest} {txn : Transaction} {r : CCResult} {env : Env}

theorem park_missingQueries (s : State) (reqId : UInt64) (d : Digest) (txn : Transaction)
    (isGossip : Bool) : ((s.park reqId d txn isGossip).missingQueries d).isSome := by
  unfold State.park
  split
  · assumption
  · simp only [update_self, isSome_some]

theorem setMerged_ongoing {m : Option ReadSet} (ho : (s.ongoing d).isSome) :
    ((s.setMerged d txn m).ongoing d).isSome := by
  unfold State.setMerged
  split
  · simp only [update_self, isSome_some]
  · exact ho

theorem missingQueries_rules :
    VoteRules (fun _ => True) (fun s s' => s'.missingQueries = s.missingQueries)
      (fun _ _ _ _ => True) where
  inv := fun _ => trivial
  refl := fun _ => rfl
  trans := fun h h' => h'.trans h
  ok_mono := fun _ _ => trivial
  ok_commit := fun _ _ => trivial
  stored := fun _ _ _ _ => trivial
  waiting := fun _ _ => trivial
  other := fun _ _ _ _ _ _ => rfl
  announce := fun _ _ _ => rfl
  store := fun _ _ => rfl
  wait := fun _ _ _ => rfl
  stopWaiting := fun _ => rfl

theorem handlePhase1CB_missingQueries (s : State) (reqId : UInt64) (r : CCResult)
    (c : Option CommittedProof) (g : Bool) :
    (s.handlePhase1CB env reqId r c d txn g).missingQueries = s.missingQueries :=
  missingQueries_rules.handlePhase1CB trivial reqId c g trivial

theorem prepare_ongoing (s : State) : (s.prepare d txn).ongoing = s.ongoing := by
  unfold State.prepare
  split
  · rfl
  · rfl

theorem asyncAction_missingQueries (s : State) (a : AsyncCheck) (act : AsyncAction) :
    (s.asyncAction env a act).missingQueries = s.missingQueries := by
  cases act with
  | none => rfl
  | report r fail => exact handlePhase1CB_missingQueries ..
  | delayedPrepare =>
    unfold State.asyncAction State.delayedPrepare
    dsimp only
    rw [handlePhase1CB_missingQueries, missingQueries_rules.dependencyCheck trivial trivial]
    split
    · unfold State.prepare
      split <;> rfl
    · rfl

end

/-! ## The check -/

structure OccGood (env : Env) (d d' : Digest) (parked : Prop) (s : State) (r : OCCResult) :
    Prop where
  step : VoteStep d parked s r.state
  vote : d' = d → r.delayed = none → VoteGood parked (r.state.Entered d) r.result
  /-- A callback that does not call `Prepare` is for a transaction that was entered before. -/
  entered : d' = d → r.delayed = some false → r.state.Entered d
  canPrepare : d' = d → r.delayed ≠ none → CanPrepare env r.state d false

theorem OccGood.of_vote {env : Env} {d d' : Digest} {parked : Prop} {s : State} {r : OCCResult}
    (hstep : VoteStep d parked s r.state) (hdel : r.delayed = none)
    (hvote : d' = d → VoteGood parked (r.state.Entered d) r.result) :
    OccGood env d d' parked s r where
  step := hstep
  vote := fun heq _ => hvote heq
  entered := by
    intro _ hfalse
    rw [hdel] at hfalse
    cases hfalse
  canPrepare := fun _ hne => absurd hdel hne

section
variable {d d' : Digest} {parked : Prop} {s : State} {env : Env} {txn : Transaction}
  {i : CCInput} {fallbackFlow : Bool}

namespace VoteInv

theorem mvtsoPassed (h : VoteInv d parked s)
    (hcan : d' = d → CanPrepare env s d fallbackFlow) :
    OccGood env d d' parked s (s.mvtsoPassed env d' txn fallbackFlow) := by
  have hprep : VoteStep d parked s
      (if (s.prepared d').isNone && !checksInParallel env then s.prepare d' txn else s) :=
    .ite (fun _ => h.prepare) fun _ => h.refl
  have hongoing : (s.ongoing d).isSome →
      ((if (s.prepared d').isNone && !checksInParallel env then s.prepare d' txn
        else s).ongoing d).isSome := by
    intro ho
    split
    · rwa [prepare_ongoing]
    · exact ho
  -- unless the effects are delayed, the transaction is entered now
  have hnow : d' = d → delaysPrepare env fallbackFlow = false →
      (if (s.prepared d').isNone && !checksInParallel env then s.prepare d' txn
        else s).Entered d := by
    intro heq hdel
    subst heq
    rcases hcan rfl with he | ⟨ho, hfb⟩
    · exact hprep.entered he
    · have hseq : checksInParallel env = false := by
        cases hf : fallbackFlow with
        | true => exact hfb hf
        | false => simpa [delaysPrepare, checksInParallel, hf] using hdel
      rw [hseq]
      cases hp : s.prepared d' with
      | none => exact h.entered_prepare ho
      | some p => exact h.prepared (isSome_iff_exists.2 ⟨p, hp⟩)
  unfold State.mvtsoPassed
  show OccGood env d d' parked s (if delaysPrepare env fallbackFlow then
    { state := if (s.prepared d').isNone && !checksInParallel env then s.prepare d' txn else s
      result := .commit, delayed := some (s.prepared d').isNone }
    else
      let r := (if (s.prepared d').isNone && !checksInParallel env then s.prepare d' txn
        else s).dependencyCheck env d' txn
      { state := r.2, result := r.1 })
  cases hdel : delaysPrepare env fallbackFlow with
  | true =>
    refine ⟨hprep, by simp, fun heq hfalse => ?_, fun heq _ => ?_⟩
    · subst heq
      have hsome : (s.prepared d').isSome = true := by simpa using some.inj hfalse
      exact hprep.entered (h.prepared hsome)
    · exact (hcan heq).imp hprep.entered fun ho => ⟨hongoing ho.1, by simp⟩
  | false =>
    have hdeps : VoteStep d parked _ (State.dependencyCheck env _ d' txn).2 :=
      hprep.inv.dependencyCheck fun heq => hnow heq hdel
    exact .of_vote (hprep.trans hdeps) rfl fun heq => .of_entered (hdeps.entered (hnow heq hdel))

theorem mvtsoAborted (h : VoteInv d parked s) (conflict : CommittedProof) :
    OccGood env d d' parked s (s.mvtsoAborted env d' conflict) := by
  have hab : VoteStep d parked s (s.mvtsoAborted env d' conflict).state :=
    rules.mvtsoAborted h conflict
  unfold State.mvtsoAborted at hab ⊢
  dsimp only at hab ⊢
  split at hab
  · rw [if_pos ‹_›]
    exact .of_vote hab rfl fun _ => .abstain
  · rw [if_neg ‹_›]
    exact .of_vote hab rfl fun _ => .of_ne nofun nofun

theorem doMVTSOOCCCheck (h : VoteInv d parked s)
    (hcan : d' = d → CanPrepare env s d fallbackFlow) :
    OccGood env d d' parked s (s.doMVTSOOCCCheck env i d' txn fallbackFlow) := by
  unfold State.doMVTSOOCCCheck
  split
  · exact h.mvtsoPassed hcan
  · split
    · exact h.mvtsoPassed hcan
    · exact .of_vote h.refl rfl fun _ => .abstain
    · exact h.mvtsoAborted _

theorem setMerged (h : VoteInv d parked s) (m : Option ReadSet) :
    VoteStep d parked s (s.setMerged d' txn m) :=
  .ite (fun _ => h.other rfl rfl rfl rfl rfl rfl) fun _ => h.refl

/-- `DoOCCCheck`. If it reports WAIT for missing queries, it leaves the transaction parked. -/
theorem doOCCCheck (h : VoteInv d parked s) (reqId : UInt64) (isGossip : Bool)
    (hcan : d' = d → CanPrepare env s d fallbackFlow)
    (hpark : (s.doOCCCheck env i reqId d' txn fallbackFlow isGossip).result ≠ .ignore →
      ((s.doOCCCheck env i reqId d' txn fallbackFlow isGossip).state.missingQueries d).isSome →
      parked) :
    OccGood env d d' parked s (s.doOCCCheck env i reqId d' txn fallbackFlow isGossip) := by
  unfold State.doOCCCheck at hpark ⊢
  split
  · exact .of_vote h.panic rfl fun _ => .of_ne nofun nofun
  · rename_i hts
    rw [if_neg hts] at hpark
    have hrec : VoteStep d parked s (s.record (.occCheck txn d')) := h.record (by rintro r ⟨⟩)
    dsimp only at hpark ⊢
    cases hmerge : i.merge with
    | wait =>
      rw [hmerge] at hpark
      have hkeep : VoteStep d parked s ((s.record (.occCheck txn d')).park reqId d' txn isGossip) :=
        .ite (fun _ => hrec) fun _ => hrec.trans (hrec.inv.other rfl rfl rfl rfl rfl rfl)
      refine .of_vote hkeep rfl fun heq => ⟨nofun, fun _ => .inr ?_⟩
      subst heq
      exact hpark nofun (park_missingQueries ..)
    | abstain => exact .of_vote hrec rfl fun _ => .abstain
    | ignore => exact .of_vote hrec rfl fun _ => .of_ne nofun nofun
    | merged m =>
      have hmer : VoteStep d parked s ((s.record (.occCheck txn d')).setMerged d' txn m) :=
        hrec.trans (hrec.inv.setMerged m)
      have hcan' : d' = d → CanPrepare env ((s.record (.occCheck txn d')).setMerged d' txn m) d
          fallbackFlow := by
        refine fun heq => (hcan heq).imp hmer.entered (And.imp_left fun ho => ?_)
        subst heq
        exact setMerged_ongoing ho
      have hocc : OccGood env d d' parked _ (State.doMVTSOOCCCheck env
          ((s.record (.occCheck txn d')).setMerged d' txn m) i d' { txn with mergedReadSet := m }
          fallbackFlow) := hmer.inv.doMVTSOOCCCheck hcan'
      exact { hocc with step := hmer.trans hocc.step }

end VoteInv

end

end Sintr.Phase1
