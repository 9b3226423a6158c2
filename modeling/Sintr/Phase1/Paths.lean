import Sintr.Phase1.Frame
import Sintr.Phase1.Invariant

/-!
# Every path keeps the invariant

The normal path, the asynchronous checks and the fallback path, each against `Inv`.

* `Inv.runChecks`: whichever way the two checks are run, a vote to commit follows only if the
  endorsement check passed (`Grants`) or is switched off.
* `Inv.validateEndorsement`, `Inv.concurrencyCheck`: the callbacks of an asynchronous check.
-/

namespace Sintr.Phase1

open State List Function

/-! ## The digest endorsements are checked against -/

theorem checkDigestOf_bareDigest (env : Env) (T : Transaction) :
    checkDigestOf env T (env.bareDigest T) = env.endorsedDigest T := by
  simp [checkDigestOf, Env.endorsedDigest]

theorem checkDigestOf_nil (env : Env) (T : Transaction) :
    checkDigestOf env T [] = env.endorsedDigest T := by
  simp [checkDigestOf, Env.endorsedDigest]

theorem mem_fullEndorsers {env : Env} {T : Transaction} {m : SignedMessage}
    (hm : m ∈ T.endorsements.getD [])
    (hv : validateEndorsementHelper env (env.endorsedDigest T) m = true) :
    m.processId ∈ fullEndorsers env T := by
  refine Finset.mem_insert_of_mem (mem_toFinset.2 (mem_map.2 ⟨m, ?_, rfl⟩))
  exact mem_filter.2 ⟨hm, hv⟩

/-! ## Asynchronous checks, on their own -/

namespace AsyncValidatePrepare

def Harmless (r : AsyncAction) : Prop := r = .none ∨ ∃ fail, r = .report .abstain fail ∨
  r = .report .abort fail

/-- It fixes policy and leak flag, and acts only if nothing was reported before and the endorsers
satisfy the policy, or harmlessly. -/
structure Acts (a : AsyncValidatePrepare) (r : AsyncValidatePrepare × AsyncAction) : Prop where
  policyClient : r.1.policyClient = a.policyClient
  policyLeak : r.1.policyLeak = a.policyLeak
  endorsers : r.1.endorsers = a.endorsers
  cbDone : a.cbDone = true → r.1.cbDone = true
  action : Harmless r.2 ∨ a.cbDone = false ∧ 0 ≤ a.policyClient.isSatisfiedInt a.endorsers

theorem finish_acts (a : AsyncValidatePrepare) : Acts a a.finish := by
  unfold finish
  split
  · exact ⟨rfl, rfl, rfl, id, .inl (.inl rfl)⟩
  · split
    · exact ⟨rfl, rfl, rfl, fun _ => rfl, .inr ⟨Bool.eq_false_iff.2 ‹_›, ‹_›⟩⟩
    · exact ⟨rfl, rfl, rfl, fun _ => rfl, .inl (.inr ⟨true, .inl rfl⟩)⟩

theorem addCompletedValidation_acts (a : AsyncValidatePrepare) (valid : Bool) (id : ProcessId) :
    Acts (a.addEndorser valid id) (a.addCompletedValidation valid id) := by
  unfold addCompletedValidation
  generalize a.addEndorser valid id = b
  dsimp only
  split
  · exact finish_acts _
  · split
    · exact ⟨rfl, rfl, rfl, fun _ => rfl, .inl (.inr ⟨true, .inl rfl⟩)⟩
    · exact ⟨rfl, rfl, rfl, fun h => h, .inl (.inl rfl)⟩

theorem setCCResult_acts (a : AsyncValidatePrepare) (r : CCResult) (delayed : Bool) :
    Acts a (a.setCCResult r delayed) := by
  unfold setCCResult
  dsimp only
  split
  · exact ⟨rfl, rfl, rfl, fun h => h, .inl (.inl rfl)⟩
  · split
    · obtain ⟨h1, h2, h3, h4, h5⟩ := finish_acts { a with ccDone := true, result := r, delayed }
      exact ⟨h1, h2, h3, h4, h5⟩
    · split
      · rename_i hr
        refine ⟨rfl, rfl, rfl, fun _ => rfl, .inl (.inr ⟨false, ?_⟩)⟩
        rcases hr with rfl | rfl
        · exact .inl rfl
        · exact .inr rfl
      · exact ⟨rfl, rfl, rfl, fun h => h, .inl (.inl rfl)⟩

/-- What an operation on a check keeps, and what it reports: the result of the concurrency check, or
nothing that commits. -/
structure Reports (a : AsyncValidatePrepare) (r : AsyncValidatePrepare × AsyncAction) : Prop where
  ccDone : r.1.ccDone = a.ccDone
  result : r.1.result = a.result
  delayed : r.1.delayed = a.delayed
  action : Harmless r.2 ∨ a.ccDone = true ∧ a.cbDone = false ∧
    r.2 = if a.delayed then .delayedPrepare else .report a.result false

theorem finish_reports {a : AsyncValidatePrepare} (hcc : a.ccDone = true) :
    Reports a a.finish := by
  unfold finish
  split
  · exact ⟨rfl, rfl, rfl, .inl (.inl rfl)⟩
  · split
    · exact ⟨rfl, rfl, rfl, .inr ⟨hcc, Bool.eq_false_iff.2 ‹_›, rfl⟩⟩
    · exact ⟨rfl, rfl, rfl, .inl (.inr ⟨true, .inl rfl⟩)⟩

theorem addCompletedValidation_reports (a : AsyncValidatePrepare) (valid : Bool) (id : ProcessId) :
    Reports a (a.addCompletedValidation valid id) := by
  unfold addCompletedValidation
  dsimp only
  split
  · rename_i hdone
    simp only [Bool.and_eq_true] at hdone
    obtain ⟨h1, h2, h3, h4⟩ := finish_reports hdone.1
    exact ⟨h1, h2, h3, h4⟩
  · split
    · exact ⟨rfl, rfl, rfl, .inl (.inr ⟨true, .inl rfl⟩)⟩
    · exact ⟨rfl, rfl, rfl, .inl (.inl rfl)⟩

theorem setCCResult_reports (a : AsyncValidatePrepare) (r : CCResult) (delayed : Bool) :
    Reports { a with ccDone := true, result := r, delayed := delayed }
      (a.setCCResult r delayed) := by
  unfold setCCResult
  dsimp only
  split
  · exact ⟨rfl, rfl, rfl, .inl (.inl rfl)⟩
  · split
    · exact finish_reports rfl
    · split
      · rename_i hr
        refine ⟨rfl, rfl, rfl, .inl (.inr ⟨false, ?_⟩)⟩
        rcases hr with rfl | rfl
        · exact .inl rfl
        · exact .inr rfl
      · exact ⟨rfl, rfl, rfl, .inl (.inl rfl)⟩

end AsyncValidatePrepare

section
variable {env : Env} {L : Digest → Transaction → Prop} {G : Digest → Prop} {s : State}
  {d : Digest} {txn : Transaction}

theorem TaskOk.append {txns : List Transaction} {t : Task} (h : TaskOk env L txns t)
    (l : List Transaction) : TaskOk env L (txns ++ l) t := by
  cases t with
  | validateEndorsement k m c =>
    obtain ⟨T, hT, hm, hc⟩ := h
    have hk : k < txns.length := (List.getElem?_eq_some_iff.1 hT).1
    exact ⟨T, by rwa [getElem?_append_left hk], hm, hc⟩
  | _ => exact h

namespace AsyncOk

variable {a : AsyncCheck} {r : AsyncValidatePrepare × AsyncAction} {avp : AsyncValidatePrepare}
  (h : AsyncOk env L G a) (hr : avp.Acts r) (hpc : avp.policyClient = a.avp.policyClient)
  (hleak : avp.policyLeak = a.avp.policyLeak) (hcb : avp.cbDone = a.avp.cbDone)
  (hcount : avp.policyLeak = false → avp.endorsers ⊆ fullEndorsers env a.txn)
include h hr hpc hleak hcb hcount

theorem acts (c : Option CommittedProof) (p : Bool) :
    AsyncOk env L G { a with avp := r.1, conflict := c, callPrepare := p } where
  named := h.named
  leak := by
    intro hl
    rw [hr.policyLeak, hleak] at hl
    exact hr.cbDone (hcb.trans (h.leak hl))
  counted := by
    intro hl
    rw [hr.policyLeak] at hl
    simpa only [hr.endorsers] using hcount hl
  promise := by
    intro hl E hE hsat
    rw [hr.policyLeak, hleak] at hl
    simp only [hr.policyClient, hpc] at hsat
    exact h.promise hl E hE hsat

theorem action : AsyncValidatePrepare.Harmless r.2 ∨ G a.digest := by
  refine hr.action.imp_right fun ⟨hnot, hsat⟩ => ?_
  have hl : a.avp.policyLeak = false := by
    by_contra hne
    have := h.leak (by simpa using hne)
    rw [hcb, this] at hnot
    cases hnot
  rw [hpc] at hsat
  exact h.promise hl _ (hcount (hleak.trans hl)) hsat

end AsyncOk

namespace Inv

theorem pushAll (h : Inv env L G s) {ts : List Task}
    (hts : ∀ t ∈ ts, TaskOk env L (s.asyncChecks.map (·.txn)) t) :
    Inv env L G (ts.foldl State.push s) := by
  induction ts generalizing s with
  | nil => exact h
  | cons t ts ih =>
    exact ih (h.push (hts t mem_cons_self)) fun t ht => hts t (mem_cons_of_mem _ ht)

theorem addAsync (h : Inv env L G s) {a : AsyncCheck} (ha : AsyncOk env L G a) :
    Inv env L G (s.addAsync a) where
  __ := h
  checks := by
    intro a' ha'
    rcases mem_append.1 ha' with ha' | ha'
    · exact h.checks a' ha'
    · rw [mem_singleton.1 ha']; exact ha
  tasks := by
    intro t ht
    simpa only [State.addAsync, map_append] using (h.tasks t ht).append _

theorem setAsync (h : Inv env L G s) {k : Nat} {a a' : AsyncCheck}
    (hk : s.asyncChecks[k]? = some a) (htxn : a'.txn = a.txn) (ha : AsyncOk env L G a') :
    Inv env L G (s.setAsync k a') where
  __ := h
  checks := by
    intro b hb
    rcases mem_or_eq_of_mem_set hb with hb | rfl
    · exact h.checks b hb
    · exact ha
  tasks := by
    have hmap : (s.asyncChecks.set k a').map (·.txn) = s.asyncChecks.map (·.txn) := by
      obtain ⟨hlt, hget⟩ := List.getElem?_eq_some_iff.1 hk
      refine ext_getElem? fun j => ?_
      rw [map_set, htxn, getElem?_set, getElem?_map]
      split
      · subst j; simp [hlt, hget]
      · rfl
    intro t ht
    simpa only [State.setAsync, hmap] using h.tasks t ht

theorem asyncAction (h : Inv env L G s) {a : AsyncCheck} (ha : L a.digest a.txn)
    {r : AsyncAction} (hr : AsyncValidatePrepare.Harmless r ∨ G a.digest) :
    Inv env L G (s.asyncAction env a r) := by
  rcases hr with (rfl | ⟨fail, rfl | rfl⟩) | hG
  · exact h
  · exact h.handlePhase1CB ha voteOk_abstain
  · exact h.handlePhase1CB ha (by rintro (h | h) <;> cases h)
  · cases r with
    | none => exact h
    | report => exact h.handlePhase1CB ha (voteOk_of hG)
    | delayedPrepare =>
      have hprep : Inv env L G (if a.callPrepare then s.prepare a.digest a.txn else s) :=
        ite (fun _ => h.prepare hG) fun _ => h
      exact (hprep.dependencyCheck ⟨_, ha⟩ hG).handlePhase1CB ha (voteOk_of hG)

theorem validateEndorsement (h : Inv env L G s) {k : Nat} {m : SignedMessage} {c : Digest}
    (ht : TaskOk env L (s.asyncChecks.map (·.txn)) (.validateEndorsement k m c)) :
    Inv env L G (s.validateEndorsement env k m c) := by
  obtain ⟨T, hT, hm, rfl⟩ := ht
  unfold State.validateEndorsement
  split
  · exact h
  · rename_i a hk
    obtain rfl : a.txn = T := by simpa [hk] using hT
    have ha : AsyncOk env L G a := h.checks a (mem_of_getElem? hk)
    generalize hv : validateEndorsementHelper env (env.endorsedDigest a.txn) m = valid
    have hacts := a.avp.addCompletedValidation_acts valid m.processId
    have hcount : a.avp.policyLeak = false →
        (a.avp.addEndorser valid m.processId).endorsers ⊆ fullEndorsers env a.txn := by
      intro hl
      unfold AsyncValidatePrepare.addEndorser
      dsimp only
      split
      · exact Finset.insert_subset (mem_fullEndorsers hm (hv.trans ‹_›)) (ha.counted hl)
      · exact ha.counted hl
    refine asyncAction (h.setAsync hk (by rfl) ?_) ?_ ?_
    · exact ha.acts hacts rfl rfl rfl hcount _ _
    · exact ha.named
    · exact ha.action hacts rfl rfl rfl hcount

end Inv

end

/-! ## The checks of a transaction -/

section
variable {env : Env} {L : Digest → Transaction → Prop} {G : Digest → Prop} {s : State}
  {d : Digest} {txn : Transaction} {i : CCInput}
  (hL : ∀ {d T} m, L d T → L d { T with mergedReadSet := m })
include hL

namespace Inv

theorem checkAndReport (h : Inv env L G s) (reqId : UInt64) (isGossip : Bool) (hd : L d txn)
    (hG : G d) : Inv env L G (s.checkAndReport env i reqId txn d isGossip) := by
  have hocc : OccOk env L G d false (s.doOCCCheck env i reqId d txn false isGossip) :=
    h.doOCCCheck hL reqId isGossip hd fun _ => hG
  exact ite (fun _ => hocc.inv) fun _ => hocc.inv.handlePhase1CB hd (voteOk_of hG)

theorem concurrencyCheck (h : Inv env L G s) {k : Nat} (hdel : delaysPrepare env false = true) :
    Inv env L G (s.concurrencyCheck env i k) := by
  unfold State.concurrencyCheck
  split
  · exact h
  · rename_i a hk
    have ha : AsyncOk env L G a := h.checks a (mem_of_getElem? hk)
    have hocc : OccOk env L G a.digest false
        (s.doOCCCheck env i a.reqId a.digest a.txn false a.isGossip) :=
      h.doOCCCheck hL a.reqId a.isGossip ha.named fun hnot => by rw [hdel] at hnot; cases hnot
    have hframe : Frame s (s.doOCCCheck env i a.reqId a.digest a.txn false a.isGossip).state :=
      .doOCCCheck s i a.reqId false a.isGossip
    generalize s.doOCCCheck env i a.reqId a.digest a.txn false a.isGossip = r at hocc hframe ⊢
    refine ite (fun _ => hocc.inv) fun _ => ?_
    have hacts := a.avp.setCCResult_acts r.result r.delayed.isSome
    have hk' : r.state.asyncChecks[k]? = some a := by rw [hframe.asyncChecks]; exact hk
    refine asyncAction (hocc.inv.setAsync hk' (by rfl) ?_) ?_ ?_
    · exact ha.acts hacts rfl rfl rfl ha.counted _ _
    · exact ha.named
    · exact ha.action hacts rfl rfl rfl ha.counted

variable (hskip : env.params.serverSkipEndorsementCheck = true → ∀ d, G d) {c : Digest}
include hskip

theorem checkAndVote (h : Inv env L G s) (hgr : Grants env L G s.policyStore) (reqId : UInt64)
    (isGossip : Bool) (hd : L d txn) (hc : c = env.endorsedDigest txn) :
    Inv env L G (s.checkAndVote env i reqId txn d c isGossip) := by
  subst hc
  unfold State.checkAndVote
  split
  · exact h.checkAndReport hL reqId isGossip hd (hskip ‹_› d)
  · have hrec : Inv env L G (s.record (.endorsementCheck txn (env.endorsedDigest txn))) :=
      h.record rfl
    dsimp only
    split
    · exact hrec.panic
    · rename_i status hstatus
      refine ite (fun _ => hrec.handlePhase1CB hd voteOk_abstain) fun hneg => ?_
      obtain ⟨pc, hx, hsat⟩ := endorsementCheck_extract hstatus (not_lt.1 hneg)
      exact hrec.checkAndReport hL reqId isGossip hd (hgr hd hx (Finset.Subset.refl _) hsat)

omit hL hskip in
theorem launchAsync (h : Inv env L G s) (hgr : Grants env L G s.policyStore) (reqId : UInt64)
    (isGossip : Bool) (hd : L d txn) (hc : c = env.endorsedDigest txn)
    (hdel : delaysPrepare env false = true) :
    Inv env L G (s.launchAsync env reqId txn d c isGossip) := by
  subst hc
  have hrec : Inv env L G (s.record (.endorsementCheck txn (env.endorsedDigest txn))) :=
    h.record rfl
  unfold State.launchAsync
  dsimp only
  split
  · exact hrec.panic
  · refine ((hrec.addAsync ?_).handlePhase1CB hd voteOk_abstain).push hdel
    exact ⟨hd, fun _ => rfl, nofun, nofun⟩
  · rename_i pc hx
    rw [← foldl_map (f := fun m => Task.validateEndorsement _ m _) (g := State.push)]
    refine ((hrec.addAsync ?_).pushAll ?_).push hdel
    · refine ⟨hd, nofun, fun _ => ?_, fun _ E hE hsat => hgr hd hx hE hsat⟩
      exact Finset.singleton_subset_iff.2 (Finset.mem_insert_self _ _)
    · intro t ht
      obtain ⟨m, hm, rfl⟩ := mem_map.1 ht
      exact ⟨txn, by simp [State.addAsync], hm, rfl⟩

theorem runChecks (h : Inv env L G s) (hgr : Grants env L G s.policyStore) (reqId : UInt64)
    (isGossip : Bool) (hd : L d txn) (hc : c = env.endorsedDigest txn) :
    Inv env L G (s.runChecks env i reqId txn d c isGossip) := by
  refine ite (fun hpar => h.launchAsync hgr reqId isGossip hd hc ?_) fun _ =>
    h.checkAndVote hL hskip hgr reqId isGossip hd hc
  simpa [delaysPrepare] using hpar

end Inv

end

/-! ## Messages and closures -/

section
variable (env : Env) (L : Digest → Transaction → Prop) (G : Digest → Prop)

/-- `HandlePhase1` passes one string for both digests, and `TryPrepare` uses it. -/
def aliases : Bool :=
  !env.params.hashEndorsements && !(env.params.multiThreading && env.params.signClientProposals)

def EventOk : Event → Prop
  | .phase1 msg _ => L (env.digest msg.txn) msg.txn ∧
    (aliases env = true → L (env.endorsedDigest msg.txn) msg.txn)
  | .phase1FB msg _ => L (env.digest msg.txn) msg.txn
  | .supply _ msg _ => L (env.digest msg.txn) msg.txn ∧
    checkDigestOf env msg.txn (env.digest msg.txn) = env.endorsedDigest msg.txn
  | .commit d _ => G d
  | _ => True

end

theorem phase1Digests_fst (env : Env) (T : Transaction) :
    (phase1Digests env T).1 = env.digest T := by
  unfold phase1Digests
  split
  · rename_i h
    simp only [Bool.and_eq_true, decide_eq_true_eq] at h
    simp [Env.digest, h.1]
  · rename_i h
    refine (env.digest_eq_bareDigest ?_).symm
    simp only [Bool.and_eq_true, decide_eq_true_eq, not_and, not_lt] at h
    cases hh : env.params.hashEndorsements with
    | false => exact .inl rfl
    | true => exact .inr (length_eq_zero_iff.1 (Nat.le_zero.1 (h hh)))

theorem checkDigestOf_phase1Digests (env : Env) (T : Transaction) :
    checkDigestOf env T (phase1Digests env T).2 = env.endorsedDigest T := by
  unfold phase1Digests
  split
  · exact checkDigestOf_bareDigest env T
  · exact checkDigestOf_nil env T

section
variable {env : Env} {L : Digest → Transaction → Prop} {G : Digest → Prop} {s : State}
  {d : Digest} {txn : Transaction} {i : CCInput}
  (hL : ∀ {d T} m, L d T → L d { T with mergedReadSet := m })
  (hskip : env.params.serverSkipEndorsementCheck = true → ∀ d, G d)
include hL hskip

namespace Inv

variable (h : Inv env L G s) {msg : Phase1Msg} {old : Digest}
include h

theorem tryPrepare (hgr : Grants env L G s.policyStore) (reqId : UInt64) (isGossip aliased : Bool)
    (hold : checkDigestOf env txn old = env.endorsedDigest txn)
    (hd : L (if aliased then env.endorsedDigest txn else d) txn) :
    Inv env L G (s.tryPrepare env i reqId txn d old aliased isGossip) := by
  unfold State.tryPrepare
  rw [hold]
  exact ite (fun _ => h.push ⟨hd, rfl⟩) fun _ =>
    h.runChecks hL hskip hgr reqId isGossip hd rfl

theorem dispatchedCheck (hgr : Grants env L G s.policyStore) (reqId : UInt64)
    (isGossip : Bool) {c : Digest} (hd : L d txn) (hc : c = env.endorsedDigest txn) :
    Inv env L G (s.dispatchedCheck env i reqId txn d c isGossip) := by
  refine ite (fun _ => ite (fun hco => ?_) fun _ => ite (fun _ => ?_) fun _ => h.panic) fun _ =>
    h.runChecks hL hskip hgr reqId isGossip hd hc
  · exact h.sendPhase1Reply reqId none hd (voteOk_of (h.committed hco))
  · exact h.sendPhase1Reply reqId none hd voteOk_abstain

omit hL hskip in
theorem removeOngoing : Inv env L G (s.removeOngoing d) :=
  ite (fun _ => h) fun _ => h.panic

theorem processProposal (hgr : Grants env L G s.policyStore)
    (isGossip aliased : Bool)
    (hold : checkDigestOf env msg.txn old = env.endorsedDigest msg.txn) (hd : L d msg.txn)
    (hal : aliased = true →
      (env.params.multiThreading && env.params.signClientProposals) = false →
      L (env.endorsedDigest msg.txn) msg.txn) :
    Inv env L G (s.processProposal env i msg d old aliased isGossip) := by
  have hadd : Inv env L G (s.addOngoing d msg.txn) := h.addOngoing hd
  refine ite (fun _ => hadd.push ⟨hd, hold⟩) fun hst => ite (fun _ => ?_) fun _ =>
    hadd.removeOngoing
  refine hadd.tryPrepare hL hskip hgr msg.reqId isGossip aliased hold ?_
  cases aliased with
  | false => exact hd
  | true => exact hal rfl (Bool.eq_false_iff.2 hst)

omit hL hskip in
theorem storedResult {m : P1MetaData}
    (hm : (s.p1MetaData d).filter (·.hasP1) = some m) : Named L d ∧ VoteOk G d m.result := by
  obtain ⟨hm, hP1⟩ := Option.filter_eq_some_iff.1 hm
  exact h.votes hm hP1

omit hL hskip in
theorem waitAgain {m m' : P1MetaData}
    (hm : (s.p1MetaData d).filter (·.hasP1) = some m) (hw : m.result = .wait)
    (hr : m'.result = m.result) :
    Inv env L G ((s.setP1MetaData d m').manageDependencies env d txn).2 := by
  obtain ⟨hN, hv⟩ := h.storedResult hm
  exact rules.manageDependencies (h.setP1MetaData fun _ => ⟨hN, hr ▸ hv⟩)
    ⟨nofun, hN, voteOk_of (hv (.inr hw))⟩

theorem handlePhase1 (hgr : Grants env L G s.policyStore) (hd : L (env.digest msg.txn) msg.txn)
    (hal : aliases env = true → L (env.endorsedDigest msg.txn) msg.txn) :
    Inv env L G (s.handlePhase1 env i msg) := by
  have hold := checkDigestOf_phase1Digests env msg.txn
  have hfst := phase1Digests_fst env msg.txn
  unfold State.handlePhase1
  generalize phase1Digests env msg.txn = ds at hold hfst ⊢
  obtain ⟨d, old⟩ := ds
  subst hfst
  dsimp only at hold ⊢
  split
  · exact { h.addOngoing hd with }
  · split
    · rename_i m hm
      refine ite (fun _ => h) fun _ => ite (fun hw => h.waitAgain hm hw rfl) fun _ => ?_
      exact h.sendPhase1Reply msg.reqId m.conflict hd (h.storedResult hm).2
    · refine ite (fun hco => ?_) fun _ => ite (fun _ => ?_) fun _ =>
        ite (fun _ => ?_) fun hhash => ?_
      · exact h.sendPhase1Reply msg.reqId none hd (voteOk_of (h.committed hco))
      · exact h.sendPhase1Reply msg.reqId none hd voteOk_abstain
      · exact h.processProposal hL hskip hgr _ false hold hd nofun
      · have hhash : env.params.hashEndorsements = false := Bool.eq_false_iff.2 hhash
        refine h.processProposal hL hskip hgr _ true ?_ hd fun _ hst => hal ?_
        · rw [env.digest_eq_bareDigest (.inl hhash)]
          exact checkDigestOf_bareDigest env msg.txn
        · simp [aliases, hhash, hst]

theorem processSuppliedTxn (hgr : Grants env L G s.policyStore) {txnId : Digest}
    (hd : L (env.digest msg.txn) msg.txn)
    (hold : checkDigestOf env msg.txn (env.digest msg.txn) = env.endorsedDigest msg.txn) :
    Inv env L G (s.processSuppliedTxn env i txnId msg) := by
  have hsync : Inv env L G { s with
      suppliedSync := update s.suppliedSync txnId true } := { h with }
  refine ite (fun _ => h) fun _ => ite (fun _ => hsync) fun _ => ite (fun _ => hsync.panic)
    fun hid => ?_
  obtain rfl := not_not.1 hid
  exact hsync.processProposal hL hskip hgr true false hold hd nofun

theorem wakeSubscribedTx (hgr : Grants env L G s.policyStore) :
    Inv env L G (s.wakeSubscribedTx env i d) := by
  unfold State.wakeSubscribedTx
  split
  · exact h
  · rename_i w hw
    have hmiss : Inv env L G { s with
        missingQueries := update s.missingQueries d none } :=
      { h with missing := fun hw => h.missing (update_none hw) }
    exact hmiss.tryPrepare hL hskip hgr w.reqId w.isGossip false (checkDigestOf_nil env w.txn)
      (h.missing hw)

/-! ## The fallback path -/

omit hskip in
theorem execP1 (reqId : UInt64) (hd : L d txn) (hG : G d) :
    Inv env L G (s.execP1 env i reqId d txn) := by
  have hrec : Inv env L G (s.record (.execP1 txn d)) := h.record ⟨hd, hG⟩
  have hocc : OccOk env L G d true
      ((s.record (.execP1 txn d)).doOCCCheck env i reqId d txn true false) :=
    hrec.doOCCCheck hL reqId false hd fun _ => hG
  exact rules.execP1 s rfl hocc.inv (.of hd (voteOk_of hG)) fun _ => hocc.inv.clean true

omit hskip in
theorem handlePhase1FB {msg : Phase1FBMsg} {r : State}
    (hr : s.handlePhase1FB env i msg = r) (hd : L (env.digest msg.txn) msg.txn)
    (hex : ∀ T d, L d T → .execP1 T d ∈ r.log → G d) : Inv env L G r := by
  have hint : Inv env L G (s.addInterested (env.digest msg.txn) msg.clientId) := { h with }
  have hadd := hint.addOngoing hd
  unfold State.handlePhase1FB at hr
  dsimp only at hr
  split at hr
  · subst hr; exact h
  · split at hr
    · rename_i m hm
      subst hr
      exact ite (fun hw => hint.waitAgain hm hw rfl) fun _ =>
        hint.record ⟨⟨_, hd⟩, (hint.storedResult hm).2⟩
    · split at hr
      · split at hr
        · subst hr
          exact hadd.execP1 hL msg.reqId hd (hex _ _ hd (execP1_logged ..))
        · subst hr; exact hint
      · unfold State.processProposalFB at hr
        dsimp only at hr
        split at hr
        · subst hr; exact hadd.push hd
        · split at hr
          · subst hr; exact hadd.removeOngoing
          · split at hr
            · subst hr; exact hadd
            · subst hr
              exact hadd.execP1 hL msg.reqId hd (hex _ _ hd (execP1_logged ..))

/-! ## Every event -/

theorem runTask (hgr : Grants env L G s.policyStore) {t : Task}
    (ht : TaskOk env L (s.asyncChecks.map (·.txn)) t)
    (hex : ∀ T d, L d T → .execP1 T d ∈ (s.runTask env i t).log → G d) :
    Inv env L G (s.runTask env i t) := by
  cases t with
  | checkProposal msg d old g => exact ite (fun _ => h.push ht) fun _ => h.removeOngoing
  | tryPrepare reqId txn d old g => exact h.tryPrepare hL hskip hgr reqId g false ht.2 ht.1
  | dispatchedCheck reqId txn d c g => exact h.dispatchedCheck hL hskip hgr reqId g ht.1 ht.2
  | validateEndorsement k m c => exact h.validateEndorsement ht
  | concurrencyCheck k => exact h.concurrencyCheck hL ht
  | checkProposalFB msg d => exact ite (fun _ => h.push ht) fun _ => h.removeOngoing
  | tryExec msg d => exact h.execP1 hL msg.reqId ht (hex _ _ ht (execP1_logged ..))

theorem step (hgr : Grants env L G s.policyStore) {e : Event}
    (he : EventOk env L G e)
    (hex : ∀ T d, L d T → .execP1 T d ∈ (step env s e).log → .execP1 T d ∈ s.log ∨ G d) :
    Inv env L G (step env s e) := by
  have hex' : ∀ T d, L d T → .execP1 T d ∈ (Phase1.step env s e).log → G d :=
    fun T d hLd hmem => (hex T d hLd hmem).elim (fun hlog => (h.log _ hlog).2) id
  unfold Phase1.step at hex' ⊢
  split
  · exact h
  · rename_i hrun
    rw [if_neg hrun] at hex'
    cases e with
    | phase1 msg i => exact h.handlePhase1 hL hskip hgr he.1 he.2
    | phase1FB msg i => exact h.handlePhase1FB hL rfl he hex'
    | supply txnId msg i => exact h.processSuppliedTxn hL hskip hgr he.1 he.2
    | task k i =>
      dsimp only at hex' ⊢
      cases hk : s.tasks[k]? with
      | none => exact h
      | some t =>
        rw [hk] at hex'
        have herase : Inv env L G { s with tasks := s.tasks.eraseIdx k } :=
          { h with tasks := fun t ht => h.tasks t (mem_of_mem_eraseIdx ht) }
        exact herase.runTask hL hskip hgr (h.tasks t (mem_of_getElem? hk)) hex'
    | wake d i => exact h.wakeSubscribedTx hL hskip hgr
    | commit d proof => exact h.commit he proof
    | abort d =>
      have hwb : Inv env L G { s with
          writebackMessages := update s.writebackMessages d true } := { h with }
      exact rules.abort hwb
    | logP2 d => exact { h with }
    | outOfOrder d => exact { h with }

end Inv

end

end Sintr.Phase1
