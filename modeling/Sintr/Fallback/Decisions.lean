import Sintr.Fallback.Replies

/-!
# Decisions of a fallback leader need an election

A replica takes over the decision of a leader if a DecisionFB message shows that `2f + 1` replicas
of the logging group have elected it (`Elected`). Three things can make the replica believe an
election that did not happen:

* on the main thread the result of the validation is thrown away;
* a signature in the replica's own name is not looked at if the decision is the one it has logged,
  though it may never have voted in this view;
* `IsReplicaInGroup` compares host numbers, and lets replicas of other groups pass.

`decision_elected` shows that there are no other ways.
-/

namespace Sintr.Fallback

open Quorum List

/-- Replicas of group `lg`, `2f + 1` of them, have signed the vote for this decision and view. -/
def Elected (env : Env) (msg : DecisionFBMsg) (lg : GroupId) : Prop :=
  ∃ voters : List ProcessId, voters.Nodup ∧ voters.length = 2 * env.config.f + 1 ∧
    ∀ i ∈ voters, env.config.InGroup i lg ∧ ∃ sig ∈ msg.electSigs, sig.processId = i ∧
      env.verify i (.elect msg.txnDigest msg.decision msg.view) sig.signature = true

def ElectedByLogGroup (env : Env) (msg : DecisionFBMsg) : Prop :=
  ∃ txn lg, env.digest txn = msg.txnDigest ∧ getLogGroup txn msg.txnDigest = some lg ∧
    Elected env msg lg

/-! ## What the validators have checked -/

def State.electBallot (env : Env) (s : State) (msg : DecisionFBMsg) (lg : GroupId)
    (sig : Signature) : Ballot GroupId ProcessId :=
  Sintr.electBallot env msg.decision msg.view msg.txnDigest lg
    (s.lookupP2Decision env msg.txnDigest) sig

/-- A voter that passes for one of the group is one, and a vote that is believed without a look is
valid. -/
def Genuine (env : Env) (s : State) (msg : DecisionFBMsg) (lg : GroupId) : Prop :=
  ∀ sig ∈ msg.electSigs,
    ((s.electBallot env msg lg sig).admitted = true → env.config.InGroup sig.processId lg) ∧
      ((s.electBallot env msg lg sig).trusted = true → (s.electBallot env msg lg sig).valid = true)

variable {env : Env} {msg : DecisionFBMsg} {s : State} {d : Digest} {schedule : List Nat}
  {txn : Transaction} {lg : GroupId}

theorem elected_of_hasQuorum
    (hg : Genuine env s msg lg)
    (h : HasQuorum (2 * env.config.f + 1) (fun b => b.admitted = true ∧ b.ok = true)
      (msg.electSigs.map (s.electBallot env msg lg))) : Elected env msg lg := by
  obtain ⟨l, hsub, hlen, hnd, hok⟩ := h
  refine ⟨l.map (·.voter), hnd, by rw [length_map, hlen], fun i hi => ?_⟩
  obtain ⟨b, hb, rfl⟩ := mem_map.1 hi
  obtain ⟨sig, hsig, rfl⟩ := mem_map.1 (hsub.subset hb)
  obtain ⟨hadmitted, hbelieved⟩ := hok _ hb
  refine ⟨(hg sig hsig).1 hadmitted, sig, hsig, rfl, ?_⟩
  rcases Bool.or_eq_true _ _ ▸ hbelieved with htrusted | hvalid
  · exact (hg sig hsig).2 htrusted
  · exact hvalid

theorem asyncValidateFBDecision_elected
    (hg : ∀ lg, getLogGroup txn msg.txnDigest = some lg → Genuine env s msg lg)
    (h : asyncValidateFBDecision env schedule msg.decision msg.view txn msg.txnDigest msg.electSigs
      (s.lookupP2Decision env msg.txnDigest) = .accept) :
    ∃ lg, getLogGroup txn msg.txnDigest = some lg ∧ Elected env msg lg := by
  unfold asyncValidateFBDecision at h
  split at h
  · cases h
  · rename_i lg hlg
    refine ⟨lg, hlg, elected_of_hasQuorum (hg lg hlg) (verifyGroup_hasQuorum ?_ h)⟩
    intro b hb
    obtain ⟨sig, -, rfl⟩ := mem_map.1 hb
    rfl

theorem validateFBDecision_elected
    (hg : ∀ lg, getLogGroup txn msg.txnDigest = some lg → Genuine env s msg lg)
    (h : validateFBDecision env msg.decision msg.view txn msg.txnDigest msg.electSigs
      (s.lookupP2Decision env msg.txnDigest) = .accept) :
    ∃ lg, getLogGroup txn msg.txnDigest = some lg ∧ Elected env msg lg := by
  unfold validateFBDecision at h
  split at h
  · cases h
  · rename_i lg hlg
    split at h
    · rename_i hreaches
      exact ⟨lg, hlg, elected_of_hasQuorum (hg lg hlg) (reaches_hasQuorum hreaches)⟩
    · cases h

/-! ## From the message to the change -/

inductive Delivers (s : State) (msg : DecisionFBMsg) : Event → Prop where
  | message (schedule : List Nat) : Delivers s msg (.decisionFB msg schedule)
  | callback (k : Nat) (schedule : List Nat) (stale : Digest) (valid : Bool)
      (h : s.tasks[k]? = some (.fbDecisionCallback msg valid)) :
      Delivers s msg (.task k schedule stale)

def DecisionsMeet (env : Env) (s : State) (e : Event) : Prop :=
  ∀ msg schedule txn, e = .decisionFB msg schedule → s.ongoing msg.txnDigest = some txn →
    (env.params.multiThreading = true ∨
      validateFBDecision env msg.decision msg.view txn msg.txnDigest msg.electSigs
        (s.lookupP2Decision env msg.txnDigest) ≠ .reject) ∧
    ∀ lg, getLogGroup txn msg.txnDigest = some lg → Genuine env s msg lg

def DecisionOk (env : Env) : Task → Prop
  | .fbDecisionCallback msg true => ElectedByLogGroup env msg
  | _ => True

theorem decisionOk_of_pushes {e : Event} (he : DecisionsMeet env s e)
    (h : Waiting env (DecisionOk env) s) {t : Task} (ht : Pushes env s e t) :
    DecisionOk env t := by
  cases ht with
  | decisionFB msg schedule txn valid htxn hvalid =>
    cases valid with
    | false => trivial
    | true =>
      obtain ⟨lg, hlg, helected⟩ :=
        asyncValidateFBDecision_elected (he msg schedule txn rfl htxn).2 (hvalid rfl)
      exact ⟨txn, lg, h.ongoing _ _ htxn, hlg, helected⟩
  | _ => trivial

theorem fbDecisionCallback_change {valid : Bool}
    (h : (s.fbDecisionCallback msg valid).p2MetaDatas d ≠ s.p2MetaDatas d) :
    d = msg.txnDigest ∧ valid = true := by
  cases valid with
  | false => exact absurd rfl h
  | true =>
    refine ⟨by_contra fun hd => h ?_, rfl⟩
    simp only [State.fbDecisionCallback, Bool.not_true, Bool.false_eq_true, if_false]
    split
    · rfl
    · unfold State.adoptDecision
      split
      · rfl
      · simp [State.setP2, Function.update_of_ne hd]

theorem dispatch_p2MetaDatas (env : Env) (s : State) (v : Verdict) (callback : Bool → Task) :
    (s.dispatch env v callback).p2MetaDatas = s.p2MetaDatas := by
  cases v with
  | panic =>
    simp only [State.dispatch]
    split <;> rfl
  | _ => rfl

theorem handleDecisionFB_change
    (h : (s.handleDecisionFB env schedule msg).p2MetaDatas d ≠ s.p2MetaDatas d) :
    d = msg.txnDigest ∧ env.params.multiThreading = false ∧
      ∃ txn, s.ongoing msg.txnDigest = some txn ∧
        validateFBDecision env msg.decision msg.view txn msg.txnDigest msg.electSigs
          (s.lookupP2Decision env msg.txnDigest) ≠ .panic := by
  unfold State.handleDecisionFB at h
  dsimp only at h
  split at h
  · exact absurd rfl h
  · split at h
    · exact absurd rfl h
    · split at h
      · exact absurd rfl h
      · rename_i txn htxn
        split at h
        · rw [dispatch_p2MetaDatas] at h
          exact absurd rfl h
        · rename_i hmt
          split at h
          · exact absurd rfl h
          · rename_i hv
            exact ⟨(fbDecisionCallback_change h).1, Bool.eq_false_iff.2 hmt, txn, htxn, hv⟩

theorem step_elected {e : Event} (h : Waiting env (DecisionOk env) s) (he : DecisionsMeet env s e)
    (hdel : Delivers s msg e) (hchange : (step env s e).p2MetaDatas d ≠ s.p2MetaDatas d) :
    d = msg.txnDigest ∧ ElectedByLogGroup env msg := by
  unfold step at hchange
  split at hchange
  · exact absurd rfl hchange
  · cases hdel with
    | message schedule =>
      obtain ⟨hd, hmt, txn, htxn, hpanic⟩ := handleDecisionFB_change hchange
      obtain ⟨hmode, hgenuine⟩ := he msg schedule txn rfl htxn
      have hreject := hmode.resolve_left (by simp [hmt])
      obtain ⟨lg, hlg, helected⟩ := validateFBDecision_elected hgenuine (by
        unfold validateFBDecision at hpanic hreject ⊢
        grind)
      exact ⟨hd, txn, lg, h.ongoing _ _ htxn, hlg, helected⟩
    | callback k schedule stale valid hk =>
      simp only [hk] at hchange
      obtain ⟨hd, rfl⟩ := fbDecisionCallback_change hchange
      exact ⟨hd, h.tasks _ (mem_of_getElem? hk)⟩

/-- In a run whose DecisionFB messages meet the conditions, a message changes the decision or the
views of a replica only if it shows that the logging group has elected the leader. -/
theorem decision_elected (env : Env) (s : State) (hs : Idle env s) (es : List Event) (e : Event)
    (hes : (fallbackMachine env).Along (DecisionsMeet env) s (es ++ [e])) (msg : DecisionFBMsg)
    (hdel : Delivers ((fallbackMachine env).run s es) msg e) (d : Digest)
    (hchange : (step env ((fallbackMachine env).run s es) e).p2MetaDatas d ≠
      ((fallbackMachine env).run s es).p2MetaDatas d) :
    d = msg.txnDigest ∧ ElectedByLogGroup env msg := by
  obtain ⟨hes, he, -⟩ := Machine.Along.append.1 hes
  have hwaiting : Waiting env (DecisionOk env) ((fallbackMachine env).run s es) := by
    refine Machine.run_along (fun t e' ht hw => ?_) (hs.waiting _) hes
    exact step_waiting (fun _ => decisionOk_of_pushes ht hw) hw
  exact step_elected hwaiting he hdel hchange

/-! ## Decisions without an election -/

theorem not_elected_of_length
    (h : (msg.electSigs.filter fun sig => env.verify sig.processId
      (.elect msg.txnDigest msg.decision msg.view) sig.signature).length < 2 * env.config.f + 1) :
    ¬Elected env msg lg := by
  rintro ⟨voters, hnd, hlen, hall⟩
  -- distinct voters have distinct valid signatures
  have hsub : voters ⊆ (msg.electSigs.filter fun sig => env.verify sig.processId
      (.elect msg.txnDigest msg.decision msg.view) sig.signature).map (·.processId) := by
    intro i hi
    obtain ⟨-, sig, hsig, rfl, hvalid⟩ := hall i hi
    exact mem_map_of_mem (mem_filter.2 ⟨hsig, hvalid⟩)
  have hle := (hnd.subperm hsub).length_le
  rw [length_map] at hle
  omega

/-- On the main thread a decision is adopted without signatures; with worker threads, one that only
two others have voted for. -/
theorem decision_without_election :
    let d := Env.sample.digest loggedWrite
    let m : DecisionFBMsg := { txnDigest := d, decision := .abort, view := 1 }
    let s := (fallbackMachine Env.sample).run {} [.outside (.addOngoing loggedWrite)]
    let m' : DecisionFBMsg := { txnDigest := d, decision := .commit, view := 2
                                electSigs := [⟨0, []⟩, ⟨1, [1]⟩, ⟨2, [2]⟩] }
    let s' := (fallbackMachine threaded).run {} [.outside (.addOngoing loggedWrite),
      .decisionFB (leaderDecision .commit [0, 1, 2]) [], .task 0 [], .decisionFB m' []]
    ((s.p2MetaDatas d).hasP2 = false ∧ (∀ lg, ¬Elected Env.sample m lg) ∧
      (((step Env.sample s (.decisionFB m [])).p2MetaDatas d).p2Decision = .abort ∧
        ((step Env.sample s (.decisionFB m [])).p2MetaDatas d).decisionView = 1)) ∧
    ((s'.p2MetaDatas d).decisionView = 1 ∧ (∀ lg, ¬Elected threaded m' lg) ∧
      ((step threaded s' (.task 0 [])).p2MetaDatas d).decisionView = 2) := by
  intro d m s m' s'
  refine ⟨⟨by decide +kernel, fun lg => not_elected_of_length (by decide), by decide +kernel⟩,
    by decide +kernel, fun lg => not_elected_of_length (by decide +kernel), by decide +kernel⟩

theorem decision_elected_threeVotes :
    let d := threaded.digest loggedWrite
    let m := leaderDecision .commit [0, 1, 2]
    let s := (fallbackMachine threaded).run {}
      [.outside (.addOngoing loggedWrite), .decisionFB m []]
    (step threaded s (.task 0 [])).p2MetaDatas d ≠ s.p2MetaDatas d ∧
      ElectedByLogGroup threaded m := by
  intro d m s
  have hchange : (step threaded s (.task 0 [])).p2MetaDatas d ≠ s.p2MetaDatas d := by
    intro heq
    have hview := congrArg P2MetaData.decisionView heq
    revert hview
    decide +kernel
  refine ⟨hchange, (decision_elected threaded {} ⟨rfl, nofun⟩ [.outside (.addOngoing loggedWrite),
    .decisionFB m []] (.task 0 []) ⟨nofun, ?_, nofun, trivial⟩ m
    (.callback 0 [] [] true (by decide +kernel)) d hchange).2⟩
  intro msg schedule txn heq htxn
  cases heq
  have htxn' : some loggedWrite = some txn := by
    rw [← htxn]
    decide +kernel
  cases htxn'
  refine ⟨.inl rfl, fun lg hlg => ?_⟩
  have hlg' : some (0 : GroupId) = some lg := by
    rw [← hlg]
    decide +kernel
  cases hlg'
  unfold Genuine
  decide +kernel

end Sintr.Fallback
