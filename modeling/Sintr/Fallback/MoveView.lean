import Sintr.Fallback.Acts

/-!
# Moving to a view with all other replicas

With all-to-all fallbacks a replica counts the MoveView messages for each view. It casts its own
vote when a client asks for it or when `f + 1` votes are in, and raises its view with the
`2f + 1`st. Votes are counted without their senders, and `Clean` throws them away.
-/

namespace Sintr.Fallback

open List

section

variable (env : Env) (d : Digest)

/-- Who has asked for a view in a message that passes. -/
def senders (v : UInt64) (es : List Event) : List ProcessId :=
  es.filterMap fun
    | .moveView msg =>
      if State.validMoveView env msg ∧ msg.txnDigest = d ∧ msg.view = v then some msg.processId
      else none
    | _ => none

/-- Everybody asks once for a view, and none of the messages is from outside the group or in the
name of the replica itself. -/
structure AskOnce (es : List Event) : Prop where
  nodup : ∀ v, (senders env d v es).Nodup
  member : ∀ v, ∀ r ∈ senders env d v es, env.config.InGroup r env.groupIdx ∧ r ≠ env.id

/-- Who has asked for a view: those who sent a message, and the replica itself once it has
broadcast its own. -/
def asked (v : UInt64) (es : List Event) (s : State) : Finset ProcessId :=
  (senders env d v es ++ if .moveView d v ∈ s.log then [env.id] else []).toFinset

end

/-! ## One call -/

namespace State

variable {s s' s'' : State} {d d' : Digest} {v : UInt64} {self : Bool} {env : Env}
  {k k' : UInt64 → Nat}

def ownVotes (s : State) (d : Digest) (v : UInt64) : Nat :=
  if (s.moveViewCounts d v).2 then 0 else 1

/-- There are `k v` more votes of others to move to view `v`, and every own vote was broadcast. -/
structure Counts (env : Env) (d : Digest) (k : UInt64 → Nat) (s s' : State) : Prop where
  votes : ∀ v, (s'.moveViewCounts d v).1 + s.ownVotes d v =
    (s.moveViewCounts d v).1 + s'.ownVotes d v + k v
  broadcasts : ∀ v, s'.log.count (.moveView d v) + s.ownVotes d v =
    s.log.count (.moveView d v) + s'.ownVotes d v
  more : ∀ v, (s.moveViewCounts d v).1 ≤ (s'.moveViewCounts d v).1
  raised : ∀ v, .raise d v ∈ s'.log →
    .raise d v ∈ s.log ∨ 2 * env.config.f + 1 ≤ (s'.moveViewCounts d v).1

/-- Nothing happens to the votes to move. -/
theorem Counts.same (hcounts : s'.moveViewCounts d = s.moveViewCounts d) (l : List Entry)
    (hlog : s'.log = s.log ++ l)
    (hl : ∀ v, .moveView d v ∉ l ∧ .raise d v ∉ l) : Counts env d 0 s s' where
  votes v := by simp [ownVotes, hcounts]
  broadcasts v := by simp [ownVotes, hcounts, hlog, count_eq_zero_of_not_mem (hl v).1]
  more v := by rw [hcounts]
  raised v hv := by
    rw [hlog, mem_append] at hv
    exact .inl (hv.resolve_right (hl v).2)

theorem Counts.refl (s : State) : Counts env d 0 s s :=
  .same rfl [] (append_nil _).symm (by simp)

theorem Counts.trans (h : Counts env d k s s') (h' : Counts env d k' s' s'') :
    Counts env d (k + k') s s'' where
  votes v := by
    have := h.votes v
    have := h'.votes v
    simp only [Pi.add_apply]
    omega
  broadcasts v := by
    have := h.broadcasts v
    have := h'.broadcasts v
    omega
  more v := (h.more v).trans (h'.more v)
  raised v hv := (h'.raised v hv).elim (fun hs => (h.raised v hs).imp_right (·.trans (h'.more v)))
    .inr

theorem Counts.adoptDecision (s : State) (d' : Digest) (v : UInt64) (c : CommitDecision) :
    Counts env d 0 s (s.adoptDecision d' v c) := by
  unfold State.adoptDecision
  split
  · exact .refl s
  · exact .same rfl [_, _] (append_assoc ..) (by simp)

theorem Counts.processElectFB (s : State) (d' : Digest) (v : UInt64) (c : CommitDecision)
    (sig : Signature) : Counts env d 0 s (s.processElectFB env d' v c sig) := by
  unfold State.processElectFB
  dsimp only
  split_ifs
  · exact .refl s
  · exact .refl s
  · let q := s.electQuorums d' v c
    let t := (s.setElectQuorum d' v c { q with sigs := q.sigs ++ [sig] }).completeView d' v
    have hsent : Counts env d 0 s (t.record (.decisionFB d' v c (q.sigs ++ [sig]))) :=
      .same rfl [_] rfl (by simp)
    exact hsent.trans (.adoptDecision _ d' v c)
  · exact .same rfl [] (append_nil _).symm (by simp)

theorem counts_castMoveView (h : (s.moveViewCounts d' v).2 = true) :
    Counts env d 0 s (s.castMoveView d' v).1 := by
  refine ⟨fun v' => ?_, fun v' => ?_, fun v' => ?_, fun v' hv' => ?_⟩ <;>
    simp only [castMoveView, setMoveViewCount, openOrganizer, record, ownVotes, Pi.zero_apply,
      count_append, count_singleton] at * <;> grind

def oneVote (d : Digest) (v : UInt64) (d' : Digest) (v' : UInt64) : Nat :=
  if d = d' ∧ v = v' then 1 else 0

theorem counts_countMoveView (s : State) (d' : Digest) (v : UInt64) (self : Bool) :
    Counts env d (if self then 0 else oneVote d' v d) s (s.countMoveView d' v self).1 := by
  unfold countMoveView
  cases self
  · refine ⟨fun v' => ?_, fun v' => ?_, fun v' => ?_, fun v' => .inl⟩ <;>
      simp only [setMoveViewCount, openOrganizer, ownVotes] <;> grind [oneVote]
  · by_cases h : (s.moveViewCounts d' v).2 = true
    · simpa [h] using counts_castMoveView h
    · simpa [h] using Counts.refl s

theorem counts_raise (h : 2 * env.config.f + 1 ≤ (s.moveViewCounts d' v).1) :
    Counts env d 0 s ((s.moveTo d' v).record (.raise d' v)) where
  votes _ := rfl
  broadcasts v' := by
    have hnone : [Entry.raise d' v].count (.moveView d v') = 0 := by simp
    simp only [record, count_append, hnone]
    rfl
  more _ := le_rfl
  raised v' hv' := by
    simp only [record, mem_append, mem_singleton, Entry.raise.injEq] at hv'
    obtain hv' | ⟨rfl, rfl⟩ := hv'
    · exact .inl hv'
    · exact .inr h

theorem counts_processMoveView (s : State) (d' : Digest) (v : UInt64) (self : Bool) :
    Counts env d (if self then 0 else oneVote d' v d) s (s.processMoveView env d' v self) := by
  have hc : Counts env d _ s _ := counts_countMoveView s d' v self
  have hr : (s.countMoveView d' v self).2 ≠ 0 →
      ((s.countMoveView d' v self).1.moveViewCounts d' v).1 = (s.countMoveView d' v self).2 := by
    simp only [countMoveView, castMoveView, setMoveViewCount, record]
    split_ifs <;> simp
  unfold processMoveView
  generalize s.countMoveView d' v self = r at hc hr
  generalize (if self = true then 0 else oneVote d' v d) = k at hc ⊢
  dsimp only
  split_ifs with _ hf hq hq
  · exact hc
  · refine (hc.trans (counts_castMoveView hf.2)).trans (counts_raise ?_)
    simpa [castMoveView, setMoveViewCount, record] using hq.ge
  · exact hc.trans (counts_castMoveView hf.2)
  · exact hc.trans (counts_raise (by omega))
  · exact hc

theorem processMoveView_raise (env : Env) (s : State) (d : Digest) (v : UInt64) (self : Bool) :
    let s' := s.processMoveView env d v self
    s'.p2MetaDatas = s.p2MetaDatas ∨
      ∃ t : State, t.p2MetaDatas = s.p2MetaDatas ∧ s' = (t.moveTo d v).record (.raise d v) := by
  obtain ⟨orgs, counts, log, heq⟩ := s.countMoveView_eq d v self
  unfold processMoveView
  generalize s.countMoveView d v self = r at heq ⊢
  obtain ⟨t, n⟩ := r
  obtain rfl : t = _ := heq
  dsimp only
  split_ifs
  · exact .inl rfl
  · exact .inr ⟨_, by rfl, rfl⟩
  · exact .inl rfl
  · exact .inr ⟨_, by rfl, rfl⟩
  · exact .inl rfl

end State

/-! ## Every run -/

section

variable {env : Env} {d : Digest} {es : List Event} {s s' s₀ : State} {e : Event}

/-- Without a message no other replica asks for a view. -/
theorem Does.counts (h : Does env s₀ e s s') (he : ∀ msg, e ≠ .moveView msg) :
    State.Counts env d 0 s s' := by
  have hkept (t : State) (hcounts : t.moveViewCounts = s.moveViewCounts) (hlog : t.log = s.log) :
      State.Counts env d 0 s t :=
    .same (congrFun hcounts d) [] (by rw [hlog, append_nil]) (by simp)
  cases h with
  | sendView | reply | misreply | echo | electAll | store | elect =>
    exact .same rfl [_] rfl (by simp)
  | replyFinished => exact .same rfl [_, _] (append_assoc ..) (by simp)
  | original | reset | moveTo | push | panic | clearInterested => exact hkept _ rfl rfl
  | adoptDecision d' v c => exact .adoptDecision s d' v c
  | moveView d' v self h =>
    cases self with
    | true => exact State.counts_processMoveView s d' v true
    | false =>
      obtain ⟨msg, rfl, -⟩ := h rfl
      exact absurd rfl (he msg)
  | preProcessElectFB d' v c voter t h =>
    rw [(s.preProcessElectFB_some d' h).2]
    exact hkept _ rfl rfl
  | processElectFB d' v c sig => exact .processElectFB s d' v c sig

theorem step_counts (env : Env) (s : State) (hclean : e ≠ .outside (.clean d)) :
    ∃ k, State.Counts env d k s (step env s e) ∧ ∀ v, k v ≤ (senders env d v [e]).length := by
  by_cases he : ∃ msg, e = .moveView msg
  · obtain ⟨msg, rfl⟩ := he
    unfold step
    dsimp only
    unfold State.handleMoveView
    split_ifs with hcrash hvalid hfin
    · exact ⟨0, .refl s, fun _ => Nat.zero_le _⟩
    · exact ⟨0, .refl s, fun _ => Nat.zero_le _⟩
    · exact ⟨0, .same rfl [] (append_nil _).symm (by simp), fun _ => Nat.zero_le _⟩
    · refine ⟨_, State.counts_processMoveView s msg.txnDigest msg.view false, fun v => ?_⟩
      simp only [Bool.not_eq_true', Bool.not_eq_false] at hvalid
      simp only [Bool.false_eq_true, if_false, State.oneVote, senders, filterMap_cons,
        filterMap_nil, hvalid, true_and]
      split_ifs <;> simp
  · push Not at he
    refine ⟨0, ?_, fun _ => Nat.zero_le _⟩
    obtain ⟨o, rfl, -, heq⟩ | ⟨s', hs', hacts⟩ := step_acts env s e
    · rw [heq]
      refine .same ?_ [] (by cases o <;> exact (append_nil _).symm) (by simp)
      cases o with
      | clean d' =>
        have hd : d ≠ d' := fun hd => hclean (hd ▸ rfl)
        simp [State.outside, State.clean, Function.update_of_ne hd]
      | _ => rfl
    · have hcounts : State.Counts env d 0 s' (step env s e) := by
        generalize step env s e = t at hacts ⊢
        induction hacts with
        | refl => exact .refl _
        | tail _ hdoes ih => exact ih.trans (hdoes.counts he)
      obtain rfl | ⟨k, schedule, stale, t, rfl, hk, rfl⟩ := hs'
      · exact hcounts
      · have herase : State.Counts env d 0 s { s with tasks := s.tasks.eraseIdx k } :=
          .same rfl [] (append_nil _).symm (by simp)
        exact herase.trans hcounts

structure MoveViewInv (env : Env) (d : Digest) (es : List Event) (s : State) : Prop where
  broadcasts : ∀ v, s.log.count (.moveView d v) = s.ownVotes d v
  votes : ∀ v, (s.moveViewCounts d v).1 ≤ (senders env d v es).length + s.ownVotes d v
  raised : ∀ v, .raise d v ∈ s.log → 2 * env.config.f + 1 ≤ (s.moveViewCounts d v).1

theorem MoveViewInv.step (h : MoveViewInv env d es s) (hclean : e ≠ .outside (.clean d)) :
    MoveViewInv env d (es ++ [e]) (step env s e) := by
  obtain ⟨k, hc, hk⟩ := step_counts env s hclean
  refine ⟨fun v => ?_, fun v => ?_, fun v hv => ?_⟩
  · have := hc.broadcasts v
    have := h.broadcasts v
    omega
  · have := hc.votes v
    have := h.votes v
    have := hk v
    have happ : senders env d v (es ++ [e]) = senders env d v es ++ senders env d v [e] :=
      filterMap_append
    rw [happ, length_append]
    omega
  · exact (hc.raised v hv).elim (fun hs => (h.raised v hs).trans (hc.more v)) id

theorem MoveViewInv.run (hlog : s.log = []) (hcounts : s.moveViewCounts = fun _ _ => (0, true))
    (hclean : .outside (.clean d) ∉ es) : MoveViewInv env d es ((fallbackMachine env).run s es) :=
  Machine.run_history (M := fallbackMachine env) (P := fun _ e => e ≠ .outside (.clean d))
    (I := MoveViewInv env d) (by constructor <;> simp [hlog, State.ownVotes, hcounts])
    (fun _ _ h he => h.step he) (Machine.along_of_forall fun e he heq => hclean (heq ▸ he))

theorem MoveViewInv.card_asked (h : MoveViewInv env d es s) (hes : AskOnce env d es) (v : UInt64) :
    (s.moveViewCounts d v).1 ≤ (asked env d v es s).card := by
  have hnodup : (senders env d v es ++
      if .moveView d v ∈ s.log then [env.id] else []).Nodup := by
    have hid : env.id ∉ senders env d v es := fun hm => (hes.member v _ hm).2 rfl
    have := hes.nodup v
    split_ifs <;> grind
  rw [asked, toFinset_card_of_nodup hnodup, length_append]
  have hv := h.votes v
  have hb := h.broadcasts v
  by_cases hm : Entry.moveView d v ∈ s.log
  · simp only [hm, if_true, length_singleton]
    have : s.ownVotes d v ≤ 1 := by unfold State.ownVotes; split_ifs <;> omega
    omega
  · rw [count_eq_zero_of_not_mem hm] at hb
    simp only [hm, if_false, length_nil]
    omega

/-- A view that a message changes is raised. -/
theorem raise_of_message (env : Env) (s : State) (d : Digest) (msg : MoveViewMsg)
    (h : ((step env s (.moveView msg)).p2MetaDatas d).currentView ≠
      (s.p2MetaDatas d).currentView) :
    .raise d ((step env s (.moveView msg)).p2MetaDatas d).currentView ∈
      (step env s (.moveView msg)).log := by
  unfold step at h ⊢
  dsimp only at h ⊢
  unfold State.handleMoveView at h ⊢
  split_ifs at h ⊢
  · exact absurd rfl h
  · exact absurd rfl h
  · exact absurd rfl h
  · obtain hsame | ⟨t, ht, heq⟩ := s.processMoveView_raise env msg.txnDigest msg.view false
    · exact absurd (by rw [hsame]) h
    · rw [heq] at h ⊢
      by_cases hd : d = msg.txnDigest
      · subst hd
        simp [State.moveTo, State.record]
      · simp [State.moveTo, State.setP2, State.record, hd, ht] at h

end

/-- For a transaction that is not cleaned the own vote for a view is broadcast at most once. If
nobody asks twice for a view, then `ProcessMoveView` raises the view only when `2f + 1` replicas of
the group have asked for it. -/
theorem moveView_quorum (env : Env) (s : State) (hlog : s.log = [])
    (hcounts : s.moveViewCounts = fun _ _ => (0, true)) (es : List Event) (d : Digest)
    (hclean : .outside (.clean d) ∉ es) :
    let s' := (fallbackMachine env).run s es
    (∀ v, s'.log.count (.moveView d v) ≤ 1) ∧
      (AskOnce env d es → ∀ v, .raise d v ∈ s'.log →
        2 * env.config.f + 1 ≤ (asked env d v es s').card ∧
          ∀ r ∈ asked env d v es s', r = env.id ∨ env.config.InGroup r env.groupIdx) ∧
      ∀ msg, let t := step env s' (.moveView msg)
        (t.p2MetaDatas d).currentView ≠ (s'.p2MetaDatas d).currentView →
          .raise d (t.p2MetaDatas d).currentView ∈ t.log := by
  intro s'
  have hinv : MoveViewInv env d es s' := .run hlog hcounts hclean
  refine ⟨fun v => ?_, fun hes v hv => ⟨?_, fun r hr => ?_⟩,
    fun msg => raise_of_message env s' d msg⟩
  · rw [hinv.broadcasts v]
    unfold State.ownVotes
    split_ifs <;> omega
  · exact (hinv.raised v hv).trans (hinv.card_asked hes v)
  · simp only [asked, List.mem_toFinset, List.mem_append] at hr
    obtain hr | hr := hr
    · exact .inr (hes.member v r hr).1
    · split_ifs at hr <;> simp_all

/-- A request of replica `r` to move to view 1. -/
def askOf (r : ProcessId) : Event := .moveView { processId := r, txnDigest := [7], view := 1 }

/-- A group with `f = 2`. -/
def eleven : Env :=
  { Env.sample with config := { groups := 1, n := 11, f := 2, hosts := fun _ i => [.ofNat i] } }

/-- With `f = 1` replica 1 sends the same message twice. With `f = 2` three replicas have the own
vote cast; if the transaction is then cleaned, they do so again. -/
theorem moveView_twice :
    let s := (fallbackMachine .sample).run {} [askOf 1, askOf 1]
    let s' := (fallbackMachine eleven).run {}
      [askOf 1, askOf 2, askOf 3, .outside (.clean [7]), askOf 4, askOf 5, askOf 6]
    (s.p2MetaDatas [7]).currentView = 1 ∧ .raise [7] 1 ∈ s.log ∧
      asked .sample [7] 1 [askOf 1, askOf 1] s = {0, 1} ∧
      s'.log.count (.moveView [7] 1) = 2 := by
  decide +kernel

theorem moveView_quorum_two :
    let s := (fallbackMachine .sample).run {} [askOf 1, askOf 2]
    (s.p2MetaDatas [7]).currentView = 1 ∧ 3 ≤ (asked .sample [7] 1 [askOf 1, askOf 2] s).card := by
  have hsenders : ∀ v, senders .sample [7] v [askOf 1, askOf 2] = if 1 = v then [1, 2] else [] := by
    intro v
    by_cases h : 1 = v <;> simp [senders, askOf, State.validMoveView, Env.sample, h]
  have hes : AskOnce .sample [7] [askOf 1, askOf 2] := by
    constructor <;> intro v <;> rw [hsenders] <;> split_ifs <;> simp
    exact ⟨by decide, by decide⟩
  have hq := moveView_quorum .sample {} rfl rfl [askOf 1, askOf 2] [7] (by simp [askOf])
  exact ⟨by decide +kernel, (hq.2.1 hes 1 (by decide +kernel)).1⟩

end Sintr.Fallback
