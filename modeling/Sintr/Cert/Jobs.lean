import Sintr.Cert.Soundness

/-!
# Phase1 votes verified by workers

`asyncValidateP1Replies` hands each signature that needs verification to a worker. The workers share
an object in which their callbacks count; the last one to report frees it.

* `p1_answered_iff`: the callback is called once, with the verdict of `ValidateP1Replies`, and the
  object is freed once, by the last report, exactly on the inputs `CountsDown`. All other inputs,
  those that `ValidateP1Replies` rejects among them, stop the process in some order of reports or
  leave the callback uncalled.
-/

namespace Sintr

open Quorum List

section
variable (env : Env) (decision : CommitDecision) (fast : Bool) (txn : Transaction) (d : Digest)
  (gs : GroupedSignatures) (me : Option (ProcessId × CCResult))

/-! ## The run -/

/-- The votes that are looked at: for ABORT those of the first group. -/
def lookedAt : List (Ballot GroupId ProcessId) :=
  p1Ballots env decision d me (match decision with | .commit => gs | .abort => gs.take 1)

def groupTotals : Nat :=
  match decision with
  | .commit => txn.involvedGroups.length
  | .abort => 1

def p1Count : Count GroupId where
  quorumSize := p1QuorumSize env decision fast
  groupTotals := groupTotals decision txn

def p1Jobs : List (GroupId × Bool) :=
  match collect .panic (lookedAt env decision d gs me) [] (p1Count env decision fast txn) [] with
  | .inl _ => []
  | .inr (_, js) => js.map (Prod.map GroupId.toInt id)

def p1Run (reports : List (GroupId × Bool)) : Shared GroupId :=
  let count := p1Count env decision fast txn
  match collect .panic (lookedAt env decision d gs me) [] count [] with
  | .inl .accept => { toCount := count, deletable := 0, calls := [true], freed := 1 }
  | .inl _ => { toCount := count, deletable := 0, crashed := true }
  | .inr (c, js) => reports.foldl Shared.report { toCount := c, deletable := js.length }

/-- One callback, with the verdict of `ValidateP1Replies`, and the object is freed once, after the
last report. -/
structure AnsweredOnce (reports : List (GroupId × Bool)) : Prop where
  calls : (p1Run env decision fast txn d gs me reports).calls =
    [validateP1Replies env decision fast txn d gs me]
  freed : (p1Run env decision fast txn d gs me reports).freed = 1
  running : (p1Run env decision fast txn d gs me reports).crashed = false
  notBefore : ∀ p, p <+: reports → p ≠ reports →
    (p1Run env decision fast txn d gs me p).freed = 0

def OwnEnough : Prop :=
  1 ≤ groupTotals decision txn ∧ groupTotals decision txn ≤
    (full (p1QuorumSize env decision fast) (trustedGroups (lookedAt env decision d gs me))).card

/-- Each name that a vote to verify is counted under gets exactly a quorum, and enough names get
one. -/
def LastCompletes : Prop :=
  let votes := lookedAt env decision d gs me
  let names := votes.map (·.key GroupId.toInt)
  (∀ b ∈ votes, b.trusted = false →
    names.count b.group.toInt = p1QuorumSize env decision fast) ∧
  (full (p1QuorumSize env decision fast) names).card = groupTotals decision txn

/-- `ValidateP1Replies` accepts, and the replica's own votes are enough or the last of the votes to
verify completes the check. -/
def CountsDown : Prop :=
  ((∀ e ∈ gs, GroupPasses env decision fast d me e) ∧ GroupsPresent decision txn gs) ∧
    (OwnEnough env decision fast txn d gs me ∨
      (∃ b ∈ lookedAt env decision d gs me, b.trusted = false) ∧
        LastCompletes env decision fast txn d gs me)

end

variable {env : Env} {decision : CommitDecision} {fast : Bool} {txn : Transaction} {d : Digest}
  {gs : GroupedSignatures} {me : Option (ProcessId × CCResult)}

theorem open_start (c : Count GroupId) (k : Nat) :
    ({ toCount := c, deletable := k } : Shared GroupId).Open k :=
  ⟨rfl, rfl, rfl, rfl, rfl⟩

/-! ## Votes that pass -/

theorem p1Ballots_passed {gs : GroupedSignatures} (hkeys : (gs.map (·.1)).Nodup)
    (h : ∀ e ∈ gs, GroupPasses env decision fast d me e) :
    Passed (p1Ballots env decision d me gs) ∧
      ∀ b ∈ p1Ballots env decision d me gs, b.ok = true := by
  unfold p1Ballots
  induction gs with
  | nil => exact ⟨⟨nodup_nil, nofun⟩, nofun⟩
  | cons e gs ih =>
    rw [map_cons, nodup_cons] at hkeys
    obtain ⟨⟨hnd, hadm⟩, hok⟩ := ih hkeys.2 fun e' he' => h e' (mem_cons_of_mem _ he')
    obtain ⟨-, hvoters, hall⟩ := h e mem_cons_self
    have hpairs : ((e.2.map (p1Ballot env decision d me e.1)).map fun b => (b.group, b.voter)) =
        (e.2.map (·.processId)).map (e.1, ·) := by
      rw [map_map, map_map]
      rfl
    rw [flatMap_cons]
    refine ⟨⟨?_, ?_⟩, ?_⟩
    · rw [map_append, nodup_append, hpairs]
      refine ⟨hvoters.map (Prod.mk_right_injective e.1), hnd, ?_⟩
      intro x hx y hy hxy
      subst hxy
      -- a vote of another entry is of another group
      obtain ⟨i, -, rfl⟩ := mem_map.1 hx
      obtain ⟨b, hb, heq⟩ := mem_map.1 hy
      obtain ⟨e', he', hb⟩ := mem_flatMap.1 hb
      obtain ⟨s, -, rfl⟩ := mem_map.1 hb
      exact hkeys.1 (mem_map.2 ⟨e', he', (Prod.mk.inj heq).1⟩)
    · simp only [mem_append, or_imp, forall_and, forall_mem_map]
      exact ⟨fun s hs => (hall s hs).1, hadm⟩
    · simp only [mem_append, or_imp, forall_and, forall_mem_map]
      exact ⟨fun s hs => (hall s hs).2, hok⟩

theorem lookedAt_passed (hkeys : (gs.map (·.1)).Nodup)
    (h : ∀ e ∈ gs, GroupPasses env decision fast d me e) :
    Passed (lookedAt env decision d gs me) ∧ ∀ b ∈ lookedAt env decision d gs me, b.ok = true := by
  unfold lookedAt
  cases decision with
  | commit => exact p1Ballots_passed hkeys h
  | abort =>
    have hsub : ∀ e ∈ gs.take 1, GroupPasses env .abort fast d me e :=
      fun e he => h e (mem_of_mem_take he)
    exact p1Ballots_passed (hkeys.sublist ((take_sublist 1 gs).map _)) hsub

theorem lookedAt_eq_nil (h : ∀ e ∈ gs, GroupPasses env decision fast d me e)
    (hq : p1QuorumSize env decision fast = 0) : lookedAt env decision d gs me = [] := by
  have hnil : ∀ gs' : GroupedSignatures, (∀ e ∈ gs', e ∈ gs) →
      p1Ballots env decision d me gs' = [] := by
    intro gs' hsub
    refine flatMap_eq_nil_iff.2 fun e he => ?_
    have hlen := (h e (hsub e he)).1
    rw [hq] at hlen
    rw [eq_nil_of_length_eq_zero hlen, map_nil]
  unfold lookedAt
  cases decision with
  | commit => exact hnil gs fun _ he => he
  | abort => exact hnil _ fun _ he => mem_of_mem_take he

theorem false_notMem_calls (reports : List (GroupId × Bool)) :
    false ∉ (p1Run env decision fast txn d gs me reports).calls := by
  unfold p1Run
  dsimp only
  cases collect .panic (lookedAt env decision d gs me) [] (p1Count env decision fast txn) [] with
  | inl v => cases v <;> simp
  | inr r => exact Shared.foldl_calls (by simp) reports

/-! ## Answered once -/

theorem answeredOnce_of_accept
    (hc : collect .panic (lookedAt env decision d gs me) [] (p1Count env decision fast txn) [] =
      .inl .accept) (hsync : validateP1Replies env decision fast txn d gs me = true) :
    ∀ reports, reports.Perm (p1Jobs env decision fast txn d gs me) →
      AnsweredOnce env decision fast txn d gs me reports := by
  intro reports hp
  rw [p1Jobs, hc] at hp
  obtain rfl := perm_nil.1 hp
  have hrun (p : List (GroupId × Bool)) : p1Run env decision fast txn d gs me p =
      { toCount := p1Count env decision fast txn
        deletable := 0, calls := [true], freed := 1 } := by
    rw [p1Run, hc]
  refine ⟨?_, ?_, ?_, ?_⟩
  · rw [hrun, hsync]
  · rw [hrun]
  · rw [hrun]
  · exact fun p hp hne => absurd (prefix_nil.1 hp) hne

theorem answeredOnce_iff_fires {c : Count GroupId} {js : List (GroupId × Bool)}
    (hc : collect .panic (lookedAt env decision d gs me) [] (p1Count env decision fast txn) [] =
      .inr (c, js)) (hsync : validateP1Replies env decision fast txn d gs me = true)
    {reports : List (GroupId × Bool)} (hlen : reports.length = js.length) :
    AnsweredOnce env decision fast txn d gs me reports ↔ c.fires reports = true := by
  have hrun (p : List (GroupId × Bool)) : p1Run env decision fast txn d gs me p =
      p.foldl Shared.report { toCount := c, deletable := js.length } := by
    rw [p1Run, hc]
  have hopen : ({ toCount := c, deletable := js.length } : Shared GroupId).Open reports.length :=
    hlen ▸ open_start c _
  constructor
  · intro h
    cases hfires : c.fires reports with
    | true => rfl
    | false =>
      by_cases hnil : reports = []
      · have hcalls := h.calls
        rw [hrun, hnil] at hcalls
        cases hcalls
      · have hrunning := h.running
        rw [hrun, Shared.run_crashes hnil hopen hfires] at hrunning
        cases hrunning
  · intro hfires
    obtain ⟨hcalls, hfreed, hrunning, hbefore⟩ := Shared.run_of_fires hopen hfires
    refine ⟨?_, ?_, ?_, ?_⟩
    · rw [hrun, hsync, hcalls]
    · rw [hrun, hfreed]
    · rw [hrun, hrunning]
    · intro p hp hne
      rw [hrun]
      exact hbefore p hp hne

theorem quiet_lookedAt (h : ∀ e ∈ gs, GroupPasses env decision fast d me e) :
    (p1Count env decision fast txn).quiet (trustedGroups (lookedAt env decision d gs me)) = true ↔
      ¬ OwnEnough env decision fast txn d gs me := by
  unfold OwnEnough
  rcases Nat.eq_zero_or_pos (p1QuorumSize env decision fast) with hq | hq
  · rw [lookedAt_eq_nil h hq]
    simp only [trustedGroups, filter_nil, map_nil, Count.quiet, full,
      toFinset_nil, Finset.filter_empty, Finset.card_empty, true_iff]
    omega
  · have hstart := Count.Exactly.start (γ := GroupId) hq (groupTotals decision txn)
    rw [p1Count, Count.quiet_iff hstart _ fun hpos => hpos, nil_append]
    simp only [not_and, not_le]

theorem fires_lookedAt_iff (h : ∀ e ∈ gs, GroupPasses env decision fast d me e)
    (hok : ∀ b ∈ lookedAt env decision d gs me, b.ok = true)
    (hjobs : jobs (lookedAt env decision d gs me) ≠ []) :
    (∀ reports : List (GroupId × Bool),
      reports.Perm ((jobs (lookedAt env decision d gs me)).map (Prod.map GroupId.toInt id)) →
      ((p1Count env decision fast txn).addAll
        (trustedGroups (lookedAt env decision d gs me))).fires reports = true) ↔
      LastCompletes env decision fast txn d gs me := by
  have hq : 0 < p1QuorumSize env decision fast := by
    refine Nat.pos_of_ne_zero fun hq => hjobs ?_
    rw [lookedAt_eq_nil h hq]
    rfl
  rw [p1Count, fires_jobs_iff hq hjobs]
  exact and_iff_right hok

theorem answeredOnce_iff_of_pass (hkeys : (gs.map (·.1)).Nodup)
    (h : ∀ e ∈ gs, GroupPasses env decision fast d me e)
    (hsync : validateP1Replies env decision fast txn d gs me = true) :
    (∀ reports, reports.Perm (p1Jobs env decision fast txn d gs me) →
      AnsweredOnce env decision fast txn d gs me reports) ↔
      OwnEnough env decision fast txn d gs me ∨
      (∃ b ∈ lookedAt env decision d gs me, b.trusted = false) ∧
        LastCompletes env decision fast txn d gs me := by
  obtain ⟨hpassed, hok⟩ := lookedAt_passed hkeys h
  have hc := collect_of_passed .panic hpassed (p1Count env decision fast txn)
  split at hc
  · rename_i hquiet
    rw [or_iff_right ((quiet_lookedAt h).1 hquiet)]
    have hreports : p1Jobs env decision fast txn d gs me =
        (jobs (lookedAt env decision d gs me)).map (Prod.map GroupId.toInt id) := by
      rw [p1Jobs, hc]
    have hlen {reports : List (GroupId × Bool)}
        (hp : reports.Perm (p1Jobs env decision fast txn d gs me)) :
        reports.length = (jobs (lookedAt env decision d gs me)).length := by
      rw [hp.length_eq, hreports, length_map]
    by_cases hjobs : jobs (lookedAt env decision d gs me) = []
    · -- nobody is left to call back
      refine iff_of_false (fun hans => ?_) ?_
      · have hnil : ([] : List (GroupId × Bool)).Perm (p1Jobs env decision fast txn d gs me) := by
          rw [hreports, hjobs, map_nil]
        have hfires := (answeredOnce_iff_fires hc hsync (hlen hnil)).1 (hans [] hnil)
        cases hfires
      · rintro ⟨⟨b, hb, ht⟩, -⟩
        exact not_mem_nil (hjobs ▸ mem_jobs.2 ⟨b, hb, ht, rfl⟩)
    · obtain ⟨j, hj⟩ := exists_mem_of_ne_nil _ hjobs
      obtain ⟨b, hb, ht, -⟩ := mem_jobs.1 hj
      have hsome : ∃ b ∈ lookedAt env decision d gs me, b.trusted = false := ⟨b, hb, ht⟩
      rw [and_iff_right hsome, ← fires_lookedAt_iff h hok hjobs, ← hreports]
      exact forall₂_congr fun reports hp => answeredOnce_iff_fires hc hsync (hlen hp)
  · rename_i hloud
    have henough : OwnEnough env decision fast txn d gs me :=
      not_not.1 fun hnot => hloud ((quiet_lookedAt h).2 hnot)
    exact iff_of_true (answeredOnce_of_accept hc hsync) (.inl henough)

theorem p1_answered_iff (env : Env) (decision : CommitDecision) (fast : Bool) (txn : Transaction)
    (d : Digest) (gs : GroupedSignatures) (me : Option (ProcessId × CCResult))
    (hkeys : (gs.map (·.1)).Nodup) :
    (∀ reports, reports.Perm (p1Jobs env decision fast txn d gs me) →
      AnsweredOnce env decision fast txn d gs me reports) ↔
      CountsDown env decision fast txn d gs me := by
  by_cases hpass : (∀ e ∈ gs, GroupPasses env decision fast d me e) ∧ GroupsPresent decision txn gs
  · rw [answeredOnce_iff_of_pass hkeys hpass.1 (validateP1Replies_iff.2 hpass)]
    exact (and_iff_right hpass).symm
  · refine iff_of_false (fun h => ?_) fun h => hpass h.1
    -- a verdict of no is never delivered
    have hcalls := (h _ (.refl _)).calls
    have hsync : validateP1Replies env decision fast txn d gs me = false := by
      rw [← Bool.not_eq_true, validateP1Replies_iff]
      exact hpass
    rw [hsync] at hcalls
    exact false_notMem_calls _ (hcalls ▸ List.mem_cons_self)

def onePerGroup : Env :=
  { Env.sample with
    config := { groups := 2, n := 1, f := 0, hosts := fun g _ => [UInt8.ofNat g] } }

/-- An invalid signature stops the process, and so does the vote of a group that is not involved.
ABORT without votes is never answered. -/
theorem p1_unanswered :
    let txn : Transaction := { clientId := 1, clientSeqNum := 1, involvedGroups := [0] }
    let gs : GroupedSignatures := [(0, [⟨0, [0]⟩]), (1, [⟨1, [1]⟩])]
    (validateP1Replies onePerGroup .commit true txn [] [(0, [⟨0, [9]⟩])] none = false ∧
      p1Jobs onePerGroup .commit true txn [] [(0, [⟨0, [9]⟩])] none = [(0, false)] ∧
      (p1Run onePerGroup .commit true txn [] [(0, [⟨0, [9]⟩])] none [(0, false)]).calls = [] ∧
      (p1Run onePerGroup .commit true txn [] [(0, [⟨0, [9]⟩])] none [(0, false)]).crashed =
        true) ∧
    (validateP1Replies onePerGroup .commit true txn [] gs none = true ∧
      p1Jobs onePerGroup .commit true txn [] gs none = [(0, true), (1, true)] ∧
      (p1Run onePerGroup .commit true txn [] gs none [(0, true), (1, true)]).calls = [true] ∧
      (p1Run onePerGroup .commit true txn [] gs none [(0, true), (1, true)]).crashed = true) ∧
    (validateP1Replies onePerGroup .abort true txn [] [] none = true ∧
      p1Jobs onePerGroup .abort true txn [] [] none = [] ∧
      (p1Run onePerGroup .abort true txn [] [] none []).calls = [] ∧
      (p1Run onePerGroup .abort true txn [] [] none []).freed = 0) := by
  decide +kernel

theorem p1_answered_iff_bothGroups :
    let txn : Transaction := { clientId := 1, clientSeqNum := 1, involvedGroups := [0, 1] }
    let gs : GroupedSignatures := [(0, [⟨0, [0]⟩]), (1, [⟨1, [1]⟩])]
    validateP1Replies onePerGroup .commit true txn [] gs none = true ∧
    ∀ reports, reports.Perm (p1Jobs onePerGroup .commit true txn [] gs none) →
      AnsweredOnce onePerGroup .commit true txn [] gs none reports := by
  intro txn gs
  have haccept : validateP1Replies onePerGroup .commit true txn [] gs none = true := by
    decide +kernel
  refine ⟨haccept, (p1_answered_iff _ _ _ _ _ _ _ (by decide)).2 ?_⟩
  refine ⟨validateP1Replies_iff.1 haccept, .inr ?_⟩
  unfold LastCompletes
  decide +kernel

end Sintr
