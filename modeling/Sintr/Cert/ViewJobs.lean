import Sintr.Cert.Jobs

/-!
# Signed views verified by workers

`VerifyFBViews` stops at the quorum. `asyncVerifyFBViews` looks at all views of the message, and
hands those that need verification to workers, which report to `asyncValidateP2RepliesCallback`.

* `views_answered_iff`: the callback is called once, with the verdict of `VerifyFBViews`, and no
  assertion fails, exactly on the inputs `GroupAnswered`.
-/

namespace Sintr

open Quorum List

/-- The callback of a worker. An invalid signature stops the process at once. -/
def asyncValidateP2RepliesCallback (s : Shared GroupId) (j : GroupId × Bool) : Shared GroupId :=
  if s.crashed || s.terminate || j.2 then s.report j
  else { s with deletable := s.deletable - 1, crashed := true }

theorem foldl_asyncValidateP2RepliesCallback {s : Shared GroupId} {js : List (GroupId × Bool)}
    (hdel : s.deletable = js.length) :
    (js.foldl asyncValidateP2RepliesCallback s).calls = (js.foldl Shared.report s).calls ∧
      (js.foldl asyncValidateP2RepliesCallback s).crashed =
        (js.foldl Shared.report s).crashed := by
  have hstays (s : Shared GroupId) (h : s.crashed = true) (js : List (GroupId × Bool)) :
      js.foldl asyncValidateP2RepliesCallback s = s := by
    induction js with
    | nil => rfl
    | cons j js ih => simp [asyncValidateP2RepliesCallback, Shared.report, h, ih]
  induction js generalizing s with
  | nil => exact ⟨rfl, rfl⟩
  | cons j js ih =>
    cases hcrashed : s.crashed with
    | true =>
      rw [hstays s hcrashed, Shared.foldl_crashed hcrashed]
      exact ⟨rfl, rfl⟩
    | false =>
      rw [foldl_cons, foldl_cons]
      have hcount : (s.report j).deletable = js.length := by
        simp only [Shared.report, Shared.wait, hcrashed, hdel, length_cons,
          Nat.add_sub_cancel, Bool.false_eq_true, if_false]
        split_ifs <;> rfl
      by_cases hgo : (s.terminate || j.2) = true
      · rw [asyncValidateP2RepliesCallback, Bool.or_assoc, hgo, Bool.or_true, if_pos rfl]
        exact ih hcount
      · rw [asyncValidateP2RepliesCallback, Bool.or_assoc, hcrashed, Bool.false_or, if_neg hgo,
          hstays _ rfl]
        rw [Bool.not_eq_true, Bool.or_eq_false_iff] at hgo
        have hover : (s.report j).terminate = true ∧ (s.report j).calls = s.calls := by
          simp [Shared.report, hcrashed, hgo]
        refine ⟨by rw [Shared.foldl_calls_terminate hover.1, hover.2], ?_⟩
        cases js with
        | nil => simp [Shared.report, Shared.wait, hcrashed, hgo, hdel]
        | cons j' js => exact (Shared.foldl_terminate (by simp) hcount hover.1).symm

/-! ## The run -/

section
variable (q : Nat) (lg : GroupId) (votes : List (Ballot GroupId ProcessId))

def groupJobs : List (GroupId × Bool) :=
  match collect .reject votes [] { quorumSize := q, groupTotals := 1 } [] with
  | .inl _ => []
  | .inr (_, js) => js

/-- The pass over the views, and the callbacks for the reports in order. It asserts that no more is
to be verified than needed; the callback, that all votes have one name. -/
def groupRun (reports : List (GroupId × Bool)) : Shared GroupId :=
  let count : Count GroupId := { quorumSize := q, groupTotals := 1 }
  match collect .reject votes [] count [] with
  | .inl v => { toCount := count, deletable := 0, calls := [decide (v = .accept)], freed := 1 }
  | .inr (c, js) =>
    if js.length > q ∨ (votes.any (·.trusted) ∧ js ≠ [] ∧ lg.toInt ≠ lg) then
      { toCount := c, deletable := js.length, crashed := true }
    else reports.foldl asyncValidateP2RepliesCallback { toCount := c, deletable := js.length }

def Convincing : Prop :=
  ∃ l, l <+: votes ∧ l.length = q ∧ (l.map (·.voter)).Nodup ∧
    ∀ b ∈ l, b.admitted = true ∧ b.ok = true

/-- If trusted votes before any that is refused are a quorum, or a vote is refused, the pass that
stops at the quorum comes to the same result. Otherwise there is exactly a quorum of votes, all
believed, under one name. -/
def GroupAnswered : Prop :=
  let before := goneThrough votes []
  if q ≤ before.countP (·.trusted) then Convincing q votes
  else if before.length ≠ votes.length then ¬ Convincing q votes
  else votes.length = q ∧ (∀ b ∈ votes, b.ok = true) ∧
    ((∀ b ∈ votes, b.trusted = false) ∨ lg.toInt = lg)

end

section
variable (env : Env) (proposed : UInt64) (catchup : Bool) (lg : GroupId) (d : Digest)
  (vs : List SignedView) (myView : UInt64)

def viewBallots : List (Ballot GroupId ProcessId) :=
  vs.map (viewBallot env proposed catchup lg d myView)

def viewRun (reports : List (GroupId × Bool)) : Shared GroupId :=
  groupRun (viewQuorumSize env catchup) lg (viewBallots env proposed catchup lg d vs myView) reports

end

variable {q : Nat} {lg : GroupId} {votes : List (Ballot GroupId ProcessId)}

theorem reaches_iff (votes : List (Ballot GroupId ProcessId)) (hq : 0 < q) :
    reaches q votes [] 0 = true ↔ Convincing q votes := by
  constructor
  · intro h
    obtain ⟨l, hl, hlen, hnd, hall⟩ := reaches_cases h
    exact ⟨l, hl, by omega, hnd, fun b hb => (hall b hb).1⟩
  · rintro ⟨l, ⟨rest, rfl⟩, hlen, hnd, hall⟩
    exact reaches_of_all hq (by omega) hall (by simpa using hnd) rest

theorem collect_group (hq : 0 < q) (hg : ∀ b ∈ votes, b.group = lg) :
    collect .reject votes [] { quorumSize := q, groupTotals := 1 } [] =
      if q ≤ (goneThrough votes []).countP (·.trusted) then .inl .accept
      else if (goneThrough votes []).length ≠ votes.length then .inl .reject
      else .inr (Count.addAll { quorumSize := q, groupTotals := 1 } (trustedGroups votes),
        jobs votes) := by
  have hgone : ∀ b ∈ goneThrough votes [], b.group = lg :=
    fun b hb => hg b ((goneThrough_initial votes []).subset hb)
  rw [collect_eq, trustedGroups_eq hgone]
  simp only [quiet_replicate hq, nil_append]
  split_ifs <;> first | rfl | omega

/-! ## Answered once -/

theorem group_answered_iff (hq : 0 < q) (hg : ∀ b ∈ votes, b.group = lg) :
    (∀ reports, reports.Perm (groupJobs q votes) →
      (groupRun q lg votes reports).calls = [reaches q votes [] 0] ∧
      (groupRun q lg votes reports).crashed = false) ↔ GroupAnswered q lg votes := by
  have hsync := reaches_iff votes hq
  have hc := collect_group hq hg
  have hinit := goneThrough_initial votes []
  obtain ⟨hpass, -, -⟩ := goneThrough_spec votes []
  unfold GroupAnswered groupJobs groupRun
  dsimp only
  by_cases hown : q ≤ (goneThrough votes []).countP (·.trusted)
  · rw [if_pos hown] at hc ⊢
    simp [hc, ← hsync]
  rw [if_neg hown] at hc ⊢
  by_cases hrefused : (goneThrough votes []).length ≠ votes.length
  · rw [if_pos hrefused] at hc ⊢
    rw [← hsync]
    simp [hc]
  rw [if_neg hrefused] at hc ⊢
  rw [hinit.eq_of_length (not_not.1 hrefused)] at hpass hown
  rw [hc]
  dsimp only
  have hlen := jobs_length votes
  by_cases hjobs : jobs votes = []
  · -- nobody is left to call back
    rw [hjobs, length_nil] at hlen
    refine iff_of_false (fun h => ?_) (by omega)
    simpa [hjobs] using (h [] (by simp [hjobs])).1
  by_cases hstop : (jobs votes).length > q ∨
      (votes.any (·.trusted) = true ∧ jobs votes ≠ [] ∧ lg.toInt ≠ lg)
  · refine iff_of_false (fun h => ?_) ?_
    · have hcalls := (h _ (.refl _)).1
      rw [if_pos hstop] at hcalls
      cases hcalls
    · rintro ⟨hq, -, hnames⟩
      obtain hmany | ⟨htrusted, -, hne⟩ := hstop
      · omega
      · obtain ⟨b, hb, ht⟩ := any_eq_true.1 htrusted
        exact hne (hnames.resolve_left fun h => by simp [h b hb] at ht)
  simp only [if_neg hstop]
  have hfires := fires_group_iff hg hq hjobs
  have hopen (reports : List (GroupId × Bool)) (hp : reports.Perm (jobs votes)) : Shared.Open
      { toCount := Count.addAll { quorumSize := q, groupTotals := 1 } (trustedGroups votes)
        deletable := (jobs votes).length } reports.length := hp.length_eq ▸ open_start _ _
  constructor
  · intro h
    obtain ⟨hok, hlast⟩ := hfires.1 fun reports hp => by
      have hrunning := (h reports hp).2
      have hne : reports ≠ [] := fun hnil => hjobs (perm_nil.1 (hnil ▸ hp.symm))
      rw [(foldl_asyncValidateP2RepliesCallback (hopen reports hp).deletable).2] at hrunning
      by_contra hnot
      rw [Shared.run_crashes hne (hopen reports hp) (Bool.eq_false_iff.2 hnot)] at hrunning
      cases hrunning
    refine ⟨hlast, hok, ?_⟩
    by_contra hnames
    obtain ⟨htrusted, hne⟩ := not_or.1 hnames
    refine hstop (.inr ⟨?_, hjobs, hne⟩)
    simpa using htrusted
  · rintro ⟨hlast, hok, -⟩ reports hp
    obtain ⟨hcalls, -, hrunning, -⟩ := Shared.run_of_fires (hopen reports hp)
      (hfires.2 ⟨hok, hlast⟩ reports hp)
    obtain ⟨hcalls', hrunning'⟩ := foldl_asyncValidateP2RepliesCallback (hopen reports hp).deletable
    refine ⟨(hcalls'.trans hcalls).trans ?_, hrunning'.trans hrunning⟩
    have hpairs : votes.map (fun b => (b.group, b.voter)) =
        (votes.map (·.voter)).map (Prod.mk lg) := by
      rw [map_map]
      exact map_congr_left fun b hb => by rw [hg b hb]; rfl
    rw [hsync.2 ⟨votes, prefix_refl _, hlast, .of_map _ (hpairs ▸ hpass.1),
      fun b hb => ⟨hpass.2 b hb, hok b hb⟩⟩]

/-- **The workers answer like `VerifyFBViews`.** -/
theorem views_answered_iff (env : Env) (proposed : UInt64) (catchup : Bool) (lg : GroupId)
    (d : Digest) (vs : List SignedView) (myView : UInt64) :
    (∀ reports, reports.Perm (groupJobs (viewQuorumSize env catchup)
        (viewBallots env proposed catchup lg d vs myView)) →
      (viewRun env proposed catchup lg d vs myView reports).calls =
        [verifyFBViews env proposed catchup lg d vs myView] ∧
      (viewRun env proposed catchup lg d vs myView reports).crashed = false) ↔
      GroupAnswered (viewQuorumSize env catchup) lg
        (viewBallots env proposed catchup lg d vs myView) := by
  refine group_answered_iff ?_ (by simp [viewBallots, viewBallot])
  unfold viewQuorumSize
  split <;> omega

/-- Without views nothing is called back. With an invalid signature, or with a view more than the
quorum, the process stops. -/
theorem views_unanswered :
    let view (id : ProcessId) (sig : Bytes) : SignedView := ⟨3, [7], id, ⟨id, sig⟩⟩
    let check (vs : List SignedView) := verifyFBViews .sample 3 true 0 [7] vs 0
    let run (vs : List SignedView) := viewRun .sample 3 true 0 [7] vs 0
    (check [] = false ∧ (run [] []).calls = [] ∧ (run [] []).freed = 0) ∧
    (check [view 1 [9]] = false ∧ (run [view 1 [9]] [(0, false)]).calls = [] ∧
      (run [view 1 [9]] [(0, false)]).crashed = true) ∧
    (check [view 1 [1], view 2 [2], view 3 [3]] = true ∧
      (run [view 1 [1], view 2 [2], view 3 [3]] []).crashed = true) := by
  decide +kernel

end Sintr
