import Sintr.Lib.Quorum

/-!
# Reports that are counted to the last

Threads report to a shared object that counts down to the last report, calls back once, and is then
freed. Whether it does so in every order depends on how the votes are spread over the groups.

* `Count.fires_iff`, `Count.fires_perm_iff`: when the last report completes the check, in one order
  and in every order.
* `collect_refuses_iff`: when the pass before ends early.
-/

namespace Quorum

open List

universe v w

variable {γ : Type v} {ι : Type w} [DecidableEq γ] [DecidableEq ι]

variable {c : Count γ} {counted counted' : List γ} {g : γ} {q : Nat} {bs : List (Ballot γ ι)}
  {js : List (γ × Bool)} {onBad : Verdict} {j : γ × Bool}

omit [DecidableEq γ] [DecidableEq ι] in
theorem trustedGroups_append (bs bs' : List (Ballot γ ι)) :
    trustedGroups (bs ++ bs') = trustedGroups bs ++ trustedGroups bs' := by
  simp [trustedGroups]

omit [DecidableEq γ] [DecidableEq ι] in
theorem Passed.of_prefix {p : List (Ballot γ ι)} (h : Passed bs) (hp : p <+: bs) : Passed p :=
  ⟨h.1.sublist (hp.sublist.map _), fun b hb => h.2 b (hp.subset hb)⟩

omit [DecidableEq γ] [DecidableEq ι] in
theorem not_passed_concat {pre : List (Ballot γ ι)} {b : Ballot γ ι} (hb : b.admitted = false ∨
    (b.group, b.voter) ∈ pre.map fun b => (b.group, b.voter)) : ¬ Passed (pre ++ [b]) := by
  rintro ⟨hnd, hadm⟩
  rw [map_append, nodup_append] at hnd
  rcases hb with hb | hb
  · simp [hadm b (by simp)] at hb
  · exact hnd.2.2 _ hb _ (by simp) rfl

/-! ## How the pass over the votes ends -/

theorem collect_refuses_iff (hacc : onBad ≠ .accept) :
    collect onBad bs [] c js = .inl onBad ↔ ∃ pre b post, bs = pre ++ b :: post ∧
      (b.admitted = false ∨ (b.group, b.voter) ∈ pre.map fun b => (b.group, b.voter)) ∧
      c.quiet (trustedGroups pre) = true := by
  obtain ⟨hpass, -, hnext⟩ := goneThrough_spec bs []
  rw [collect_eq]
  constructor
  · intro h
    split_ifs at h with hquiet hall
    · rcases hnext with heq | ⟨b, post, heq, hb⟩
      · exact absurd (congrArg length heq) hall
      · exact ⟨_, b, post, heq, by simpa using hb, hquiet⟩
    · exact absurd (Sum.inl.inj h).symm hacc
  · rintro ⟨pre, b, post, rfl, hb, hquiet⟩
    -- the pass does not get beyond the refused vote
    have hpre : goneThrough (pre ++ b :: post) [] <+: pre := by
      rcases prefix_or_prefix_of_prefix (goneThrough_initial (pre ++ b :: post) [])
        (show pre ++ [b] <+: pre ++ b :: post by simp) with hle | hle
      · rcases prefix_concat_iff.1 hle with heq | hle
        · exact absurd (heq ▸ hpass) (not_passed_concat hb)
        · exact hle
      · exact absurd (hpass.of_prefix hle) (not_passed_concat hb)
    obtain ⟨rest, hrest⟩ := hpre
    have hlen := congrArg length hrest
    rw [length_append] at hlen
    rw [← hrest, trustedGroups_append, Count.quiet_append, Bool.and_eq_true] at hquiet
    rw [if_pos hquiet.1, if_neg]
    rw [length_append, length_cons]
    omega

theorem collect_of_passed (onBad : Verdict) (h : Passed bs) (c : Count γ) :
    collect onBad bs [] c [] = if c.quiet (trustedGroups bs) then
      .inr (c.addAll (trustedGroups bs), jobs bs) else .inl .accept := by
  have hall : goneThrough bs [] = bs := by
    rcases (goneThrough_spec bs []).2.2 with heq | ⟨b, post, heq, hb⟩
    · exact heq
    · refine absurd (h.of_prefix (p := goneThrough bs [] ++ [b]) ?_)
        (not_passed_concat (by simpa using hb))
      rw [append_cons] at heq
      exact ⟨post, heq.symm⟩
  rw [collect_eq, hall, if_pos rfl, nil_append]

/-! ## The last report completes the check -/

/-- All reports are good, and the last one completes the check. -/
def Count.fires : Count γ → List (γ × Bool) → Bool
  | _, [] => false
  | c, [j] => j.2 && (c.add j.1).2
  | c, j :: j' :: js => j.2 && !(c.add j.1).2 && (c.add j.1).1.fires (j' :: js)

theorem Count.fires_cons (hjs : js ≠ []) :
    c.fires (j :: js) = (j.2 && !(c.add j.1).2 && (c.add j.1).1.fires js) := by
  cases js with
  | nil => exact absurd rfl hjs
  | cons j' js => rfl

theorem Count.fires_concat (c : Count γ) (init : List (γ × Bool)) (j : γ × Bool) :
    c.fires (init ++ [j]) = (init.all (·.2) && c.quiet (init.map (·.1)) && j.2 &&
      ((c.addAll (init.map (·.1))).add j.1).2) := by
  induction init generalizing c with
  | nil => simp [Count.fires, Count.quiet, Count.addAll]
  | cons x init ih =>
    obtain ⟨g, valid⟩ := x
    rw [cons_append, Count.fires_cons (by simp), ih]
    cases valid <;> cases hdone : (c.add g).2 <;> simp [Count.quiet, Count.addAll, hdone]

theorem full_card_lt (hq : 0 < q) (hle : ∀ x, counted.count x ≤ counted'.count x)
    (hbefore : counted.count g < q) (hafter : q ≤ counted'.count g) :
    (full q counted).card < (full q counted').card := by
  apply Finset.card_lt_card
  rw [Finset.ssubset_iff_of_subset (full_subset hq hle)]
  refine ⟨g, (mem_full hq).2 hafter, ?_⟩
  rw [mem_full hq]
  omega

theorem Count.fires_iff (h : c.Exactly counted) (init : List (γ × Bool)) (j : γ × Bool) :
    c.fires (init ++ [j]) = true ↔ (∀ x ∈ init ++ [j], x.2 = true) ∧
      (counted ++ (init ++ [j]).map (·.1)).count j.1 = c.quorumSize ∧
      (full c.quorumSize (counted ++ (init ++ [j]).map (·.1))).card = c.groupTotals := by
  have hlast := ((h.addAll (init.map (·.1))).add j.1).2
  obtain ⟨hsize, htotal⟩ := c.addAll_sizes (init.map (·.1))
  have hperm : (j.1 :: (counted ++ init.map (·.1))).Perm
      (counted ++ (init ++ [j]).map (·.1)) := by
    rw [map_append, ← append_assoc]
    exact (perm_append_singleton _ _).symm
  rw [hsize, htotal, full_perm hperm, ← count_cons_self, hperm.count_eq] at hlast
  rw [Count.fires_concat, Bool.and_eq_true, Bool.and_eq_true, Bool.and_eq_true, hlast,
    forall_mem_append, all_eq_true]
  simp only [mem_singleton, forall_eq]
  constructor
  · rintro ⟨⟨⟨hinit, -⟩, hj⟩, hdone⟩
    exact ⟨⟨hinit, hj⟩, hdone⟩
  · rintro ⟨⟨hinit, hj⟩, hcount, hcard⟩
    refine ⟨⟨⟨hinit, ?_⟩, hj⟩, hcount, hcard⟩
    -- one more name completes with the last report
    have hbefore (l : List γ) (hl : l.Sublist (counted ++ init.map (·.1))) :
        (full c.quorumSize l).card < c.groupTotals := by
      rw [← hcard, ← full_perm hperm]
      have hle := hl.count_le j.1
      refine full_card_lt h.pos (fun x => (hl.cons _).count_le x) (g := j.1) ?_ ?_
      all_goals rw [← hperm.count_eq, count_cons_self] at hcount
      · omega
      · rw [count_cons_self]
        omega
    rw [Count.quiet_iff h _ fun _ => hbefore _ (sublist_append_left _ _)]
    exact fun _ => hbefore _ (.refl _)

theorem Count.fires_perm_iff (h : c.Exactly counted) (hjs : js ≠ []) :
    (∀ order : List (γ × Bool), order.Perm js → c.fires order = true) ↔
      (∀ j ∈ js, j.2 = true) ∧
      (∀ j ∈ js, (counted ++ js.map (·.1)).count j.1 = c.quorumSize) ∧
      (full c.quorumSize (counted ++ js.map (·.1))).card = c.groupTotals := by
  have hkeys {order : List (γ × Bool)} (hp : order.Perm js) :
      (counted ++ order.map (·.1)).Perm (counted ++ js.map (·.1)) := (hp.map _).append_left counted
  constructor
  · intro hall
    have hlast : ∀ j ∈ js, ∃ init, (init ++ [j]).Perm js := fun j hj =>
      ⟨js.erase j, (perm_append_singleton j _).trans (perm_cons_erase hj).symm⟩
    have hfire : ∀ j ∈ js, (∀ x ∈ js, x.2 = true) ∧
        (counted ++ js.map (·.1)).count j.1 = c.quorumSize ∧
        (full c.quorumSize (counted ++ js.map (·.1))).card = c.groupTotals := by
      intro j hj
      obtain ⟨init, hp⟩ := hlast j hj
      obtain ⟨hvalid, hcount, hcard⟩ := (Count.fires_iff h init j).1 (hall _ hp)
      rw [(hkeys hp).count_eq] at hcount
      rw [full_perm (hkeys hp)] at hcard
      exact ⟨fun x hx => hvalid x (hp.mem_iff.2 hx), hcount, hcard⟩
    obtain ⟨j, hj⟩ := exists_mem_of_ne_nil js hjs
    exact ⟨(hfire j hj).1, fun j hj => (hfire j hj).2.1, (hfire j hj).2.2⟩
  · rintro ⟨hvalid, hcount, hcard⟩ order hp
    have hne : order ≠ [] := fun hnil => hjs (perm_nil.1 (hnil ▸ hp.symm))
    obtain ⟨init, j, rfl⟩ : ∃ init j, order = init ++ [j] :=
      ⟨order.dropLast, order.getLast hne, (dropLast_append_getLast hne).symm⟩
    rw [Count.fires_iff h]
    refine ⟨fun x hx => hvalid x (hp.mem_iff.1 hx), ?_, ?_⟩
    · rw [(hkeys hp).count_eq]
      exact hcount j (hp.mem_iff.1 (mem_append_right _ mem_cons_self))
    · rw [full_perm (hkeys hp)]
      exact hcard

theorem Count.complete_of_fires (h : c.fires js = true) :
    c.complete js = .accept := by
  rcases eq_nil_or_concat js with rfl | ⟨init, j, rfl⟩
  · cases h
  · rw [concat_eq_append] at h ⊢
    simp only [Count.fires_concat, Bool.and_eq_true, all_eq_true] at h
    obtain ⟨⟨⟨hinit, hquiet⟩, hj⟩, hdone⟩ := h
    have hall : (init ++ [j]).takeWhile (·.2) = init ++ [j] := by
      rw [takeWhile_eq_self_iff, forall_mem_append]
      exact ⟨hinit, by simpa using hj⟩
    rw [Count.complete_eq, hall, map_append, Count.quiet_append, hquiet]
    simp [Count.quiet, hdone]

/-! ## Verifications that are handed out -/

omit [DecidableEq γ] [DecidableEq ι] in
theorem keys_perm (slot : γ → γ) (bs : List (Ballot γ ι)) :
    (trustedGroups bs ++ ((jobs bs).map (Prod.map slot id)).map (·.1)).Perm
      (bs.map (·.key slot)) := by
  induction bs with
  | nil => exact .refl _
  | cons b bs ih =>
    rw [trustedGroups_cons, jobs_cons, map_cons, Ballot.key]
    cases b.trusted with
    | true => exact ih.cons _
    | false => exact perm_middle.trans (ih.cons _)

omit [DecidableEq γ] [DecidableEq ι] in
theorem jobs_length (bs : List (Ballot γ ι)) :
    bs.countP (·.trusted) + (jobs bs).length = bs.length := by
  have hsplit := length_eq_countP_add_countP (l := bs) Ballot.trusted
  rw [jobs, length_map, ← countP_eq_length_filter, hsplit]
  simp

omit [DecidableEq γ] [DecidableEq ι] in
theorem mem_jobs {bs : List (Ballot γ ι)} :
    j ∈ jobs bs ↔ ∃ b ∈ bs, b.trusted = false ∧ j = (b.group, b.valid) := by
  simp only [jobs, mem_map, mem_filter, Bool.not_eq_true', and_assoc]
  exact exists_congr fun b => and_congr_right fun _ => and_congr_right fun _ => eq_comm

omit [DecidableEq ι] in
/-- The last report completes the check in every order exactly if all votes are believed and each
name that a report is counted under has exactly a quorum. -/
theorem fires_jobs_iff {slot : γ → γ} {bs : List (Ballot γ ι)} {t : Nat} (hq : 0 < q)
    (hjobs : jobs bs ≠ []) :
    (∀ order : List (γ × Bool), order.Perm ((jobs bs).map (Prod.map slot id)) →
      (Count.addAll { quorumSize := q, groupTotals := t } (trustedGroups bs)).fires order = true) ↔
      (∀ b ∈ bs, b.ok = true) ∧
      (∀ b ∈ bs, b.trusted = false → (bs.map (·.key slot)).count (slot b.group) = q) ∧
      (full q (bs.map (·.key slot))).card = t := by
  have hexact := (Count.Exactly.start hq t).addAll (trustedGroups bs)
  obtain ⟨hsize, htotal⟩ := Count.addAll_sizes
    ({ quorumSize := q, groupTotals := t } : Count γ) (trustedGroups bs)
  rw [Count.fires_perm_iff hexact (by simpa using hjobs), hsize, htotal, nil_append,
    full_perm (keys_perm slot bs)]
  refine and_congr ?_ (and_congr ?_ Iff.rfl)
  · simp only [forall_mem_map, mem_jobs]
    constructor
    · intro h b hb
      cases ht : b.trusted with
      | true => simp [Ballot.ok, ht]
      | false =>
        have hvalid : b.valid = true := h _ ⟨b, hb, ht, rfl⟩
        simp [Ballot.ok, hvalid]
    · rintro h j ⟨b, hb, ht, rfl⟩
      have hok := h b hb
      rwa [Ballot.ok, ht, Bool.false_or] at hok
  · simp only [forall_mem_map, mem_jobs]
    constructor
    · intro h b hb ht
      rw [← (keys_perm slot bs).count_eq]
      exact h _ ⟨b, hb, ht, rfl⟩
    · rintro h j ⟨b, hb, ht, rfl⟩
      rw [(keys_perm slot bs).count_eq]
      exact h b hb ht

/-! ## Votes of one group -/

theorem full_replicate (hq : 0 < q) (k : Nat) :
    full q (replicate k g) = if q ≤ k then {g} else ∅ := by
  ext x
  rw [mem_full hq, count_replicate]
  by_cases hx : g = x
  · subst hx
    by_cases hk : q ≤ k
    · simp [hk]
    · simp [hk]
  · have hzero : ¬ q ≤ 0 := by omega
    by_cases hk : q ≤ k
    · simp [hk, hx, Ne.symm hx, hzero]
    · simp [hk, hx, hzero]

theorem quiet_replicate (hq : 0 < q) (k : Nat) :
    Count.quiet { quorumSize := q, groupTotals := 1 } (replicate k g) = true ↔ k < q := by
  rw [Count.quiet_iff (Count.Exactly.start hq 1) _ (by simp [full]), nil_append,
    full_replicate hq]
  by_cases hk : q ≤ k
  · simp [hk]
  · simp [hk]
    omega

omit [DecidableEq γ] [DecidableEq ι] in
theorem trustedGroups_eq {bs : List (Ballot γ ι)} (hg : ∀ b ∈ bs, b.group = g) :
    trustedGroups bs = replicate (bs.countP (·.trusted)) g := by
  rw [eq_replicate_iff, trustedGroups, length_map, countP_eq_length_filter]
  refine ⟨rfl, ?_⟩
  simp only [forall_mem_map, mem_filter, and_imp]
  exact fun b hb _ => hg b hb

omit [DecidableEq ι] in
theorem fires_group_iff (hg : ∀ b ∈ bs, b.group = g) (hq : 0 < q) (hjobs : jobs bs ≠ []) :
    (∀ order : List (γ × Bool), order.Perm (jobs bs) →
      (Count.addAll { quorumSize := q, groupTotals := 1 } (trustedGroups bs)).fires order = true) ↔
      (∀ b ∈ bs, b.ok = true) ∧ bs.length = q := by
  have hkeys : bs.map (·.key id) = replicate bs.length g := by
    rw [eq_replicate_iff, length_map]
    refine ⟨rfl, ?_⟩
    simp only [forall_mem_map]
    intro b hb
    rw [Ballot.key, id, ite_self, hg b hb]
  have hfires := @fires_jobs_iff γ ι _ q id bs 1 hq hjobs
  rw [Prod.map_id, map_id, hkeys, full_replicate hq] at hfires
  rw [hfires]
  refine and_congr_right fun _ => ⟨fun h => ?_, fun hlen => ⟨fun b hb _ => ?_, ?_⟩⟩
  · obtain ⟨j, hj⟩ := exists_mem_of_ne_nil _ hjobs
    obtain ⟨b, hb, ht, -⟩ := mem_jobs.1 hj
    have hcount := h.1 b hb ht
    rwa [id, hg b hb, count_replicate_self] at hcount
  · rw [id, hg b hb, count_replicate_self, hlen]
  · rw [if_pos hlen.ge, Finset.card_singleton]

theorem verifyAsync_of_exact (schedule : List Nat) (hpass : Passed bs) (hok : ∀ b ∈ bs, b.ok = true)
    (hg : ∀ b ∈ bs, b.group = g) (hlen : bs.length = q) (hq : 0 < q) :
    verifyAsync id onBad schedule bs { quorumSize := q, groupTotals := 1 } = .accept := by
  have htrusted := trustedGroups_eq hg
  rw [verifyAsync, collect_of_passed _ hpass]
  by_cases hquiet : Count.quiet { quorumSize := q, groupTotals := 1 } (trustedGroups bs) = true
  · rw [if_pos hquiet]
    rw [htrusted, quiet_replicate hq] at hquiet
    cases hjs : jobs bs with
    | nil =>
      -- then all votes are trusted
      have hlen' := jobs_length bs
      rw [hjs, length_nil] at hlen'
      omega
    | cons j js =>
      have hfires := (fires_group_iff hg hq (by simp [hjs])).2 ⟨hok, hlen⟩
      apply Count.complete_of_fires
      rw [Prod.map_id, map_id]
      apply hfires
      rw [hjs]
      exact reorder_perm schedule (j :: js)
  · rw [if_neg hquiet]

/-! ## The shared object -/

/-- The object that the reports of the threads are counted in, and what has come of it. -/
structure Shared (γ : Type v) extends Count γ where
  deletable : Nat
  terminate : Bool := false
  calls : List Bool := []
  freed : Nat := 0
  crashed : Bool := false

def Shared.wait (s : Shared γ) : Shared γ :=
  if s.deletable = 0 then { s with crashed := true } else s

omit [DecidableEq γ] in
@[simp] theorem Shared.wait_calls (s : Shared γ) : s.wait.calls = s.calls := by
  unfold Shared.wait
  split <;> rfl

omit [DecidableEq γ] in
@[simp] theorem Shared.wait_terminate (s : Shared γ) : s.wait.terminate = s.terminate := by
  unfold Shared.wait
  split <;> rfl

/-- One report: the callback is called as soon as the check is complete, and the object is freed
then if this is the last report. -/
def Shared.report (s : Shared γ) (j : γ × Bool) : Shared γ :=
  if s.crashed then s
  else
    let s := { s with deletable := s.deletable - 1 }
    if s.terminate then s.wait
    else if !j.2 then { s with terminate := true }.wait
    else
      let r := s.toCount.add j.1
      let s := { s with toCount := r.1 }
      if r.2 then
        { s with
          terminate := true
          calls := s.calls ++ [true]
          freed := s.freed + if s.deletable = 0 then 1 else 0 }
      else s.wait


variable {s : Shared γ}

theorem Shared.foldl_crashed (h : s.crashed = true) (js : List (γ × Bool)) :
    js.foldl Shared.report s = s := by
  induction js with
  | nil => rfl
  | cons j js ih => rw [foldl_cons, Shared.report, if_pos h, ih]

theorem Shared.foldl_terminate {js : List (γ × Bool)} (hjs : js ≠ [])
    (hdel : s.deletable = js.length) (hterm : s.terminate = true) :
    (js.foldl Shared.report s).crashed = true := by
  induction js generalizing s with
  | nil => exact absurd rfl hjs
  | cons j js ih =>
    rw [foldl_cons]
    cases hcrashed : s.crashed with
    | true =>
      rw [Shared.report, if_pos hcrashed, Shared.foldl_crashed hcrashed]
      exact hcrashed
    | false =>
      simp only [Shared.report, hcrashed, hterm, Bool.false_eq_true, if_false, if_true,
        Shared.wait, hdel, length_cons, Nat.add_sub_cancel]
      split
      · rw [Shared.foldl_crashed rfl]
      · rename_i hne
        exact ih (fun hnil => hne (by rw [hnil]; rfl)) rfl rfl

/-- Nothing is decided yet, and `k` reports are still to come. -/
structure Shared.Open (s : Shared γ) (k : Nat) : Prop where
  deletable : s.deletable = k
  terminate : s.terminate = false
  calls : s.calls = []
  freed : s.freed = 0
  crashed : s.crashed = false

theorem Shared.Open.report {k : Nat} (h : s.Open (k + 2)) (hvalid : j.2 = true)
    (hquiet : (s.toCount.add j.1).2 = false) :
    (s.report j).Open (k + 1) ∧ (s.report j).toCount = (s.toCount.add j.1).1 := by
  simp only [Shared.report, h.crashed, h.terminate, hvalid, hquiet, h.deletable, Shared.wait,
    Bool.false_eq_true, if_false, Bool.not_true, Nat.add_one_sub_one, Nat.add_one_ne_zero]
  exact ⟨⟨rfl, rfl, h.calls, h.freed, rfl⟩, trivial⟩

theorem Shared.run_of_fires {js : List (γ × Bool)} (h : s.Open js.length)
    (hfires : s.toCount.fires js = true) :
    (js.foldl Shared.report s).calls = [true] ∧ (js.foldl Shared.report s).freed = 1 ∧
      (js.foldl Shared.report s).crashed = false ∧
      ∀ p, p <+: js → p ≠ js → (p.foldl Shared.report s).freed = 0 := by
  induction js generalizing s with
  | nil => cases hfires
  | cons j js ih =>
    cases js with
    | nil =>
      rw [Count.fires, Bool.and_eq_true] at hfires
      have hdel : s.deletable = 1 := h.deletable
      simp only [foldl_cons, foldl_nil, Shared.report, h.crashed, h.terminate, hfires.1,
        hfires.2, hdel, h.calls, h.freed, Bool.false_eq_true, if_false, Bool.not_true, if_true,
        Nat.sub_self, nil_append, Nat.zero_add, true_and]
      intro p hp hne
      have hnil : p = [] := by
        rcases prefix_cons_iff.1 hp with hnil | ⟨t, rfl, ht⟩
        · exact hnil
        · rw [prefix_nil.1 ht] at hne
          exact absurd rfl hne
      rw [hnil]
      exact h.freed
    | cons j' js =>
      rw [Count.fires_cons (by simp), Bool.and_eq_true, Bool.and_eq_true,
        Bool.not_eq_true'] at hfires
      obtain ⟨hopen, hcount⟩ := h.report hfires.1.1 hfires.1.2
      obtain ⟨hcalls, hfreed, hcrashed, hbefore⟩ := ih hopen (hcount ▸ hfires.2)
      refine ⟨hcalls, hfreed, hcrashed, ?_⟩
      intro p hp hne
      rcases prefix_cons_iff.1 hp with rfl | ⟨t, rfl, ht⟩
      · exact h.freed
      · exact hbefore t ht fun heq => hne (by rw [heq])

theorem Shared.run_crashes {js : List (γ × Bool)} (hjs : js ≠ []) (h : s.Open js.length)
    (hfires : s.toCount.fires js = false) :
    (js.foldl Shared.report s).crashed = true := by
  induction js generalizing s with
  | nil => exact absurd rfl hjs
  | cons j js ih =>
    cases js with
    | nil =>
      have hdel : s.deletable = 1 := h.deletable
      rw [Count.fires] at hfires
      simp only [foldl_cons, foldl_nil, Shared.report, h.crashed, h.terminate, hdel,
        Shared.wait, Bool.false_eq_true, if_false, Nat.sub_self, if_true]
      cases hvalid : j.2 with
      | false => simp
      | true =>
        rw [hvalid, Bool.true_and] at hfires
        simp [hfires]
    | cons j' js =>
      rw [Count.fires_cons (by simp)] at hfires
      by_cases hgo : j.2 = true ∧ (s.toCount.add j.1).2 = false
      · obtain ⟨hopen, hcount⟩ := h.report hgo.1 hgo.2
        apply ih (by simp) hopen
        rw [hgo.1, hgo.2, Bool.not_false, Bool.true_and, Bool.true_and] at hfires
        rwa [hcount]
      · -- the check is over, one way or the other, with reports to come
        have hover :
            (s.report j).terminate = true ∧ (s.report j).deletable = (j' :: js).length := by
          have hdel : s.deletable = js.length + 2 := h.deletable
          simp only [Shared.report, h.crashed, h.terminate, hdel, Shared.wait, Bool.false_eq_true,
            if_false, Nat.add_one_sub_one, Nat.add_one_ne_zero, length_cons]
          cases hvalid : j.2 with
          | false => exact ⟨rfl, rfl⟩
          | true =>
            have hdone : (s.toCount.add j.1).2 = true := by
              rw [← Bool.not_eq_false]
              exact fun hq => hgo ⟨hvalid, hq⟩
            simp only [hdone, Bool.not_true, Bool.false_eq_true, if_false, if_true, and_self]
        rw [foldl_cons]
        exact Shared.foldl_terminate (by simp) hover.2 hover.1

theorem Shared.foldl_calls (h : false ∉ s.calls) (js : List (γ × Bool)) :
    false ∉ (js.foldl Shared.report s).calls := by
  induction js generalizing s with
  | nil => exact h
  | cons j js ih =>
    apply ih
    unfold Shared.report
    dsimp only
    split_ifs
    · exact h
    · rwa [Shared.wait_calls]
    · rwa [Shared.wait_calls]
    · simpa using h
    · simpa using h
    · rwa [Shared.wait_calls]

theorem Shared.foldl_calls_terminate (h : s.terminate = true) (js : List (γ × Bool)) :
    (js.foldl Shared.report s).calls = s.calls := by
  induction js generalizing s with
  | nil => rfl
  | cons j js ih =>
    have hstep : (s.report j).terminate = true ∧ (s.report j).calls = s.calls := by
      unfold Shared.report
      dsimp only
      split_ifs
      · exact ⟨h, rfl⟩
      · rw [Shared.wait_terminate, Shared.wait_calls]
        exact ⟨h, rfl⟩
    rw [foldl_cons, ih hstep.1, hstep.2]

end Quorum
