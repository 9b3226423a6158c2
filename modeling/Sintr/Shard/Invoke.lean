import Mathlib.Order.Bounds.Basic
import Sintr.Fallback.State
import Sintr.Shard.Views

/-!
# Which view a client proposes

A client scans the levels of the views it has collected, from the largest one down. It proposes a
view that `f + 1` replicas have reached (it catches up), or the one after a view that `3f + 1` have
reached. The InvokeFB message carries the views that support the proposal; a replica checks them by
the rule that the message names.

* `invoke_accepted_iff`: the proposal is the largest one that is supported, and it is accepted if
  every view that `f + 1` replicas have reached is one that `3f + 1` have reached.
-/

namespace Sintr.Shard

open Quorum Fallback List

/-- The views a client has collected, and what it has proposed. -/
structure PendingViews where
  currentViews : ProcessId → Option (UInt64 × Option SignedView)
  levels : List (UInt64 × List ProcessId)
  maxView : UInt64 := 0
  catchup : Bool := false
  lastView : UInt64 := 0
  conflictView : UInt64 := 0

def computeMaxLevel (f : Nat) : Nat → List (UInt64 × List ProcessId) → UInt64 × Bool → UInt64 × Bool
  | _, [], m => m
  | count, (v, ids) :: rest, m =>
    if v < m.1 then m
    else if 3 * f + 1 ≤ count + ids.length then (v + 1, false)
    else if f + 1 ≤ count + ids.length then (v, true)
    else computeMaxLevel f (count + ids.length) rest m

namespace PendingViews

section
variable (env : Env) (p : PendingViews)

def computed : UInt64 × Bool := computeMaxLevel env.config.f 0 p.levels (p.maxView, p.catchup)

/-- Not more than one view after the one with different decisions. -/
def proposed : UInt64 :=
  if p.conflictView + 1 < (p.computed env).1 then p.conflictView + 1 else (p.computed env).1

def attached (count : Nat) : List SignedView :=
  ((p.levels.flatMap (·.2)).take count).filterMap fun id => (p.currentViews id).bind (·.2)

def invokeFB (reqId : UInt64) (d : Digest) (p2fb : Phase2FBMsg) : Option InvokeFBMsg :=
  if p.proposed env ≤ p.lastView then none
  else some
    { reqId, txnDigest := d, p2fb := some p2fb, proposedView := p.proposed env
      viewSigned := some (p.attached
        (if (p.computed env).2 then env.config.f + 1 else 3 * env.config.f + 1)) }

theorem lt_proposed : p.lastView < p.proposed env ↔
    p.lastView < (p.computed env).1 ∧ p.lastView < p.conflictView + 1 := by
  unfold proposed
  split_ifs <;> grind [UInt64.lt_iff_toNat_lt]

theorem proposed_le : (p.proposed env).toNat ≤ (p.computed env).1.toNat := by
  unfold proposed
  split_ifs <;> grind [UInt64.lt_iff_toNat_lt]

end

end PendingViews

/-- How many replicas have reported a view of at least `w`. -/
def support (levels : List (UInt64 × List ProcessId)) (w : Nat) : Nat :=
  (levels.map fun l => if w ≤ l.1.toNat then l.2.length else 0).sum

def Supported (f : Nat) (levels : List (UInt64 × List ProcessId)) (v : Nat) : Prop :=
  f + 1 ≤ support levels v ∨ 3 * f + 1 ≤ support levels (v - 1)

/-- The levels are those of valid views for `d`, one of each replica. -/
structure Collected (env : Env) (group : GroupId) (d : Digest) (p : PendingViews) : Prop where
  sorted : p.levels.Pairwise fun a b => b.1 < a.1
  nodup : (p.levels.flatMap (·.2)).Nodup
  valid : ∀ l ∈ p.levels, ∀ r ∈ l.2, ∃ sv, p.currentViews r = some (l.1, some sv) ∧
    sv.view = l.1 ∧ sv.digest = d ∧ sv.signature.processId = r ∧
    env.config.isReplicaInGroup r group = true ∧
    env.verify r (.currentView sv.view sv.digest sv.replicaId) sv.signature.signature = true

/-- What the scan starts with: nothing, or a proposal that the views support as flagged. The scan
left that behind itself, and views only grow. -/
def PendingViews.Prior (f : Nat) (p : PendingViews) : Prop :=
  p.maxView = 0 ∨ if p.catchup then f + 1 ≤ support p.levels p.maxView.toNat
    else 3 * f + 1 ≤ support p.levels (p.maxView.toNat - 1)

/-! ## The views behind a proposal -/

/-- The lists are the levels of the tables, from the largest one down. -/
structure PendingViews.Lists (p : PendingViews) (s : ViewTables) : Prop where
  currentViews : p.currentViews = s.currentViews
  sorted : p.levels.Pairwise fun a b => b.1 < a.1
  nodup : ∀ l ∈ p.levels, l.2.Nodup
  levels : ∀ l ∈ p.levels, ∀ r ∈ l.2, r ∈ s.viewLevels l.1

section Tables
variable {env : Env} {group : GroupId} {d : Digest} {s : ViewTables} {c : ViewCall}

/-- A stored view is one that the replica signed for `d`. -/
def ViewTables.Stored (env : Env) (group : GroupId) (d : Digest) (s : ViewTables) : Prop :=
  ∀ r v sv, s.currentViews r = some (v, sv) → ∃ sv', sv = some sv' ∧ sv'.view = v ∧
    sv'.digest = d ∧ sv'.signature.processId = r ∧ env.config.isReplicaInGroup r group = true ∧
    env.verify r (.currentView sv'.view sv'.digest sv'.replicaId) sv'.signature.signature = true

theorem ViewTables.Stored.step (h : s.Stored env group d)
    (hsigned : (env.params.validateProofs && env.params.signedMessages) = true)
    (hc : ViewTables.Honest env group d c) :
    (ViewTables.updateViewStructure env group s c).Stored env group d := by
  unfold ViewTables.updateViewStructure
  rw [if_pos hsigned]
  cases hatt : c.attached with
  | plain view digest id => exact h
  | signed sv =>
    dsimp only
    split_ifs with hold hgroup hverify
    · exact h
    · exact h
    · exact h
    simp only [Bool.not_eq_true, Bool.not_eq_false'] at hgroup hverify
    have hreport : (ViewTables.report env group c).isSome = true := by
      simp [ViewTables.report, hatt, hsigned, hgroup, hverify]
    obtain ⟨hid, hd⟩ := hc sv hatt hreport
    intro r v sv' hr
    dsimp only at hr
    by_cases heq : r = sv.replicaId
    · rw [heq, Function.update_self] at hr
      obtain ⟨rfl, rfl⟩ := Prod.mk.inj (Option.some.inj hr)
      rw [heq, hid]
      exact ⟨sv, rfl, rfl, hd, rfl, hgroup, hid ▸ hverify⟩
    · rw [Function.update_of_ne heq] at hr
      exact h r v sv' hr

/-- The views that a run of reports leaves behind are collected views in the sense of the scan. -/
theorem collected_of_run
    (hsigned : (env.params.validateProofs && env.params.signedMessages) = true)
    (cs : List ViewCall) (hcs : ∀ c ∈ cs, ViewTables.Honest env group d c) {p : PendingViews}
    (hp : p.Lists ((ViewTables.viewMachine env group).run {} cs)) : Collected env group d p := by
  have hlevels := (Machine.run_history (M := ViewTables.viewMachine env group)
    (I := ViewTables.Follows env group d) (P := fun _ c => ViewTables.Honest env group d c)
    (s := {}) ⟨by simp [ViewTables.Reported], by simp [ViewTables.view], by simp [ViewTables.view]⟩
    (fun _ _ h hc => h.step hsigned hc) (Machine.along_of_forall hcs)).levels
  have hstored := Machine.run_along (M := ViewTables.viewMachine env group)
    (I := ViewTables.Stored env group d) (fun _ _ hc h => h.step hsigned hc)
    (s := {}) (fun _ _ _ h => by simp at h) (Machine.along_of_forall hcs)
  generalize (ViewTables.viewMachine env group).run {} cs = s at hp hlevels hstored
  have hview : ∀ l ∈ p.levels, ∀ r ∈ l.2, s.view r = some l.1 := fun l hl r hr =>
    (hlevels r l.1).1 (hp.levels l hl r hr)
  refine ⟨hp.sorted, ?_, fun l hl r hr => ?_⟩
  · rw [nodup_flatMap]
    refine ⟨hp.nodup, hp.sorted.imp_of_mem fun {a b} ha hb hlt r hra hrb => ?_⟩
    -- a replica is in the level of its view only
    have heq : a.1 = b.1 := Option.some.inj ((hview a ha r hra).symm.trans (hview b hb r hrb))
    exact absurd hlt (by simp [heq])
  · obtain ⟨⟨v, sv⟩, hcur, rfl⟩ := Option.map_eq_some_iff.1 (hview l hl r hr)
    obtain ⟨sv', rfl, hsv⟩ := hstored r _ sv hcur
    exact ⟨sv', by rw [hp.currentViews, hcur], hsv⟩

end Tables

/-! ## The scan -/

variable {f : Nat} {levels pre rest : List (UInt64 × List ProcessId)} {v : UInt64}
  {ids : List ProcessId} {w : Nat}

@[simp] theorem support_nil : support [] w = 0 := rfl

@[simp] theorem support_append : support (pre ++ rest) w = support pre w + support rest w := by
  simp [support]

@[simp] theorem support_cons (l : UInt64 × List ProcessId) : support (l :: rest) w =
    (if w ≤ l.1.toNat then l.2.length else 0) + support rest w := by
  simp [support]

theorem support_anti {w' : Nat} (h : w ≤ w') : support levels w' ≤ support levels w := by
  induction levels with
  | nil => simp
  | cons l levels ih =>
    simp only [support_cons]
    split_ifs <;> omega

theorem support_of_lt (h : ∀ l ∈ levels, l.1.toNat < w) : support levels w = 0 := by
  induction levels with
  | nil => rfl
  | cons l levels ih =>
    obtain ⟨hl, h⟩ := forall_mem_cons.1 h
    simp only [support_cons, ih h]
    split_ifs <;> omega

theorem support_of_le (h : ∀ l ∈ levels, w ≤ l.1.toNat) : support levels w = support levels 0 := by
  induction levels with
  | nil => rfl
  | cons l levels ih =>
    obtain ⟨hl, h⟩ := forall_mem_cons.1 h
    simp only [support_cons, ih h, hl, Nat.zero_le]

theorem computeMaxLevel_spec {m : UInt64 × Bool}
    (hsorted : (pre ++ rest).Pairwise fun a b => b.1 < a.1) (hcount : support pre 0 ≤ f) :
    let S := support (pre ++ rest)
    let r := computeMaxLevel f (support pre 0) rest m
    (r = m ∧ ∀ w, m.1.toNat ≤ w → S w ≤ f) ∨
    (∃ v, r = (v, true) ∧ f + 1 ≤ S v.toNat ∧ S v.toNat ≤ 3 * f ∧ ∀ w, v.toNat < w → S w ≤ f) ∨
    ∃ v, r = (v + 1, false) ∧ 3 * f + 1 ≤ S v.toNat ∧ ∀ w, v.toNat < w → S w ≤ f := by
  intro S r
  induction rest generalizing pre with
  | nil =>
    refine .inl ⟨rfl, fun w _ => ?_⟩
    have : support pre w ≤ support pre 0 := support_anti (Nat.zero_le w)
    simp only [S, append_nil]
    omega
  | cons l rest ih =>
    obtain ⟨v, ids⟩ := l
    obtain ⟨-, htail, hhead⟩ := pairwise_append.1 hsorted
    obtain ⟨hrest, -⟩ := pairwise_cons.1 htail
    have hle : ∀ w, support pre w ≤ f := fun w => (support_anti (Nat.zero_le w)).trans hcount
    have hpost : ∀ w, v.toNat ≤ w → support rest w = 0 := fun w hw => support_of_lt fun l hl =>
      lt_of_lt_of_le (UInt64.lt_iff_toNat_lt.1 (hrest l hl)) hw
    have hpre : support pre v.toNat = support pre 0 := support_of_le fun l hl =>
      (UInt64.lt_iff_toNat_lt.1 (hhead l hl _ mem_cons_self)).le
    have hS : ∀ w, S w = support pre w + ((if w ≤ v.toNat then ids.length else 0) +
      support rest w) := fun w => by simp [S]
    have hafter : ∀ w, v.toNat < w → S w ≤ f := fun w hw => by
      rw [hS, if_neg (by omega), hpost w hw.le]
      exact hle w
    have hat : S v.toNat = support pre 0 + ids.length := by
      rw [hS, if_pos le_rfl, hpost _ le_rfl, hpre]
      rfl
    simp only [r, computeMaxLevel]
    split_ifs with hlt hthree hone
    · exact .inl ⟨rfl, fun w hw => hafter w ((UInt64.lt_iff_toNat_lt.1 hlt).trans_le hw)⟩
    · exact .inr (.inr ⟨v, rfl, by omega, hafter⟩)
    · exact .inr (.inl ⟨v, rfl, by omega, by omega, hafter⟩)
    · have hpre' : support (pre ++ [(v, ids)]) 0 = support pre 0 + ids.length := by simp
      have := @ih (pre ++ [(v, ids)]) (by simpa using hsorted) (by omega)
      rw [hpre'] at this
      simpa [S] using this

theorem computed_cases {env : Env} {p : PendingViews}
    (hsorted : p.levels.Pairwise fun a b => b.1 < a.1) (hprior : p.Prior env.config.f)
    (hmax : support p.levels (2 ^ 64 - 1) ≤ 3 * env.config.f) :
    let S := support p.levels
    let f := env.config.f
    let m := (p.computed env).1.toNat
    (m = 0 ∧ ∀ w, S w ≤ f) ∨
    ((p.computed env).2 = true ∧ f + 1 ≤ S m ∧ S m ≤ 3 * f ∧ ∀ w, m < w → S w ≤ f) ∨
    ((p.computed env).2 = false ∧ 3 * f + 1 ≤ S (m - 1) ∧ ∀ w, m ≤ w → S w ≤ f) := by
  have hspec := @computeMaxLevel_spec env.config.f [] p.levels (p.maxView, p.catchup) hsorted
    (Nat.zero_le _)
  simp only [nil_append, support_nil] at hspec
  unfold PendingViews.computed
  obtain ⟨hr, hle⟩ | ⟨v, hr, hone, hthree, hle⟩ | ⟨v, hr, hthree, hle⟩ := hspec <;>
    rw [hr]
  · obtain hzero | hprior := hprior
    · exact .inl ⟨by simp [hzero], fun w => hle w (by simp [hzero])⟩
    · cases hc : p.catchup <;> simp only [hc, if_true, Bool.false_eq_true, if_false] at hprior
      · exact .inr (.inr ⟨rfl, hprior, hle⟩)
      · have := hle _ le_rfl
        omega
  · exact .inr (.inl ⟨rfl, hone, hthree, hle⟩)
  · have hv : v.toNat ≠ 2 ^ 64 - 1 := fun h => by
      rw [h] at hthree
      omega
    have hsucc : (v + 1).toNat = v.toNat + 1 := by
      have := v.toNat_lt
      simp only [UInt64.toNat_add, UInt64.reduceToNat]
      omega
    refine .inr (.inr ⟨rfl, ?_, fun w hw => hle w ?_⟩)
    · rwa [hsucc, Nat.add_sub_cancel]
    · rw [hsucc] at hw
      omega

theorem computed_greatest {env : Env} {p : PendingViews}
    (hsorted : p.levels.Pairwise fun a b => b.1 < a.1) (hprior : p.Prior env.config.f)
    (hmax : support p.levels (2 ^ 64 - 1) ≤ 3 * env.config.f)
    (hsome : ∃ v, Supported env.config.f p.levels v) :
    IsGreatest {v | Supported env.config.f p.levels v} (p.computed env).1.toNat := by
  obtain ⟨-, hle⟩ | ⟨-, hone, hthree, hle⟩ | ⟨-, hthree, hle⟩ := computed_cases hsorted hprior hmax
  · obtain ⟨v, hv | hv⟩ := hsome
    · have := hle v
      omega
    · have := hle (v - 1)
      omega
  · refine ⟨.inl hone, fun v hv => ?_⟩
    by_contra hlt
    obtain hv | hv := hv
    · have := hle v (by omega)
      omega
    · have hle : (p.computed env).1.toNat ≤ v - 1 := by omega
      have : support p.levels (v - 1) ≤ _ := support_anti hle
      omega
  · refine ⟨.inr hthree, fun v hv => ?_⟩
    by_contra hlt
    obtain hv | hv := hv
    · have := hle v (by omega)
      omega
    · have := hle (v - 1) (by omega)
      omega

/-! ## The message -/

theorem exists_level_of_mem_take (hsorted : levels.Pairwise fun a b => b.1 < a.1) {q : Nat}
    (hq : q ≤ support levels w) {r : ProcessId} (hr : r ∈ (levels.flatMap (·.2)).take q) :
    ∃ l ∈ levels, r ∈ l.2 ∧ w ≤ l.1.toNat := by
  induction levels generalizing q with
  | nil => simp at hr
  | cons l levels ih =>
    obtain ⟨hl, hsorted⟩ := pairwise_cons.1 hsorted
    by_cases hw : w ≤ l.1.toNat
    · rw [flatMap_cons, take_append, mem_append] at hr
      obtain hr | hr := hr
      · exact ⟨l, mem_cons_self, mem_of_mem_take hr, hw⟩
      · simp only [support_cons, hw, if_true] at hq
        obtain ⟨l', hl', hrest⟩ := ih hsorted (by omega) hr
        exact ⟨l', mem_cons_of_mem _ hl', hrest⟩
    · have : support levels w = 0 := support_of_lt fun l' hl' =>
        (UInt64.lt_iff_toNat_lt.1 (hl l' hl')).trans (by omega)
      simp only [support_cons, hw, if_false, this] at hq
      obtain rfl : q = 0 := by omega
      simp at hr

theorem map_filterMap_eq {g : ProcessId → Option SignedView}
    (h : ∀ r ∈ ids, ∃ sv, g r = some sv ∧ sv.signature.processId = r) :
    (ids.filterMap g).map (·.signature.processId) = ids := by
  induction ids with
  | nil => rfl
  | cons r ids ih =>
    obtain ⟨⟨sv, hg, hr⟩, h⟩ := forall_mem_cons.1 h
    simp [hg, hr, ih h]

theorem verifyFBViews_take {env : Env} {group : GroupId} {d : Digest} {p : PendingViews}
    (hp : Collected env group d p) (hw : 3 * env.config.f + 1 ≤ support p.levels w)
    {proposed : UInt64} (hproposed : (viewBound proposed false).toNat ≤ w) (myView : UInt64) :
    verifyFBViews env proposed false group d (p.attached (3 * env.config.f + 1)) myView = true := by
  have hvalid : ∀ r ∈ (p.levels.flatMap (·.2)).take (3 * env.config.f + 1), ∃ sv,
      (p.currentViews r).bind (·.2) = some sv ∧ sv.signature.processId = r ∧
        let b := viewBallot env proposed false group d myView sv
        b.admitted = true ∧ b.ok = true := by
    intro r hr
    obtain ⟨l, hl, hrl, hle⟩ := exists_level_of_mem_take hp.sorted hw hr
    obtain ⟨sv, hcur, hview, hdig, hsigner, hgroup, hverify⟩ := hp.valid l hl r hrl
    refine ⟨sv, by rw [hcur]; rfl, hsigner, ?_⟩
    have hbound : viewBound proposed false ≤ sv.view := by
      rw [UInt64.le_iff_toNat_le, hview]
      omega
    simp [viewBallot, Ballot.ok, hsigner, hgroup, hdig, hbound, hdig ▸ hverify]
  have hlen : 3 * env.config.f + 1 ≤ (p.levels.flatMap (·.2)).length := by
    have : support p.levels w ≤ support p.levels 0 := support_anti (Nat.zero_le w)
    simp only [support, Nat.zero_le, if_true] at this hw
    simp only [length_flatMap]
    omega
  have hnd : ((p.levels.flatMap (·.2)).take (3 * env.config.f + 1)).Nodup :=
    hp.nodup.sublist (take_sublist _ _)
  have htake : ((p.levels.flatMap (·.2)).take (3 * env.config.f + 1)).length =
      3 * env.config.f + 1 := length_take_of_le hlen
  unfold PendingViews.attached
  generalize (p.levels.flatMap (·.2)).take (3 * env.config.f + 1) = rs at hvalid hnd htake ⊢
  have hmap := map_filterMap_eq fun r hr => (hvalid r hr).imp fun _ h => ⟨h.1, h.2.1⟩
  have hlength := congrArg length hmap
  rw [length_map] at hlength
  unfold verifyFBViews
  rw [← append_nil (map _ _)]
  refine reaches_of_all (Nat.succ_pos _) (by simp [hlength, htake]) ?_ ?_ []
  · simp only [mem_map, mem_filterMap, forall_exists_index, and_imp]
    rintro _ sv r hr hsv rfl
    obtain ⟨sv', hsv', -, hok⟩ := hvalid r hr
    obtain rfl := Option.some.inj (hsv.symm.trans hsv')
    exact hok
  · rw [append_nil, map_map]
    exact hmap.symm ▸ hnd

/-- **The proposal is the largest supported one and is accepted**, exactly if it is not to catch
up. -/
theorem invoke_accepted_iff (env : Env) (group : GroupId) (d : Digest) (p : PendingViews)
    (hp : Collected env group d p) (hprior : p.Prior env.config.f) (reqId : UInt64)
    (p2fb : Phase2FBMsg) :
    (((∃ v, Supported env.config.f p.levels v) →
        IsGreatest {v | Supported env.config.f p.levels v} (p.computed env).1.toNat) ∧
      ∀ msg, p.invokeFB env reqId d p2fb = some msg → ∀ myView, verifyFBViews env msg.proposedView
        msg.catchup group d (msg.viewSigned.getD []) myView = true) ↔
    support p.levels (2 ^ 64 - 1) ≤ 3 * env.config.f ∧
      (p.lastView < p.conflictView + 1 →
        (∃ v, p.lastView.toNat < v ∧ Supported env.config.f p.levels v) →
        ∀ w, env.config.f + 1 ≤ support p.levels w →
          3 * env.config.f + 1 ≤ support p.levels w) := by
  constructor
  · rintro ⟨hgreatest, haccepted⟩
    have hmax : support p.levels (2 ^ 64 - 1) ≤ 3 * env.config.f := by
      by_contra hlt
      have hsup : Supported env.config.f p.levels (2 ^ 64) := .inr (by omega)
      have := (hgreatest ⟨_, hsup⟩).2 hsup
      have := (p.computed env).1.toNat_lt
      omega
    refine ⟨hmax, fun hconf ⟨v, hv, hsup⟩ w hw => ?_⟩
    have hle := (hgreatest ⟨v, hsup⟩).2 hsup
    obtain ⟨-, hnone⟩ | ⟨hcatch, hone, hthree, -⟩ | ⟨-, hthree, habove⟩ :=
      computed_cases hp.sorted hprior hmax
    · have := hnone w
      omega
    · -- the message has the views for catching up, but not the flag
      have hlast : p.lastView < p.proposed env :=
        (p.lt_proposed env).2 ⟨UInt64.lt_iff_toNat_lt.2 (by omega), hconf⟩
      have hreaches := haccepted _ (if_neg (UInt64.not_le.2 hlast)) 0
      obtain ⟨l, hsub, hlen, -⟩ := reaches_hasQuorum hreaches
      have hle := hsub.length_le
      rw [hlen, List.length_map] at hle
      have hshort : (p.attached (env.config.f + 1)).length ≤ env.config.f + 1 :=
        (List.length_filterMap_le _ _).trans (List.length_take_le _ _)
      simp only [viewQuorumSize, Option.getD_some, hcatch, if_true, Bool.false_eq_true,
        if_false] at hle
      omega
    · refine hthree.trans (support_anti ?_)
      by_contra hlt
      have := habove w (by omega)
      omega
  · rintro ⟨hmax, hmeets⟩
    refine ⟨computed_greatest hp.sorted hprior hmax, fun msg hmsg myView => ?_⟩
    by_cases hlast : p.proposed env ≤ p.lastView
    · rw [PendingViews.invokeFB, if_pos hlast] at hmsg
      cases hmsg
    rw [PendingViews.invokeFB, if_neg hlast] at hmsg
    obtain rfl := Option.some.inj hmsg
    rw [UInt64.not_le] at hlast
    obtain ⟨hcomputed, hconf⟩ := (p.lt_proposed env).1 hlast
    have hle := p.proposed_le env
    rw [UInt64.lt_iff_toNat_lt] at hcomputed hlast
    obtain ⟨hzero, -⟩ | ⟨-, hone, hthree, -⟩ | ⟨hnext, hthree, -⟩ :=
      computed_cases hp.sorted hprior hmax
    · omega
    · have := hmeets hconf ⟨_, hcomputed, .inl hone⟩ _ hone
      omega
    · simp only [hnext, Option.getD_some, Bool.false_eq_true, if_false]
      refine verifyFBViews_take hp hthree ?_ myView
      simp only [viewBound, Bool.false_eq_true, if_false]
      rw [UInt64.toNat_sub_of_le _ _ (UInt64.le_iff_toNat_le.2 (by simp; omega))]
      simp only [UInt64.reduceToNat]
      omega

def atThree (k : Nat) : PendingViews where
  currentViews r := some (3, some ⟨3, [7], r, ⟨r, [r.toUInt8]⟩⟩)
  levels := [(3, (List.range k).map UInt64.ofNat)]
  conflictView := 5

/-- With `f = 1`, two replicas are enough to catch up with view 3; the message is not accepted. -/
theorem invoke_rejected :
    let msg := (atThree 2).invokeFB .sample 0 [7] ⟨0, .commit, none, [7], none, none⟩
    (atThree 2).computed .sample = (3, true) ∧ msg.isSome = true ∧
      verifyFBViews .sample (msg.map (·.proposedView) |>.getD 0) (msg.any (·.catchup)) 0 [7]
        ((msg.bind (·.viewSigned)).getD []) 0 = false := by
  decide +kernel

theorem invoke_accepted_four :
    IsGreatest {v | Supported 1 (atThree 4).levels v} 4 := by
  have hp : Collected .sample 0 [7] (atThree 4) := by
    refine ⟨by decide, by decide +kernel, fun l hl r hr => ?_⟩
    obtain rfl := List.mem_singleton.1 hl
    refine ⟨_, rfl, rfl, rfl, rfl, ?_, by simp [Env.sample]⟩
    obtain ⟨i, hi, rfl⟩ := mem_map.1 hr
    obtain rfl | rfl | rfl | rfl : i = 0 ∨ i = 1 ∨ i = 2 ∨ i = 3 := by
      have := mem_range.1 hi
      omega
    all_goals decide
  have hmax : support (atThree 4).levels (2 ^ 64 - 1) = 0 := by decide +kernel
  refine ((invoke_accepted_iff .sample 0 [7] (atThree 4) hp (.inl rfl) 0
    ⟨0, .commit, none, [7], none, none⟩).2 ⟨by rw [hmax]; decide, fun _ _ w hw => ?_⟩).1
      ⟨3, .inl (by decide +kernel)⟩
  simp only [atThree, support_cons, support_nil] at hw ⊢
  split_ifs at hw ⊢ <;> simp_all [Env.sample]

end Sintr.Shard
