import Mathlib.Data.Finset.Card
import Mathlib.Data.List.Count
import Mathlib.Data.List.Perm.Basic
import Mathlib.Data.List.TakeWhile
import Mathlib.Logic.Function.Basic

/-!
# Counting votes

A checker is handed votes and has to find enough of them, from different voters, that it can
believe. A vote is believed because it carries a valid signature, or because the checker knows it
anyway (`trusted`).

* `exists_common_voter`: large sets of voters share one that is not faulty.
* `verifyAsync`: the votes that need verification are verified by other threads, which report in
  any order (`reorder`), per group of voters; `verifyAsync_accept`, and for one group of voters
  `verifyAsync_hasQuorum`.
-/

namespace Quorum

open List

universe u v w

variable {α : Type u} {γ : Type v} {ι : Type w}

/-- How a check ends: its callback is told yes, or no, or is not called, or the process stops. -/
inductive Verdict where
  | accept
  | reject
  | silent
  | panic
  deriving DecidableEq, Repr

structure Ballot (γ : Type v) (ι : Type w) where
  group : γ
  voter : ι
  admitted : Bool
  /-- The checker counts the vote without looking at its signature. -/
  trusted : Bool
  valid : Bool

def Ballot.ok (b : Ballot γ ι) : Bool := b.trusted || b.valid

/-- Some `q` of the elements satisfy `P` and are from different voters. -/
def HasVoters {α : Type*} (voter : α → ι) (q : Nat) (P : α → Prop) (xs : List α) : Prop :=
  ∃ l : List α, l.Sublist xs ∧ l.length = q ∧ (l.map voter).Nodup ∧ ∀ x ∈ l, P x

variable {q : Nat} {P : Ballot γ ι → Prop} {bs : List (Ballot γ ι)}

theorem HasVoters.mono {α : Type*} {voter : α → ι} {P Q : α → Prop} {xs : List α}
    (h : HasVoters voter q P xs) (hPQ : ∀ x ∈ xs, P x → Q x) : HasVoters voter q Q xs := by
  obtain ⟨l, hsub, hlen, hnd, hP⟩ := h
  exact ⟨l, hsub, hlen, hnd, fun x hx => hPQ x (hsub.subset hx) (hP x hx)⟩

theorem HasVoters.all {α : Type*} {voter : α → ι} {P : α → Prop} {xs : List α}
    (h : HasVoters voter q P xs) (hlen : xs.length = q) :
    (xs.map voter).Nodup ∧ ∀ x ∈ xs, P x := by
  obtain ⟨l, hsub, hl, hnd, hP⟩ := h
  rw [← hsub.eq_of_length (hl.trans hlen.symm)]
  exact ⟨hnd, hP⟩

/-- Some `q` of the ballots satisfy `P` and are from different voters. -/
abbrev HasQuorum (q : Nat) (P : Ballot γ ι → Prop) (bs : List (Ballot γ ι)) : Prop :=
  HasVoters (·.voter) q P bs

theorem hasQuorum_of_le {l : List (Ballot γ ι)} (hsub : l.Sublist bs) (hlen : q ≤ l.length)
    (hnd : (l.map (·.voter)).Nodup) (hP : ∀ b ∈ l, P b) : HasQuorum q P bs := by
  refine ⟨l.take q, (take_sublist q l).trans hsub, length_take_of_le hlen, ?_, ?_⟩
  · exact hnd.sublist ((take_sublist q l).map _)
  · intro b hb
    exact hP b (mem_of_mem_take hb)

section
variable [DecidableEq ι]

/-- Count the votes; a vote that is not believed, or a second one of its voter, spoils the count. -/
def tally : List (Ballot γ ι) → List ι → Nat → Option Nat
  | [], _, k => some k
  | b :: bs, seen, k =>
    if b.admitted && b.ok && b.voter ∉ seen then tally bs (b.voter :: seen) (k + 1) else none

/-- Count the votes up to `q`, and look no further. -/
def reaches (q : Nat) : List (Ballot γ ι) → List ι → Nat → Bool
  | [], _, _ => false
  | b :: bs, seen, k =>
    if b.admitted && b.ok && b.voter ∉ seen then
      if k + 1 = q then true else reaches q bs (b.voter :: seen) (k + 1)
    else false

theorem tally_eq_some_iff {bs : List (Ballot γ ι)} {seen : List ι} {k m : Nat} :
    tally bs seen k = some m ↔ (∀ b ∈ bs, b.admitted = true ∧ b.ok = true) ∧
      (bs.map (·.voter)).Nodup ∧ (∀ b ∈ bs, b.voter ∉ seen) ∧ m = k + bs.length := by
  induction bs generalizing seen k with
  | nil =>
    rw [tally, Option.some.injEq]
    constructor
    · rintro rfl; simp
    · rintro ⟨-, -, -, rfl⟩; rfl
  | cons b bs ih =>
    simp only [tally, Bool.and_eq_true, decide_eq_true_eq]
    split
    · rename_i hb
      rw [ih]
      simp only [mem_cons, forall_eq_or_imp, map_cons, nodup_cons, mem_map,
        not_exists, not_and, length_cons, not_or]
      constructor
      · rintro ⟨h1, h2, h3, rfl⟩
        exact ⟨⟨hb.1, h1⟩, ⟨fun x hx => (h3 x hx).1, h2⟩, ⟨hb.2, fun x hx => (h3 x hx).2⟩, by omega⟩
      · rintro ⟨⟨-, h1⟩, ⟨h4, h2⟩, ⟨-, h3⟩, rfl⟩
        exact ⟨h1, h2, fun x hx => ⟨h4 x hx, h3 x hx⟩, by omega⟩
    · rename_i hb
      constructor
      · intro h; cases h
      · rintro ⟨h1, -, h3, -⟩
        exact absurd ⟨h1 b mem_cons_self, h3 b mem_cons_self⟩ hb

theorem tally_eq_some {bs : List (Ballot γ ι)} {m : Nat} :
    tally bs [] 0 = some m ↔ (∀ b ∈ bs, b.admitted = true ∧ b.ok = true) ∧
      (bs.map (·.voter)).Nodup ∧ m = bs.length := by
  rw [tally_eq_some_iff]
  simp

theorem reaches_cases {q : Nat} {bs : List (Ballot γ ι)} {seen : List ι} {k : Nat}
    (h : reaches q bs seen k = true) : ∃ l, l <+: bs ∧ k + l.length = q ∧
      (l.map (·.voter)).Nodup ∧ ∀ b ∈ l, (b.admitted = true ∧ b.ok = true) ∧ b.voter ∉ seen := by
  induction bs generalizing seen k with
  | nil => cases h
  | cons b bs ih =>
    simp only [reaches, Bool.and_eq_true, decide_eq_true_eq] at h
    split at h
    · rename_i hb
      split at h
      · refine ⟨[b], cons_prefix_cons.2 ⟨rfl, nil_prefix⟩, ‹_›, by simp, ?_⟩
        simpa using hb
      · obtain ⟨l, hl, hlen, hnd, hall⟩ := ih h
        refine ⟨b :: l, cons_prefix_cons.2 ⟨rfl, hl⟩, by simp; omega, ?_, ?_⟩
        · simp only [map_cons, nodup_cons, mem_map, not_exists, not_and]
          exact ⟨fun x hx hv => (hall x hx).2 (hv ▸ mem_cons_self), hnd⟩
        · intro x hx
          rcases mem_cons.1 hx with rfl | hx
          · exact hb
          · exact ⟨(hall x hx).1, fun hmem => (hall x hx).2 (mem_cons_of_mem _ hmem)⟩
    · cases h

theorem reaches_of_all {q : Nat} {bs : List (Ballot γ ι)} {seen : List ι} {k : Nat} (hk : k < q)
    (hq : q ≤ k + bs.length) (hall : ∀ b ∈ bs, b.admitted = true ∧ b.ok = true)
    (hnd : (bs.map (·.voter) ++ seen).Nodup) (r : List (Ballot γ ι)) :
    reaches q (bs ++ r) seen k = true := by
  induction bs generalizing seen k with
  | nil => simp only [length_nil] at hq; omega
  | cons b bs ih =>
    obtain ⟨hb, hall⟩ := forall_mem_cons.1 hall
    have hnew : b.voter ∉ seen := by
      simp only [map_cons, cons_append, nodup_cons, mem_append, not_or] at hnd
      exact hnd.1.2
    simp only [cons_append, reaches, hb, hnew, Bool.and_self, not_false_eq_true, decide_true,
      if_true]
    split_ifs with hlast
    · rfl
    · refine ih (by omega) (by simp only [length_cons] at hq; omega) hall ?_
      exact (perm_middle.nodup_iff).2 hnd

theorem reaches_hasQuorum {q : Nat} {bs : List (Ballot γ ι)} (h : reaches q bs [] 0 = true) :
    HasQuorum q (fun b => b.admitted = true ∧ b.ok = true) bs := by
  obtain ⟨l, hpre, hlen, hnd, hall⟩ := reaches_cases h
  exact ⟨l, hpre.sublist, by omega, hnd, fun b hb => (hall b hb).1⟩

end

/-! ## Verification by other threads -/

/-- The votes counted so far: a group is complete at `quorumSize` votes, the check at `groupTotals`
complete groups. -/
structure Count (γ : Type v) where
  quorumSize : Nat
  groupTotals : Nat
  groupCounts : γ → Nat := fun _ => 0
  groupsVerified : Nat := 0

/-- The elements in the order in which a schedule picks them. -/
def reorder : List Nat → List α → List α
  | [], xs => xs
  | i :: is, xs =>
    match xs[i % xs.length]? with
    | some x => x :: reorder is (xs.eraseIdx (i % xs.length))
    | none => xs

theorem reorder_perm (is : List Nat) (xs : List α) : (reorder is xs).Perm xs := by
  induction is generalizing xs with
  | nil => exact .refl xs
  | cons i is ih =>
    unfold reorder
    split
    · rename_i x hx
      obtain ⟨hlt, rfl⟩ := List.getElem?_eq_some_iff.1 hx
      exact ((ih _).cons _).trans (getElem_cons_eraseIdx_perm hlt)
    · exact .refl xs

section
variable [DecidableEq γ]

/-- One more vote of `g`; the flag says that the check is complete. -/
def Count.add (c : Count γ) (g : γ) : Count γ × Bool :=
  let n := c.groupCounts g + 1
  let counts := Function.update c.groupCounts g n
  if n = c.quorumSize then
    ({ c with groupCounts := counts, groupsVerified := c.groupsVerified + 1 },
      c.groupsVerified + 1 = c.groupTotals)
  else ({ c with groupCounts := counts }, false)

/-- The threads report one after the other; each report says whether a signature was valid. -/
def Count.complete : Count γ → List (γ × Bool) → Verdict
  | _, [] => .panic
  | c, (g, valid) :: js =>
    if !valid then .panic
    else
      let r := c.add g
      if r.2 then .accept else r.1.complete js

variable [DecidableEq ι]

/-- The pass that hands out the verifications; `onBad` is its answer to a vote that is not admitted
or a second one of its voter. -/
def collect (onBad : Verdict) : List (Ballot γ ι) → List (γ × ι) → Count γ → List (γ × Bool) →
    Verdict ⊕ (Count γ × List (γ × Bool))
  | [], _, c, js => .inr (c, js)
  | b :: bs, seen, c, js =>
    if !b.admitted || (b.group, b.voter) ∈ seen then .inl onBad
    else if b.trusted then
      let r := c.add b.group
      if r.2 then .inl .accept else collect onBad bs ((b.group, b.voter) :: seen) r.1 js
    else collect onBad bs ((b.group, b.voter) :: seen) c (js ++ [(b.group, b.valid)])

/-- Hand out the verifications and count the reports; a report names its group by `slot`. -/
def verifyAsync (slot : γ → γ) (onBad : Verdict) (schedule : List Nat) (bs : List (Ballot γ ι))
    (c : Count γ) : Verdict :=
  match collect onBad bs [] c [] with
  | .inl v => v
  | .inr (_, []) => .silent
  | .inr (c, js) => c.complete ((reorder schedule js).map (Prod.map slot id))

/-! ## Names with a quorum -/

def Complete (q t : Nat) (counted : List γ) : Prop :=
  ∃ gs : List γ, gs.Nodup ∧ gs.length = t ∧ ∀ g ∈ gs, q ≤ counted.count g

def full (q : Nat) (counted : List γ) : Finset γ :=
  counted.toFinset.filter fun g => q ≤ counted.count g

section
variable {q t : Nat} {counted counted' : List γ} {g : γ}

theorem Complete.mono (h : Complete q t counted)
    (hle : ∀ g, counted.count g ≤ counted'.count g) : Complete q t counted' := by
  obtain ⟨gs, hnd, hlen, hq⟩ := h
  exact ⟨gs, hnd, hlen, fun g hg => Nat.le_trans (hq g hg) (hle g)⟩

theorem mem_full (hq : 0 < q) : g ∈ full q counted ↔ q ≤ counted.count g := by
  simp only [full, Finset.mem_filter, mem_toFinset, and_iff_right_iff_imp]
  intro hle
  exact count_pos_iff.1 (by omega)

theorem full_perm (hp : counted.Perm counted') : full q counted = full q counted' := by
  ext g
  simp only [full, Finset.mem_filter, mem_toFinset, hp.mem_iff, hp.count_eq]

theorem full_subset (hq : 0 < q) (hle : ∀ g, counted.count g ≤ counted'.count g) :
    full q counted ⊆ full q counted' := by
  intro g hg
  rw [mem_full hq] at hg ⊢
  exact Nat.le_trans hg (hle g)

theorem full_cons (hq : 0 < q) :
    full q (g :: counted) =
      if counted.count g + 1 = q then insert g (full q counted) else full q counted := by
  ext x
  split
  · rename_i hfull
    rw [Finset.mem_insert, mem_full hq, mem_full hq, count_cons]
    by_cases hx : x = g
    · subst hx
      simp [hfull]
    · simp [hx, Ne.symm hx]
  · rename_i hfull
    rw [mem_full hq, mem_full hq, count_cons]
    by_cases hx : x = g
    · subst hx
      simp only [beq_self_eq_true, if_true]
      omega
    · simp [Ne.symm hx]

theorem complete_of_full (hq : 0 < q) (ht : t ≤ (full q counted).card) :
    Complete q t counted := by
  refine ⟨(full q counted).toList.take t, ?_, ?_, ?_⟩
  · exact (Finset.nodup_toList _).sublist (take_sublist _ _)
  · rw [length_take_of_le (by rwa [Finset.length_toList])]
  · intro g hg
    exact (mem_full hq).1 (Finset.mem_toList.1 (mem_of_mem_take hg))

end

/-! ## Counting exactly -/

structure Count.Exactly (c : Count γ) (counted : List γ) : Prop where
  pos : 0 < c.quorumSize
  counts : ∀ g, c.groupCounts g = counted.count g
  verified : c.groupsVerified = (full c.quorumSize counted).card

omit [DecidableEq ι] in
theorem Count.add_sizes (c : Count γ) (g : γ) : (c.add g).1.quorumSize = c.quorumSize ∧
    (c.add g).1.groupTotals = c.groupTotals := by
  unfold Count.add
  dsimp only
  split <;> exact ⟨rfl, rfl⟩

theorem Count.Exactly.start {q : Nat} (hq : 0 < q) (t : Nat) :
    ({ quorumSize := q, groupTotals := t } : Count γ).Exactly [] :=
  ⟨hq, fun _ => rfl, rfl⟩

variable {c : Count γ} {counted counted' : List γ}

theorem Count.Exactly.perm (h : c.Exactly counted) (hp : counted.Perm counted') :
    c.Exactly counted' :=
  ⟨h.pos, fun g => (h.counts g).trans (hp.count_eq g), by rw [h.verified, full_perm hp]⟩

theorem Count.Exactly.add (h : c.Exactly counted) (g : γ) :
    (c.add g).1.Exactly (g :: counted) ∧ ((c.add g).2 = true ↔
      counted.count g + 1 = c.quorumSize ∧
        (full c.quorumSize (g :: counted)).card = c.groupTotals) := by
  have hcounts : ∀ x, Function.update c.groupCounts g (counted.count g + 1) x =
      (g :: counted).count x := by
    intro x
    rw [count_cons, ← h.counts, ← h.counts]
    by_cases hx : x = g
    · subst hx
      simp
    · simp [Function.update_of_ne hx, Ne.symm hx]
  have hcons : full c.quorumSize (g :: counted) = _ := full_cons h.pos
  unfold Count.add
  dsimp only
  rw [h.counts g]
  split
  · rename_i hfull
    have hnew : g ∉ full c.quorumSize counted := by
      rw [mem_full h.pos]
      omega
    have hcard : (full c.quorumSize (g :: counted)).card = c.groupsVerified + 1 := by
      rw [hcons, if_pos hfull, Finset.card_insert_of_notMem hnew, h.verified]
    refine ⟨⟨h.pos, hcounts, hcard.symm⟩, ?_⟩
    rw [hcard]
    simp [hfull]
  · rename_i hfull
    refine ⟨⟨h.pos, hcounts, ?_⟩, by simp [hfull]⟩
    show c.groupsVerified = _
    rw [hcons, if_neg hfull, h.verified]

/-! ## Votes that do not complete the check -/

def Count.addAll (c : Count γ) (gs : List γ) : Count γ := gs.foldl (fun c g => (c.add g).1) c

def Count.quiet : Count γ → List γ → Bool
  | _, [] => true
  | c, g :: gs => !(c.add g).2 && (c.add g).1.quiet gs

theorem Count.addAll_sizes (c : Count γ) (gs : List γ) :
    (c.addAll gs).quorumSize = c.quorumSize ∧ (c.addAll gs).groupTotals = c.groupTotals := by
  induction gs generalizing c with
  | nil => exact ⟨rfl, rfl⟩
  | cons g gs ih =>
    obtain ⟨hq, ht⟩ := ih (c.add g).1
    obtain ⟨hq', ht'⟩ := c.add_sizes g
    exact ⟨hq.trans hq', ht.trans ht'⟩

theorem Count.Exactly.addAll (h : c.Exactly counted) (gs : List γ) :
    (c.addAll gs).Exactly (counted ++ gs) := by
  induction gs generalizing c counted with
  | nil =>
    rw [append_nil]
    exact h
  | cons g gs ih => exact (ih (h.add g).1).perm perm_middle.symm

theorem Count.quiet_append (c : Count γ) (gs gs' : List γ) :
    c.quiet (gs ++ gs') = (c.quiet gs && (c.addAll gs).quiet gs') := by
  induction gs generalizing c with
  | nil => rfl
  | cons g gs ih => rw [cons_append, Count.quiet, ih, Count.quiet, Bool.and_assoc]; rfl

theorem Count.quiet_zero (hq : c.quorumSize = 0) (gs : List γ) : c.quiet gs = true := by
  induction gs generalizing c with
  | nil => rfl
  | cons g gs ih =>
    have hflag : (c.add g).2 = false := by simp [Count.add, hq]
    rw [Count.quiet, hflag, ih ((c.add_sizes g).1.trans hq)]
    rfl

theorem Count.quiet_iff (h : c.Exactly counted) (gs : List γ)
    (hbelow : 1 ≤ c.groupTotals → (full c.quorumSize counted).card < c.groupTotals) :
    c.quiet gs = true ↔
      (1 ≤ c.groupTotals → (full c.quorumSize (counted ++ gs)).card < c.groupTotals) := by
  induction gs generalizing c counted with
  | nil =>
    rw [append_nil]
    exact iff_of_true rfl hbelow
  | cons g gs ih =>
    obtain ⟨hstep, hdone⟩ := h.add g
    obtain ⟨hsize, htotal⟩ := c.add_sizes g
    have hmid : (g :: counted ++ gs).Perm (counted ++ g :: gs) := perm_middle.symm
    rw [Count.quiet, Bool.and_eq_true, Bool.not_eq_true', Bool.eq_false_iff, ne_eq, hdone,
      ← full_perm hmid]
    by_cases hnow : counted.count g + 1 = c.quorumSize ∧
        (full c.quorumSize (g :: counted)).card = c.groupTotals
    · -- complete now, and more votes cannot take that back
      refine iff_of_false (fun hq => hq.1 hnow) fun hlater => ?_
      have hpos : 1 ≤ c.groupTotals := by
        rw [← hnow.2, Nat.one_le_iff_ne_zero, Finset.card_ne_zero]
        exact ⟨g, (mem_full h.pos).2 (by rw [count_cons_self, hnow.1])⟩
      have hle := Finset.card_le_card (full_subset h.pos fun x =>
        List.Sublist.count_le x (sublist_append_left (g :: counted) gs))
      have hlt := hlater hpos
      omega
    · have hbelow' : 1 ≤ c.groupTotals →
          (full c.quorumSize (g :: counted)).card < c.groupTotals := by
        intro hpos
        have hlt := hbelow hpos
        rw [full_cons h.pos] at hnow ⊢
        split at hnow
        · rename_i hfull
          rw [if_pos hfull]
          have hle := Finset.card_insert_le g (full c.quorumSize counted)
          have hne : (insert g (full c.quorumSize counted)).card ≠ c.groupTotals :=
            fun heq => hnow ⟨hfull, heq⟩
          omega
        · rename_i hfull
          rwa [if_neg hfull]
      rw [← hsize, ← htotal] at hbelow' ⊢
      rw [ih hstep hbelow']
      exact and_iff_right (by rwa [hsize, htotal])

theorem complete_of_not_quiet {q t : Nat} {gs : List γ}
    (h : Count.quiet { quorumSize := q, groupTotals := t } gs ≠ true) : Complete q t gs := by
  rcases Nat.eq_zero_or_pos q with rfl | hq
  · exact absurd (Count.quiet_zero rfl gs) h
  · rw [ne_eq, Count.quiet_iff (Count.Exactly.start hq t) _ fun hpos => hpos,
      nil_append, Classical.not_imp, not_lt] at h
    exact complete_of_full hq h.2

theorem Count.complete_eq (c : Count γ) (js : List (γ × Bool)) :
    c.complete js = if c.quiet ((js.takeWhile (·.2)).map (·.1)) then .panic else .accept := by
  induction js generalizing c with
  | nil => rfl
  | cons j js ih =>
    obtain ⟨g, valid⟩ := j
    cases valid with
    | false => rfl
    | true => cases hdone : (c.add g).2 <;> simp [Count.complete, Count.quiet, hdone, ih]

/-! ## How the pass over the votes ends -/

def Passed (bs : List (Ballot γ ι)) : Prop :=
  (bs.map fun b => (b.group, b.voter)).Nodup ∧ ∀ b ∈ bs, b.admitted = true

def trustedGroups (bs : List (Ballot γ ι)) : List γ := (bs.filter (·.trusted)).map (·.group)

def jobs (bs : List (Ballot γ ι)) : List (γ × Bool) :=
  (bs.filter (!·.trusted)).map fun b => (b.group, b.valid)

omit [DecidableEq γ] [DecidableEq ι] in
theorem trustedGroups_cons (b : Ballot γ ι) (bs : List (Ballot γ ι)) : trustedGroups (b :: bs) =
    if b.trusted then b.group :: trustedGroups bs else trustedGroups bs := by
  cases ht : b.trusted <;> simp [trustedGroups, ht]

omit [DecidableEq γ] [DecidableEq ι] in
theorem jobs_cons (b : Ballot γ ι) (bs : List (Ballot γ ι)) :
    jobs (b :: bs) = if b.trusted then jobs bs else (b.group, b.valid) :: jobs bs := by
  cases ht : b.trusted <;> simp [jobs, ht]

def goneThrough : List (Ballot γ ι) → List (γ × ι) → List (Ballot γ ι)
  | [], _ => []
  | b :: bs, seen =>
    if !b.admitted || (b.group, b.voter) ∈ seen then []
    else b :: goneThrough bs ((b.group, b.voter) :: seen)

theorem collect_eq (onBad : Verdict) (bs : List (Ballot γ ι)) (seen : List (γ × ι)) (c : Count γ)
    (js : List (γ × Bool)) :
    collect onBad bs seen c js =
      if c.quiet (trustedGroups (goneThrough bs seen)) then
        if (goneThrough bs seen).length = bs.length then
          .inr (c.addAll (trustedGroups bs), js ++ jobs bs)
        else .inl onBad
      else .inl .accept := by
  induction bs generalizing seen c js with
  | nil => simp [collect, goneThrough, trustedGroups, jobs, Count.quiet, Count.addAll]
  | cons b bs ih =>
    unfold collect goneThrough
    cases hbad : !b.admitted || decide ((b.group, b.voter) ∈ seen) with
    | true => rfl
    | false =>
      simp only [Bool.false_eq_true, if_false, trustedGroups_cons, jobs_cons, length_cons,
        Nat.add_right_cancel_iff]
      cases ht : b.trusted with
      | true =>
        cases hdone : (c.add b.group).2 <;> simp [Count.quiet, hdone, ih, Count.addAll]
      | false => simp [ih]

theorem goneThrough_spec (bs : List (Ballot γ ι)) (seen : List (γ × ι)) :
    Passed (goneThrough bs seen) ∧ (∀ b ∈ goneThrough bs seen, (b.group, b.voter) ∉ seen) ∧
      (goneThrough bs seen = bs ∨ ∃ b post, bs = goneThrough bs seen ++ b :: post ∧
        (b.admitted = false ∨ (b.group, b.voter) ∈ seen ∨
          (b.group, b.voter) ∈ (goneThrough bs seen).map fun b => (b.group, b.voter))) := by
  induction bs generalizing seen with
  | nil => exact ⟨⟨nodup_nil, nofun⟩, nofun, .inl rfl⟩
  | cons b bs ih =>
    unfold goneThrough
    by_cases hbad : b.admitted = false ∨ (b.group, b.voter) ∈ seen
    · rw [if_pos (by simpa using hbad)]
      exact ⟨⟨nodup_nil, nofun⟩, nofun, .inr ⟨b, bs, rfl, hbad.imp_right .inl⟩⟩
    · rw [if_neg (by simpa using hbad)]
      rw [not_or, Bool.not_eq_false] at hbad
      obtain ⟨⟨hnd, hadm⟩, hnew, hrest⟩ := ih ((b.group, b.voter) :: seen)
      refine ⟨⟨?_, ?_⟩, ?_, ?_⟩
      · rw [map_cons, nodup_cons]
        refine ⟨fun hmem => ?_, hnd⟩
        obtain ⟨x, hx, heq⟩ := mem_map.1 hmem
        exact hnew x hx (heq ▸ mem_cons_self)
      · exact forall_mem_cons.2 ⟨hbad.1, hadm⟩
      · exact forall_mem_cons.2
          ⟨hbad.2, fun x hx hmem => hnew x hx (mem_cons_of_mem _ hmem)⟩
      · rcases hrest with heq | ⟨x, post, heq, hx⟩
        · exact .inl (by rw [heq])
        · refine .inr ⟨x, post, by rw [cons_append, ← heq], ?_⟩
          rw [map_cons, mem_cons]
          rw [mem_cons] at hx
          tauto

theorem goneThrough_initial (bs : List (Ballot γ ι)) (seen : List (γ × ι)) :
    goneThrough bs seen <+: bs := by
  rcases (goneThrough_spec bs seen).2.2 with heq | ⟨b, post, heq, -⟩
  · rw [heq]
  · exact ⟨b :: post, heq.symm⟩

def Ballot.key (slot : γ → γ) (b : Ballot γ ι) : γ := if b.trusted then b.group else slot b.group

omit [DecidableEq ι] in
theorem count_believed (slot : γ → γ) (bs : List (Ballot γ ι)) (g : γ) :
    (trustedGroups bs ++ (((jobs bs).map (Prod.map slot id)).filter (·.2)).map (·.1)).count g =
      ((bs.filter (·.ok)).map (·.key slot)).count g := by
  induction bs with
  | nil => rfl
  | cons b bs ih =>
    simp only [trustedGroups, jobs, count_append] at ih ⊢
    cases ht : b.trusted <;> cases hv : b.valid <;>
      simp [ht, hv, Ballot.ok, Ballot.key, count_cons] at ih ⊢ <;> omega

/-- Whatever the schedule: acceptance means that among the votes that were gone through enough names
have a quorum of believed votes. -/
theorem verifyAsync_accept {slot : γ → γ} {onBad : Verdict} (hbad : onBad ≠ .accept)
    {schedule : List Nat} {bs : List (Ballot γ ι)} {q t : Nat}
    (h : verifyAsync slot onBad schedule bs { quorumSize := q, groupTotals := t } = .accept) :
    ∃ p, p <+: bs ∧ Passed p ∧ Complete q t ((p.filter (·.ok)).map (·.key slot)) := by
  obtain ⟨hpass, -⟩ := goneThrough_spec bs []
  have hpre := goneThrough_initial bs []
  unfold verifyAsync at h
  rw [collect_eq] at h
  split at h
  · rename_i v hv
    split_ifs at hv with hquiet hall
    · obtain rfl := Sum.inl.inj hv
      exact absurd h hbad
    · refine ⟨_, hpre, hpass, (complete_of_not_quiet hquiet).mono fun g => ?_⟩
      rw [← count_believed slot, count_append]
      exact Nat.le_add_right _ _
  · cases h
  · rename_i c js hjs hv
    split_ifs at hv with hquiet hall
    obtain ⟨rfl, rfl⟩ := Prod.mk.inj (Sum.inr.inj hv)
    rw [hpre.eq_of_length hall] at hpass hquiet
    rw [Count.complete_eq] at h
    split_ifs at h with hloud
    let reports := (reorder schedule (jobs bs)).map (Prod.map slot id)
    have hcomplete : Complete q t (trustedGroups bs ++ (reports.takeWhile (·.2)).map (·.1)) := by
      refine complete_of_not_quiet fun hq => ?_
      rw [Count.quiet_append, Bool.and_eq_true] at hq
      exact hloud hq.2
    refine ⟨bs, prefix_rfl, hpass, hcomplete.mono fun g => ?_⟩
    have hsub := (List.takeWhile_prefix (l := reports) (·.2)).sublist.filter (·.2)
    rw [filter_eq_self.2 fun j hj => mem_takeWhile_imp hj] at hsub
    have hperm := ((((reorder_perm schedule (jobs bs)).map (Prod.map slot id)).filter
      (·.2)).map (·.1)).count_eq g
    rw [← count_believed slot, count_append, count_append, ← hperm]
    exact Nat.add_le_add_left ((hsub.map (·.1)).count_le g) _

omit [DecidableEq γ] [DecidableEq ι] in
theorem hasQuorum_of_passed {p bs : List (Ballot γ ι)} {g : γ} (hp : p <+: bs) (h : Passed p)
    (hg : ∀ b ∈ bs, b.group = g) {q : Nat} (hq : q ≤ (p.filter (·.ok)).length) :
    HasQuorum q (fun b => b.admitted = true ∧ b.ok = true) bs := by
  refine hasQuorum_of_le (filter_sublist.trans hp.sublist) hq ?_ ?_
  · have hnd : ((p.filter (·.ok)).map fun b => (b.group, b.voter)).Nodup :=
      h.1.sublist (filter_sublist.map _)
    rw [List.Nodup, pairwise_map] at hnd ⊢
    refine hnd.imp_of_mem fun {a b} ha hb hne heq => hne ?_
    rw [hg a (hp.subset (mem_filter.1 ha).1), hg b (hp.subset (mem_filter.1 hb).1), heq]
  · intro b hb
    obtain ⟨hmem, hok⟩ := mem_filter.1 hb
    exact ⟨h.2 b hmem, hok⟩

theorem verifyAsync_hasQuorum {slot : γ → γ} {onBad : Verdict} (hbad : onBad ≠ .accept)
    {schedule : List Nat} {bs : List (Ballot γ ι)} {q : Nat} {g : γ} (hg : ∀ b ∈ bs, b.group = g)
    (h : verifyAsync slot onBad schedule bs { quorumSize := q, groupTotals := 1 } = .accept) :
    HasQuorum q (fun b => b.admitted = true ∧ b.ok = true) bs := by
  obtain ⟨p, hp, hpass, keys, -, hlen, hq⟩ := verifyAsync_accept hbad h
  obtain ⟨k, rfl⟩ := length_eq_one_iff.1 hlen
  apply hasQuorum_of_passed hp hpass hg
  have hcount := Nat.le_trans (hq k mem_cons_self) count_le_length
  rwa [length_map] at hcount

omit [DecidableEq ι] in
theorem Complete.mul_le {q t : Nat} {counted : List γ} (h : Complete q t counted) :
    t * q ≤ counted.length := by
  obtain ⟨gs, hnd, rfl, hq⟩ := h
  induction gs generalizing counted with
  | nil => simp
  | cons g gs ih =>
    rw [nodup_cons] at hnd
    have hrest : ∀ g' ∈ gs, q ≤ (counted.filter (· ≠ g)).count g' := by
      intro g' hg'
      have hne : g' ≠ g := fun heq => hnd.1 (heq ▸ hg')
      rw [count_filter (by simpa using hne)]
      exact hq g' (mem_cons_of_mem _ hg')
    have hle := ih hnd.2 hrest
    have hself := hq g mem_cons_self
    have hsplit := length_eq_length_filter_add (l := counted) (· ≠ g)
    have hcount : (counted.filter fun x => !decide (x ≠ g)).length = counted.count g := by
      rw [count_eq_countP, countP_eq_length_filter]
      congr 1
      apply filter_congr
      intro x _
      simp [Bool.beq_eq_decide_eq]
    rw [length_cons, Nat.add_mul, Nat.one_mul]
    omega

end

end Quorum
