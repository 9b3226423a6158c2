import Mathlib.Data.List.Basic
import Mathlib.Order.Bounds.Basic
import Mathlib.Order.Preorder.Chain

/-!
# Folds that may fail, and their order

* `foldlM_perm`: a fold in `Option` whose rounds can be swapped does not depend on the order.
* `keepLeast_isLeast`, `keepLeast_of_chain`: what `keepLeast` finds is the least element, and it
  finds one in a chain.
-/

namespace PartialFold

open List Option

variable {α β : Type*}

/-! ## Rounds that can be swapped -/

theorem foldlM_eq_foldl (f : β → α → Option β) (l : List α) (o : Option β) :
    o.bind (fun b => l.foldlM f b) = l.foldl (fun o a => o.bind fun b => f b a) o := by
  induction l generalizing o with
  | nil => cases o <;> rfl
  | cons a l ih =>
    rw [foldl_cons, ← ih]
    cases o <;> rfl

theorem foldlM_perm {f : β → α → Option β} {l l' : List α} (hperm : l.Perm l')
    (hswap : ∀ x ∈ l, ∀ y ∈ l, ∀ b, (f b x).bind (fun c => f c y) = (f b y).bind fun c => f c x)
    (b : β) : l.foldlM f b = l'.foldlM f b := by
  have hfold : l.foldl (fun o a => o.bind fun b => f b a) (some b) =
      l'.foldl (fun o a => o.bind fun b => f b a) (some b) := by
    apply hperm.foldl_eq'
    intro x hx y hy o
    cases o with
    | none => rfl
    | some b => exact hswap x hx y hy b
  rw [← foldlM_eq_foldl, ← foldlM_eq_foldl] at hfold
  exact hfold

/-! ## Keeping the least -/

section Least
variable [PartialOrder α] [DecidableLE α]

def smaller (a b : α) : Option α := if a ≤ b then some a else if b ≤ a then some b else none

def keepLeast (a : α) (l : List α) : Option α := l.foldlM smaller a

def leastOf : List α → Option (Option α)
  | [] => some none
  | a :: l => (keepLeast a l).map some

variable {a : α} {l : List α}

theorem smaller_eq_some {b m : α} :
    smaller a b = some m → m ≤ a ∧ m ≤ b ∧ (m = a ∨ m = b) := by
  intro h
  unfold smaller at h
  split at h
  · rename_i hab
    cases h
    exact ⟨le_rfl, hab, .inl rfl⟩
  · split at h
    · rename_i hba
      cases h
      exact ⟨hba, le_rfl, .inr rfl⟩
    · cases h

theorem smaller_isSome {b : α} : (∃ m, smaller a b = some m) ↔ a ≤ b ∨ b ≤ a := by
  unfold smaller
  split_ifs with hab hba <;> simp [*]

theorem keepLeast_cons (a b : α) (l : List α) :
    keepLeast a (b :: l) = (smaller a b).bind fun m => keepLeast m l := rfl

theorem keepLeast_isLeast {m : α} (h : keepLeast a l = some m) :
    IsLeast {x | x ∈ a :: l} m := by
  induction l generalizing a with
  | nil =>
    cases h
    exact ⟨mem_cons_self, fun x hx => (mem_singleton.1 hx).ge⟩
  | cons b l ih =>
    rw [keepLeast_cons, bind_eq_some_iff] at h
    obtain ⟨c, hc, hrest⟩ := h
    obtain ⟨hca, hcb, hor⟩ := smaller_eq_some hc
    obtain ⟨hmem, hle⟩ := ih hrest
    have hmc : m ≤ c := hle mem_cons_self
    constructor
    · rcases mem_cons.1 hmem with rfl | hmem
      · rcases hor with rfl | rfl <;> simp
      · exact mem_cons_of_mem _ (mem_cons_of_mem _ hmem)
    · intro x hx
      rcases mem_cons.1 hx with rfl | hx
      · exact hmc.trans hca
      · rcases mem_cons.1 hx with rfl | hx
        · exact hmc.trans hcb
        · exact hle (mem_cons_of_mem _ hx)

theorem keepLeast_of_le (h : ∀ x ∈ l, a ≤ x) : keepLeast a l = some a := by
  induction l with
  | nil => rfl
  | cons b l ih =>
    rw [keepLeast_cons, smaller, if_pos (h b mem_cons_self)]
    exact ih fun x hx => h x (mem_cons_of_mem _ hx)

theorem keepLeast_of_chain (h : IsChain (· ≤ ·) {x | x ∈ a :: l}) :
    ∃ m, keepLeast a l = some m := by
  induction l generalizing a with
  | nil => exact ⟨a, rfl⟩
  | cons b l ih =>
    have hab : a ≤ b ∨ b ≤ a :=
      h.total mem_cons_self (mem_cons_of_mem _ mem_cons_self)
    obtain ⟨c, hc⟩ := smaller_isSome.2 hab
    rw [keepLeast_cons, hc]
    apply ih
    refine IsChain.mono ?_ h
    intro x hx
    rcases mem_cons.1 hx with rfl | hx
    · rcases (smaller_eq_some hc).2.2 with rfl | rfl <;> simp
    · exact mem_cons_of_mem _ (mem_cons_of_mem _ hx)

theorem leastOf_eq_some {o : Option α} (h : leastOf l = some o) :
    (l = [] ∧ o = none) ∨ ∃ m, o = some m ∧ IsLeast {x | x ∈ l} m := by
  cases l with
  | nil =>
    cases h
    exact .inl ⟨rfl, rfl⟩
  | cons a l =>
    obtain ⟨m, hm, rfl⟩ := map_eq_some_iff.1 h
    exact .inr ⟨m, rfl, keepLeast_isLeast hm⟩

theorem leastOf_agree {l' : List α} {o o' : Option α} (hperm : l.Perm l') (h : leastOf l = some o)
    (h' : leastOf l' = some o') : o = o' := by
  have hset : {x | x ∈ l} = {x | x ∈ l'} := by
    ext x
    exact hperm.mem_iff
  rcases leastOf_eq_some h with ⟨hl, rfl⟩ | ⟨m, rfl, hm⟩
  · rw [hl, nil_perm] at hperm
    rw [hperm] at h'
    cases h'
    rfl
  · rcases leastOf_eq_some h' with ⟨hl', rfl⟩ | ⟨m', rfl, hm'⟩
    · rw [hl', perm_nil] at hperm
      rw [hperm] at hm
      cases hm.1
    · rw [hset] at hm
      rw [hm.unique hm']

theorem leastOf_of_chain (h : IsChain (· ≤ ·) {x | x ∈ l}) :
    ∃ o, leastOf l = some o := by
  cases l with
  | nil => exact ⟨none, rfl⟩
  | cons a l =>
    obtain ⟨m, hm⟩ := keepLeast_of_chain h
    exact ⟨some m, by rw [leastOf, hm]; rfl⟩

theorem leastOf_perm_iff :
    (∀ l₁ l₂, l₁.Perm l → l₂.Perm l → leastOf l₁ = leastOf l₂) ↔
      IsChain (· ≤ ·) {x | x ∈ l} ∨ ¬ ∃ m, IsLeast {x | x ∈ l} m := by
  classical
  constructor
  · intro hagree
    rw [or_iff_not_imp_right, not_not]
    rintro ⟨m, hm, hle⟩ x hx y hy _
    by_contra hcomp
    have hxy : x ≠ y := fun h => hcomp (.inl h.le)
    -- the least element first succeeds, two elements that are not comparable first do not
    have hfirst : leastOf (m :: l.erase m) = some (some m) := by
      rw [leastOf, keepLeast_of_le fun z hz => hle (mem_of_mem_erase hz)]
      rfl
    have hpair : leastOf (x :: y :: (l.erase x).erase y) = none := by
      have hnone : smaller x y = none := by
        rw [eq_none_iff_forall_ne_some]
        exact fun c hc => hcomp (smaller_isSome.1 ⟨c, hc⟩)
      rw [leastOf, keepLeast_cons, hnone]
      rfl
    have hperm : (x :: y :: (l.erase x).erase y).Perm l := by
      have hy' : y ∈ l.erase x := (mem_erase_of_ne hxy.symm).2 hy
      exact ((perm_cons_erase hy').symm.cons x).trans (perm_cons_erase hx).symm
    have heq := hagree _ _ (perm_cons_erase hm).symm hperm
    rw [hfirst, hpair] at heq
    cases heq
  · intro hcond l₁ l₂ h₁ h₂
    have hset {l' : List α} (h : l'.Perm l) : {x | x ∈ l'} = {x | x ∈ l} := by
      ext x
      exact h.mem_iff
    rcases hcond with hchain | hnone
    · obtain ⟨o₁, ho₁⟩ := leastOf_of_chain ((hset h₁).symm ▸ hchain)
      obtain ⟨o₂, ho₂⟩ := leastOf_of_chain ((hset h₂).symm ▸ hchain)
      rw [ho₁, ho₂, leastOf_agree (h₁.trans h₂.symm) ho₁ ho₂]
    · by_cases hl : l = []
      · rw [hl, perm_nil] at h₁ h₂
        rw [h₁, h₂]
      · have hfail {l' : List α} (h : l'.Perm l) : leastOf l' = none := by
          rw [eq_none_iff_forall_ne_some]
          intro o ho
          rcases leastOf_eq_some ho with ⟨rfl, -⟩ | ⟨m, -, hm⟩
          · exact hl (nil_perm.1 h)
          · exact hnone ⟨m, hset h ▸ hm⟩
        rw [hfail h₁, hfail h₂]

end Least

end PartialFold
