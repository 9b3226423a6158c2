import Mathlib.Data.List.Count

/-!
# Marking the entries of a list

Work that is spread over threads is a list of entries that get marked, at any position, as it gets
done, and counters of the marks.

* `exists_set_split`: the list around a position, before and after it is marked.
* `forall_mem_split`: what holds of the other elements still does.
* `forall_of_countP_le`: counters that agree, where one mark implies the other.
-/

namespace Marks

open List

variable {α : Type*}

theorem exists_set_split {l : List α} {i : Nat} {x : α} (h : l[i]? = some x) (y : α) :
    ∃ as bs, l = as ++ x :: bs ∧ l.set i y = as ++ y :: bs := by
  induction l generalizing i with
  | nil => simp at h
  | cons z l ih =>
    cases i with
    | zero =>
      obtain rfl : z = x := by simpa using h
      exact ⟨[], l, rfl, rfl⟩
    | succ i =>
      obtain ⟨as, bs, hl, hset⟩ := ih (by simpa using h)
      exact ⟨z :: as, bs, by rw [hl]; rfl, by rw [set_cons_succ, hset]; rfl⟩

theorem forall_mem_split {P Q : α → Prop} {l as bs : List α} {x y : α} (hl : l = as ++ x :: bs)
    (h : ∀ z ∈ l, P z) (hrest : ∀ z, P z → Q z) (hy : P x → Q y) : ∀ z ∈ as ++ y :: bs, Q z := by
  simp only [hl, forall_mem_append, forall_mem_cons] at h ⊢
  exact ⟨fun z hz => hrest z (h.1 z hz), hy h.2.1, fun z hz => hrest z (h.2.2 z hz)⟩

theorem forall_of_countP_le {p q : α → Bool} {l : List α}
    (hpq : ∀ x ∈ l, p x = true → q x = true) (hle : l.countP q ≤ l.countP p) :
    ∀ x ∈ l, q x = true → p x = true := by
  induction l with
  | nil => nofun
  | cons y l ih =>
    obtain ⟨hy, hl⟩ := forall_mem_cons.1 hpq
    have htail : l.countP p ≤ l.countP q := countP_mono_left hl
    rw [countP_cons, countP_cons] at hle
    have hhead : q y = true → p y = true := by
      intro hq
      by_contra hp
      rw [if_pos hq, if_neg hp] at hle
      omega
    have hle' : l.countP q ≤ l.countP p := by
      by_cases hq : q y = true
      · rw [if_pos hq, if_pos (hhead hq)] at hle
        omega
      · have hp : ¬ p y = true := fun hp => hq (hy hp)
        rw [if_neg hq, if_neg hp] at hle
        exact hle
    exact forall_mem_cons.2 ⟨hhead, ih hl hle'⟩

end Marks
