import Mathlib.Data.List.Nodup
import Mathlib.Logic.Function.Basic

/-!
# Boxes for ballots

Someone who waits for a quorum keeps the voters that were seen and the ballots, sorted into buckets.

* `Box.cast`: a ballot of a voter that was not seen before goes into a bucket.
* `Box.Holds`: the ballots of each bucket are of different voters that were seen, and meet what is
  asked for in that bucket; kept by `see` and `cast`.
-/

universe u v w

structure Box (β : Type u) (ι : Type v) (σ : Type w) where
  seen : List ι := []
  ballots : β → List σ := fun _ => []

namespace Box

open List

variable {β : Type u} {ι : Type v} {σ : Type w}

/-- The ballots of each bucket are of different voters that were seen, and as they should be. -/
structure Holds (voter : σ → ι) (P : β → σ → Prop) (b : Box β ι σ) : Prop where
  good : ∀ k, ∀ x ∈ b.ballots k, P k x
  seen : ∀ k, ∀ x ∈ b.ballots k, voter x ∈ b.seen
  nodup : ∀ k, ((b.ballots k).map voter).Nodup

variable {voter : σ → ι} {P : β → σ → Prop} {b : Box β ι σ}

theorem Holds.empty : Holds voter P ({} : Box β ι σ) where
  good := by simp
  seen := by simp
  nodup := by simp

/-! ## A voter is seen -/

def see (b : Box β ι σ) (i : ι) : Box β ι σ := { b with seen := i :: b.seen }

theorem Holds.see (h : Holds voter P b) (i : ι) : Holds voter P (b.see i) where
  good := h.good
  seen k x hx := mem_cons_of_mem _ (h.seen k x hx)
  nodup := h.nodup

/-! ## A ballot is cast -/

variable [DecidableEq β]

def cast (b : Box β ι σ) (i : ι) (k : β) (x : σ) : Box β ι σ where
  seen := i :: b.seen
  ballots := Function.update b.ballots k (b.ballots k ++ [x])

@[simp] theorem cast_seen (b : Box β ι σ) (i : ι) (k : β) (x : σ) :
    (b.cast i k x).seen = i :: b.seen := rfl

@[simp] theorem cast_ballots_self (b : Box β ι σ) (i : ι) (k : β) (x : σ) :
    (b.cast i k x).ballots k = b.ballots k ++ [x] := Function.update_self ..

theorem cast_ballots_of_ne (b : Box β ι σ) (i : ι) {k j : β} (x : σ) (h : j ≠ k) :
    (b.cast i k x).ballots j = b.ballots j := Function.update_of_ne h ..

theorem mem_cast_ballots {i : ι} {k j : β} {x y : σ} (h : y ∈ (b.cast i k x).ballots j) :
    y ∈ b.ballots j ∨ j = k ∧ y = x := by
  by_cases hj : j = k
  · subst hj
    rw [cast_ballots_self, mem_append, mem_singleton] at h
    exact h.imp_right fun hy => ⟨rfl, hy⟩
  · rw [cast_ballots_of_ne _ _ _ hj] at h
    exact .inl h

theorem Holds.cast (h : Holds voter P b) {k : β} {x : σ} (hnew : voter x ∉ b.seen)
    (hx : P k x) : Holds voter P (b.cast (voter x) k x) := by
  refine ⟨fun j y hy => ?_, fun j y hy => ?_, fun j => ?_⟩
  · obtain hy | ⟨rfl, rfl⟩ := mem_cast_ballots hy
    · exact h.good j y hy
    · exact hx
  · rw [cast_seen]
    obtain hy | ⟨rfl, rfl⟩ := mem_cast_ballots hy
    · exact mem_cons_of_mem _ (h.seen j y hy)
    · exact mem_cons_self
  · by_cases hj : j = k
    · subst hj
      rw [cast_ballots_self, map_append, map_singleton, nodup_append']
      refine ⟨h.nodup j, nodup_singleton _, ?_⟩
      rw [disjoint_singleton]
      intro hmem
      obtain ⟨y, hy, heq⟩ := mem_map.1 hmem
      exact hnew (heq ▸ h.seen j y hy)
    · rw [cast_ballots_of_ne _ _ _ hj]
      exact h.nodup j

end Box
