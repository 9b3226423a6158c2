import Mathlib.Data.List.Basic
import Mathlib.Logic.Function.Basic

/-!
# Loops that update a map

A loop changes a map at one key after the other: `updates us m` applies the changes `us` in order.

* `updates_induct`: what every change keeps holds of all values after the loop.
* `updates_reach`: what one change establishes and the others keep holds at its key.
* `update_eq_some`: the entries of a table after one of them is set or removed;
  `exists_update_some`, `exists_update_none`: what some entry of it meets.
* `updates_const`: a loop that makes the same idempotent change at several keys.
-/

universe u v

variable {K : Type u} {V : Type v} [DecidableEq K]

variable {f : K → Option V} {k : K} {P : V → Prop} {us : List (K × (V → V))}

theorem update_eq_some {j : K} {o : Option V} {v : V} :
    Function.update f k o j = some v ↔ j = k ∧ o = some v ∨ j ≠ k ∧ f j = some v := by
  by_cases h : j = k
  · subst h
    simp
  · simp [h]

theorem exists_update_some {v : V} (h : f k = none) :
    (∃ j w, Function.update f k (some v) j = some w ∧ P w) ↔ (∃ j w, f j = some w ∧ P w) ∨ P v := by
  constructor
  · rintro ⟨j, w, hw, hP⟩
    obtain ⟨-, heq⟩ | ⟨-, hold⟩ := update_eq_some.1 hw
    · cases heq
      exact .inr hP
    · exact .inl ⟨j, w, hold, hP⟩
  · rintro (⟨j, w, hw, hP⟩ | hP)
    · refine ⟨j, w, update_eq_some.2 (.inr ⟨?_, hw⟩), hP⟩
      rintro rfl
      rw [h] at hw
      cases hw
    · exact ⟨k, v, Function.update_self .., hP⟩

theorem exists_update_none :
    (∃ j w, Function.update f k none j = some w ∧ P w) ↔ ∃ j w, j ≠ k ∧ f j = some w ∧ P w := by
  simp only [update_eq_some, reduceCtorEq, and_false, false_or, and_assoc]

/-- The changes `us`, each at its key, one after the other. -/
def updates (us : List (K × (V → V))) (m : K → V) : K → V :=
  us.foldl (fun m u => Function.update m u.1 (u.2 (m u.1))) m

@[simp] theorem updates_nil (m : K → V) : updates [] m = m := rfl

@[simp] theorem updates_cons (u : K × (V → V)) (us : List (K × (V → V))) (m : K → V) :
    updates (u :: us) m = updates us (Function.update m u.1 (u.2 (m u.1))) := rfl

theorem updates_append (us us' : List (K × (V → V))) (m : K → V) :
    updates (us ++ us') m = updates us' (updates us m) := List.foldl_append

theorem updates_induct {P : K → V → Prop} {m : K → V} (h : P k (m k))
    (hstep : ∀ u ∈ us, u.1 = k → ∀ v, P k v → P k (u.2 v)) :
    P k (updates us m k) := by
  induction us generalizing m with
  | nil => exact h
  | cons u us ih =>
    rw [updates_cons]
    refine ih ?_ fun u' hu' => hstep u' (List.mem_cons_of_mem _ hu')
    by_cases hk : u.1 = k
    · rw [← hk, Function.update_self, hk]
      exact hstep u List.mem_cons_self hk (m k) h
    · rw [Function.update_of_ne (Ne.symm hk)]
      exact h

theorem updates_reach {m : K → V} {u : K × (V → V)} (hu : u ∈ us) (h : ∀ v, P (u.2 v))
    (hstep : ∀ u' ∈ us, u'.1 = u.1 → ∀ v, P v → P (u'.2 v)) :
    P (updates us m u.1) := by
  obtain ⟨before, after, rfl⟩ := List.append_of_mem hu
  rw [updates_append, updates_cons]
  refine updates_induct (P := fun _ => P) ?_ fun u' hu' hk v hv => ?_
  · rw [Function.update_self]
    exact h _
  · exact hstep u' (List.mem_append_right _ (List.mem_cons_of_mem _ hu')) hk v hv

theorem updates_const {A : Type*} {f : V → V} (hf : ∀ v, f (f v) = f v) (l : List A) (key : A → K)
    (m : K → V) (k : K) :
    updates (l.map fun a => (key a, f)) m k = if k ∈ l.map key then f (m k) else m k := by
  induction l generalizing m with
  | nil => simp
  | cons a l ih =>
    rw [List.map_cons, updates_cons, ih]
    by_cases hk : k = key a
    · subst hk
      simp [hf]
    · simp [hk]
