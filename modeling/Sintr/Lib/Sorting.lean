import Mathlib.Data.List.Basic
import Mathlib.Data.List.Destutter
import Mathlib.Data.List.Perm.Basic

/-!
# Outcomes of an unstable sort

A sort that is not stable may return any permutation in order. Among elements that the order does
not tell apart, any one may come first (`exists_sorted_find`), and the others may be removed
afterwards (`exists_mem_destutter`). It compares keys only, so one sort moves the elements of two
lists with the same keys in the same way (`KeySort.flatMap_apply`).
-/

namespace Sorting

open List

variable {α : Type*}

/-! ## Which element comes first -/

theorem exists_sorted_find {le : α → α → Bool}
    (htrans : ∀ a b c, le a b = true → le b c = true → le a c = true)
    (htotal : ∀ a b, (le a b || le b a) = true) {p : α → Bool}
    (hclass : ∀ a b, p a = true → p b = true → le a b = true) {l : List α} {a : α} (ha : a ∈ l)
    (hpa : p a = true) :
    ∃ l' : List α, l'.Perm l ∧ l'.Pairwise (fun x y => le x y = true) ∧ l'.find? p = some a := by
  obtain ⟨s, t, rfl⟩ := append_of_mem ha
  -- A stable sort of the list with `a` moved to the front.
  have hperm : ((a :: (s ++ t)).mergeSort le).Perm (s ++ a :: t) :=
    (mergeSort_perm _ le).trans perm_middle.symm
  refine ⟨_, hperm, pairwise_mergeSort htrans htotal _, ?_⟩
  have hsub : ((a :: (s ++ t)).filter p).Sublist ((a :: (s ++ t)).mergeSort le) := by
    refine sublist_mergeSort htrans htotal ?_ filter_sublist
    refine pairwise_of_forall_mem_list fun x hx y hy => ?_
    exact hclass x y (mem_filter.1 hx).2 (mem_filter.1 hy).2
  have hfilter : (a :: (s ++ t)).filter p = ((a :: (s ++ t)).mergeSort le).filter p := by
    refine List.Sublist.eq_of_length ?_ ?_
    · simpa using hsub.filter p
    · exact ((mergeSort_perm (a :: (s ++ t)) le).filter p).length_eq.symm
  rw [← head?_filter, ← hfilter, filter_cons_of_pos hpa]
  rfl

/-! ## Removing repetitions -/

theorem exists_mem_destutter {eq : α → α → Bool} (hrefl : ∀ a, eq a a = true) {l : List α} {x : α}
    (hx : x ∈ l) : ∃ y ∈ l.destutter (fun a b => eq a b = false), eq y x = true := by
  have h : ∀ (l : List α) (a : α), ∀ x ∈ a :: l,
      ∃ y ∈ l.destutter' (fun a b => eq a b = false) a, eq y x = true := by
    intro l
    induction l with
    | nil =>
      intro a x hx
      rw [mem_singleton.1 hx]
      exact ⟨a, mem_destutter' _ _ a, hrefl a⟩
    | cons b l ih =>
      intro a x hx
      by_cases hab : eq a b = false
      · rw [destutter'_cons_pos l hab]
        rcases mem_cons.1 hx with rfl | hx
        · exact ⟨x, mem_cons_self, hrefl x⟩
        · obtain ⟨y, hy, hyx⟩ := ih b x hx
          exact ⟨y, mem_cons_of_mem _ hy, hyx⟩
      · rw [destutter'_cons_neg l hab]
        rcases mem_cons.1 hx with rfl | hx
        · exact ⟨x, mem_destutter' _ _ x, hrefl x⟩
        · rcases mem_cons.1 hx with rfl | hx
          · exact ⟨a, mem_destutter' _ _ a, Bool.of_not_eq_false hab⟩
          · exact ih a x (mem_cons_of_mem _ hx)
  cases l with
  | nil => cases hx
  | cons a l => exact h l a x hx

theorem pairwise_ne_of_isChain {α : Type*} {le : α → α → Prop}
    (hanti : ∀ a b, le a b → le b a → a = b) {l : List α} (hl : l.Pairwise le)
    (hne : l.IsChain (· ≠ ·)) : l.Pairwise fun a b => le a b ∧ a ≠ b := by
  induction l with
  | nil => exact .nil
  | cons a l ih =>
    obtain ⟨ha, hl⟩ := pairwise_cons.1 hl
    obtain ⟨hhead, hne⟩ := isChain_cons.1 hne
    refine pairwise_cons.2 ⟨fun b hb => ⟨ha b hb, ?_⟩, ih hl hne⟩
    rintro rfl
    cases l with
    | nil => cases hb
    | cons c l =>
      have hac : a ≠ c := hhead c rfl
      have hca : le c a := (pairwise_cons.1 hl).1 a ((mem_cons.1 hb).resolve_left hac)
      exact hac (hanti a c (ha c mem_cons_self) hca)

/-! ## One sort, two lists -/

/-- A sort by keys: the positions of the list it is given, in the order of their keys. -/
structure KeySort (κ : Type*) [LE κ] where
  order : List κ → List Nat
  perm : ∀ ks, (order ks).Perm (List.range ks.length)
  sorted : ∀ ks, ((order ks).filterMap fun i => ks[i]?).Pairwise (· ≤ ·)

namespace KeySort

variable {κ β γ : Type*} [LE κ] (sort : KeySort κ)

def apply (key : α → κ) (l : List α) : List α :=
  (sort.order (l.map key)).filterMap fun i => l[i]?

theorem flatMap_picked (g : α → List γ) (l : List α) (is : List Nat) :
    (is.filterMap fun i => l[i]?).flatMap g = (is.filterMap fun i => (l.map g)[i]?).flatten := by
  rw [flatMap_def, map_filterMap]
  simp only [getElem?_map]

theorem flatMap_apply {key : α → κ} {key' : β → κ} {f : α → List γ} {f' : β → List γ} {l : List α}
    {l' : List β} (hkey : l.map key = l'.map key') (hf : l.map f = l'.map f') :
    (sort.apply key l).flatMap f = (sort.apply key' l').flatMap f' := by
  rw [apply, apply, flatMap_picked, flatMap_picked, hkey, hf]

def merge [DecidableLE κ] (htrans : ∀ a b c : κ, a ≤ b → b ≤ c → a ≤ c)
    (htotal : ∀ a b : κ, a ≤ b ∨ b ≤ a) : KeySort κ where
  order ks := (ks.zipIdx.mergeSort fun a b => decide (a.1 ≤ b.1)).map (·.2)
  perm ks := by
    have hperm := (List.mergeSort_perm ks.zipIdx fun a b => decide (a.1 ≤ b.1)).map Prod.snd
    rwa [List.zipIdx_map_snd, ← List.range_eq_range'] at hperm
  sorted ks := by
    have hsorted : (ks.zipIdx.mergeSort fun a b => decide (a.1 ≤ b.1)).Pairwise
        fun a b => decide (a.1 ≤ b.1) = true :=
      List.pairwise_mergeSort (fun a b c => by simpa using htrans a.1 b.1 c.1)
        (fun a b => by simpa using htotal a.1 b.1) ks.zipIdx
    have hpick : ((ks.zipIdx.mergeSort fun a b => decide (a.1 ≤ b.1)).map Prod.snd).filterMap
        (fun i => ks[i]?) = (ks.zipIdx.mergeSort fun a b => decide (a.1 ≤ b.1)).map Prod.fst := by
      rw [List.filterMap_map, ← List.filterMap_eq_map]
      refine List.filterMap_congr fun p hp => ?_
      exact List.mem_zipIdx_iff_getElem?.1 (List.mem_mergeSort.1 hp)
    rw [hpick, List.pairwise_map]
    exact hsorted.imp fun h => of_decide_eq_true h

end KeySort

end Sorting
