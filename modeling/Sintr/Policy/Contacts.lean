import Mathlib.Data.Finset.Sort
import Sintr.Policy.Merge

/-!
# Choosing whom to ask for an endorsement

A client that runs a transaction works out what is still missing from the endorsers it has asked
(`differenceToSatisfied`) and contacts more of them. The number missing from a weight is a 64 bit
difference cut to an `int`, as the verdict of the replicas is.
-/

namespace Sintr

namespace Policy

/-- The ids of a set in ascending order, each narrowed to an `int`. -/
def asInts (ids : Finset UInt64) : List Int :=
  (ids.image UInt64.toNat).sort.map fun id => toInt32 id

/-- What is missing from the endorsers: -1 stands for any client. `random` is the value of
`std::rand`. -/
def differenceToSatisfied (random : Nat) : Policy → Endorsers → List Int
  | weight w, E => List.replicate (toInt32 (w.toNat - E.card)).toNat (-1)
  | and ids, E => asInts (ids \ E)
  | or ids, E =>
    if (or ids).isSatisfied E then [] else (asInts ids)[random % ids.card]?.toList

/-- The endorsers are so near to the weight, up to multiples of `2 ^ 32`, that both differences
keep their sign as an `int`. -/
def Near : Policy → Endorsers → Prop
  | weight w, E =>
    if w.toNat ≤ E.card then (E.card - w.toNat) % 2 ^ 32 < 2 ^ 31
    else 0 < (w.toNat - E.card) % 2 ^ 32 ∧ (w.toNat - E.card) % 2 ^ 32 < 2 ^ 31
  | _, _ => True

variable {E : Endorsers} {ids : Finset UInt64} {w : UInt64}

@[simp] theorem length_asInts : (asInts ids).length = ids.card := by
  simp [asInts, Finset.card_image_of_injective _ fun _ _ => UInt64.toNat_inj.1]

theorem asInts_eq_nil : asInts ids = [] ↔ ids = ∅ := by
  rw [← List.length_eq_zero_iff, length_asInts, Finset.card_eq_zero]

theorem toInt32_nonneg {x : Int} : 0 ≤ toInt32 x ↔ x % 2 ^ 32 < 2 ^ 31 := by
  rw [toInt32, Int.bmod_def]
  omega

theorem toInt32_pos {x : Int} : 0 < toInt32 x ↔ 0 < x % 2 ^ 32 ∧ x % 2 ^ 32 < 2 ^ 31 := by
  rw [toInt32, Int.bmod_def]
  omega

theorem differenceToSatisfied_weight {random : Nat} :
    (weight w).differenceToSatisfied random E = [] ↔ ¬ 0 < toInt32 (w.toNat - E.card) := by
  simp [differenceToSatisfied]

/-- The verdict and the difference of an AND or an OR are right for all endorsers, those of a
weight while the endorsers are near to it. -/
theorem verdicts_iff_near (p : Policy) (E : Endorsers) (random : Nat) :
    ((0 ≤ p.isSatisfiedInt E ↔ p.isSatisfied E = true) ∧
      (p.differenceToSatisfied random E = [] ↔ p.isSatisfied E = true)) ↔ p.Near E := by
  cases p with
  | weight w =>
    simp only [differenceToSatisfied_weight, isSatisfied_weight, isSatisfiedInt, toInt32_nonneg,
      toInt32_pos, Near]
    split <;> omega
  | and ids =>
    have hverdict : 0 ≤ (and ids).isSatisfiedInt E ↔ ids ⊆ E := by
      simp only [isSatisfiedInt]
      split_ifs <;> simp_all
    simp [hverdict, differenceToSatisfied, asInts_eq_nil, Near]
  | or ids =>
    have hverdict : 0 ≤ (or ids).isSatisfiedInt E ↔ ids = ∅ ∨ (ids ∩ E).Nonempty := by
      simp only [isSatisfiedInt]
      split_ifs <;> simp_all
    by_cases hsat : (or ids).isSatisfied E = true
    · simp [hverdict, differenceToSatisfied, hsat, isSatisfied_or.1 hsat, Near]
    · have hids : 0 < ids.card := by
        simp_all [Finset.card_pos, Finset.nonempty_iff_ne_empty]
      have hlt : random % ids.card < (asInts ids).length := by
        simpa using Nat.mod_lt _ hids
      simp_all [differenceToSatisfied, Near]

/-- The replicas accept the empty set for the weight `2 ^ 32`, and a client with the weight
`2 ^ 31` asks nobody. -/
theorem verdicts_far :
    (0 ≤ (weight (2 ^ 32)).isSatisfiedInt ∅ ∧ (weight (2 ^ 32)).isSatisfied ∅ = false) ∧
      (weight (2 ^ 31)).differenceToSatisfied 0 ∅ = [] ∧
        (weight (2 ^ 31)).isSatisfied ∅ = false := by
  decide +kernel

end Policy

end Sintr
