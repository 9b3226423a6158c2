import Mathlib.Data.Finset.Basic
import Mathlib.Data.Finset.Card
import Mathlib.Data.UInt
import Sintr.Data.Types

/-!
# Endorsement policies

A policy says which sets of endorsing clients are enough. There are three kinds: a number of
endorsers (`weight`), all of a list (`and`), or one of a list (`or`). Policies of one kind can be
merged; a `PolicyClient` accumulates the policies of a transaction.

The replicas act on the integer verdict `isSatisfiedInt`, which for a weight is a 64 bit difference
cut to 32 bits.

* `Policy.isSatisfied_mono`: more endorsers never hurt.
* `PolicyType.consistent_iff`: the comparison operators of a kind are those of one order, except for
  `>` of weights.
-/

namespace Sintr

inductive Policy where
  | weight (weight : UInt64)
  | and (clientIds : Finset UInt64)
  | or (clientIds : Finset UInt64)
  deriving DecidableEq

abbrev Endorsers := Finset UInt64

namespace Policy

/-- Whether the endorsers satisfy the policy. The empty OR is satisfied by anyone. -/
def isSatisfied : Policy → Endorsers → Bool
  | weight w, E => w.toNat ≤ E.card
  | and ids, E => ids ⊆ E
  | or ids, E => ids = ∅ ∨ (ids ∩ E).Nonempty

/-- A 64 bit difference returned as a 32 bit `int`. -/
def toInt32 (x : Int) : Int := (x % 2 ^ 64).bmod (2 ^ 32)

/-- The verdict the replicas use: negative, exactly enough (0), or more than enough. -/
def isSatisfiedInt : Policy → Endorsers → Int
  | weight w, E => toInt32 (E.card - w.toNat)
  | and ids, E => if ¬ ids ⊆ E then -1 else if E.card = ids.card then 0 else 1
  | or ids, E =>
    if ids = ∅ then 0
    else if (ids ∩ E).Nonempty then if (E \ ids).Nonempty then 1 else 0
    else -1

/-- `MergePolicy`; `none` is a failed assertion (different kinds) or a Panic (OR lists of which
neither contains the other). -/
def mergePolicy : Policy → Policy → Option Policy
  | weight w, weight v => some (weight (if v > w then v else w))
  | and ids, and js => some (and (ids ∪ js))
  | or ids, or js => if ids ⊆ js then some (or ids) else if js ⊆ ids then some (or js) else none
  | _, _ => none

/-- `p.isImpliedBy q`: `q >= p` in the order of the kind; `none` on different kinds. -/
def isImpliedBy : Policy → Policy → Option Bool
  | weight w, weight v => some (w ≤ v)
  | and ids, and js => some (ids ⊆ js)
  | or ids, or js => some (js ⊆ ids)
  | _, _ => none

/-- The weight is in the range in which the 32 bit verdict has the right sign. -/
def FitsInt : Policy → Prop
  | weight w => w.toNat ≤ 2 ^ 31
  | _ => True

theorem toInt32_neg {k : Nat} (h0 : 0 < k) (hk : k ≤ 2 ^ 31) : toInt32 (-(k : Int)) < 0 := by
  unfold toInt32
  rw [Int.bmod_def]
  omega

variable {p : Policy}

theorem isSatisfiedInt_sound {E : Endorsers} (hp : p.FitsInt) (h : 0 ≤ p.isSatisfiedInt E) :
    p.isSatisfied E = true := by
  cases p with
  | weight w =>
    simp only [isSatisfied, decide_eq_true_eq]
    by_contra hlt
    have hk : w.toNat - E.card ≤ 2 ^ 31 := by
      simp only [FitsInt] at hp
      omega
    have hneg := toInt32_neg (k := w.toNat - E.card) (by omega) hk
    have heq : (E.card : Int) - w.toNat = -((w.toNat - E.card : Nat) : Int) := by omega
    simp only [isSatisfiedInt, heq] at h
    omega
  | and ids =>
    simp only [isSatisfiedInt] at h
    split at h
    · omega
    · rename_i hsub
      simpa [isSatisfied] using hsub
  | or ids =>
    simp only [isSatisfiedInt] at h
    split at h
    · rename_i he
      simp [isSatisfied, he]
    · split at h
      · rename_i hne
        simp [isSatisfied, hne]
      · omega

theorem isSatisfied_mono {E E' : Endorsers} (hE : E ⊆ E') (h : p.isSatisfied E = true) :
    p.isSatisfied E' = true := by
  cases p with
  | weight w =>
    simp only [isSatisfied, decide_eq_true_eq] at h ⊢
    exact h.trans (Finset.card_le_card hE)
  | and ids =>
    simp only [isSatisfied, decide_eq_true_eq] at h ⊢
    exact h.trans hE
  | or ids =>
    simp only [isSatisfied, decide_eq_true_eq] at h ⊢
    exact h.imp_right fun hne => hne.mono (Finset.inter_subset_inter_left hE)

theorem mergePolicy_fitsInt {q r : Policy} (hp : p.FitsInt) (hq : q.FitsInt)
    (h : p.mergePolicy q = some r) : r.FitsInt := by
  cases p <;> cases q <;> simp only [mergePolicy, reduceCtorEq, Option.some.injEq] at h
  · subst h
    split_ifs
    · exact hq
    · exact hp
  · subst h; trivial
  · split_ifs at h <;> cases h <;> trivial

end Policy

/-! ## The order of each kind -/

inductive PolicyType where
  | weight
  | and
  | or
  deriving DecidableEq

namespace PolicyType

def Data : PolicyType → Type
  | weight => UInt64
  | and | or => Finset UInt64

def eq : (t : PolicyType) → t.Data → t.Data → Bool
  | weight, (w : UInt64), (v : UInt64) => w == v
  | and, (ids : Finset UInt64), (js : Finset UInt64) => ids = js
  | or, (ids : Finset UInt64), (js : Finset UInt64) => ids = js

variable (t : PolicyType) (p q r : t.Data)

def ne : Bool := !t.eq p q

/-- `operator<=`; for a weight it is written in terms of `operator<`. -/
def le : (t : PolicyType) → t.Data → t.Data → Bool
  | weight, (w : UInt64), (v : UInt64) => decide (w < v) || weight.eq w v
  | and, (ids : Finset UInt64), (js : Finset UInt64) => ids ⊆ js
  | or, (ids : Finset UInt64), (js : Finset UInt64) => js ⊆ ids

def lt : (t : PolicyType) → t.Data → t.Data → Bool
  | weight, (w : UInt64), (v : UInt64) => decide (w < v)
  | and, ids, js => and.le ids js && and.ne ids js
  | or, ids, js => or.le ids js && or.ne ids js

/-- `operator>`; that of a weight negates, unlike the other two. -/
def gt : (t : PolicyType) → t.Data → t.Data → Bool
  | weight, w, v => !weight.lt v w
  | and, ids, js => and.lt js ids
  | or, ids, js => or.lt js ids

def ge : Bool := t.le q p

def Consistent : Prop :=
  t.le p p ∧ (t.le p q → t.le q p → t.eq p q) ∧ (t.le p q → t.le q r → t.le p r) ∧
    (t.ge p q ↔ t.le q p) ∧ (t.lt p q ↔ t.le p q ∧ t.ne p q) ∧ (t.gt p q ↔ t.lt q p)

/-- The operators of a type are consistent exactly if it is not the weight: `>` between two
weights is never `<` the other way round. -/
theorem consistent_iff : t.Consistent p q r ↔ t ≠ weight := by
  cases t with
  | weight =>
    have hgt : ¬ (weight.gt p q ↔ weight.lt q p) := by simp [gt]
    simp only [Consistent, ne_eq, not_true_eq_false, iff_false]
    exact fun h => hgt h.2.2.2.2.2
  | and =>
    simp only [Consistent, ge, gt, lt, ne, le, eq, decide_eq_true_eq, Bool.and_eq_true]
    simp only [and_true, reduceCtorEq, ne_eq, not_false_eq_true, iff_true]
    exact ⟨subset_rfl, subset_antisymm, subset_trans⟩
  | or =>
    simp only [Consistent, ge, gt, lt, ne, le, eq, decide_eq_true_eq, Bool.and_eq_true]
    simp only [and_true, reduceCtorEq, ne_eq, not_false_eq_true, iff_true]
    exact ⟨subset_rfl, fun h h' => subset_antisymm h' h, fun h h' => h'.trans h⟩

theorem inconsistent_weights : ¬ weight.Consistent (1 : UInt64) (2 : UInt64) (2 : UInt64) := by
  intro h
  exact absurd (h.2.2.2.2.2.mp (by decide)) (by decide)

end PolicyType

/-! ## Accumulated policies -/

abbrev PolicyClient := Option Policy

namespace PolicyClient

def isSatisfied : PolicyClient → Endorsers → Bool
  | none, _ => true
  | some p, E => p.isSatisfied E

def isSatisfiedInt : PolicyClient → Endorsers → Int
  | none, _ => 0
  | some p, E => p.isSatisfiedInt E

/-- `AddPolicy`; `none` when the merge fails. -/
def addPolicy : PolicyClient → Policy → Option PolicyClient
  | none, q => some (some q)
  | some p, q => (p.mergePolicy q).map some

def isImpliedBy : PolicyClient → Policy → Option Bool
  | none, _ => some true
  | some p, q => p.isImpliedBy q

def FitsInt : PolicyClient → Prop
  | none => True
  | some p => p.FitsInt

variable {pc : PolicyClient}

theorem isSatisfiedInt_sound {E : Endorsers} (hp : pc.FitsInt) (h : 0 ≤ pc.isSatisfiedInt E) :
    pc.isSatisfied E = true := by
  cases pc with
  | none => rfl
  | some p => exact Policy.isSatisfiedInt_sound hp h

theorem isSatisfied_mono {E E' : Endorsers} (hE : E ⊆ E') (h : pc.isSatisfied E = true) :
    pc.isSatisfied E' = true := by
  cases pc with
  | none => rfl
  | some p => exact Policy.isSatisfied_mono hE h

theorem addPolicy_fitsInt {pc' : PolicyClient} {q : Policy} (hp : pc.FitsInt) (hq : q.FitsInt)
    (h : pc.addPolicy q = some pc') : pc'.FitsInt := by
  cases pc with
  | none => cases h; exact hq
  | some p =>
    simp only [addPolicy, Option.map_eq_some_iff] at h
    obtain ⟨r, hr, rfl⟩ := h
    exact Policy.mergePolicy_fitsInt hp hq hr

end PolicyClient

end Sintr
