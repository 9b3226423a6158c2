import Mathlib.Data.Set.Function
import Mathlib.Logic.Relation

/-!
# Trees of hashes

A node of the tree has a content, which is what is hashed for it: any string at a leaf, and the
hashes of the children, one after the other, at an inner node. Nothing in a content tells which of
the two it is. All hashes have the same size.

* `HashTree.Piece`: a string that consists of hashes, one of which is that of another string.
* `HashTree.Climb`: a chain of such strings, all of them among the strings that are hashed.
* `HashTree.Labels.climb_content`: if no two of these have the same hash, what a chain to a node
  starts from is the content of a node or is found inside the content of a leaf.
-/

namespace HashTree

open List

variable {α V : Type*} {H : List α → List α} {size : Nat} {f : V → List α}

/-- The hash of `x` is one of the hashes that `y` consists of. -/
def Piece (H : List α → List α) (size : Nat) (x y : List α) : Prop :=
  ∃ count place, y.length = count * size ∧ place < count ∧
    (y.drop (place * size)).take size = H x

/-- `x` is reached from `y` by going from a string to one of the hashes it consists of. -/
def Climb (H : List α → List α) (size : Nat) (hashed : Set (List α)) : List α → List α → Prop :=
  Relation.ReflTransGen fun x y => x ∈ hashed ∧ y ∈ hashed ∧ Piece H size x y

/-- The same in at least one step. -/
def Inside (H : List α → List α) (size : Nat) (hashed : Set (List α)) : List α → List α → Prop :=
  Relation.TransGen fun x y => x ∈ hashed ∧ y ∈ hashed ∧ Piece H size x y

/-- The contents of the nodes of a tree; a leaf has no list of children. -/
structure Labels (H : List α → List α) (V : Type*) where
  children : V → Option (List V)
  content : V → List α
  content_inner : ∀ v vs, children v = some vs → content v = vs.flatMap fun u => H (content u)

theorem take_drop_flatMap (hsize : ∀ v, (f v).length = size) {vs : List V} {place : Nat}
    (hplace : place < vs.length) :
    ((vs.flatMap f).drop (place * size)).take size = f (vs.get ⟨place, hplace⟩) := by
  induction vs generalizing place with
  | nil => simp at hplace
  | cons v vs ih =>
    rw [flatMap_cons]
    cases place with
    | zero =>
      rw [Nat.zero_mul, drop_zero, take_append_of_le_length (hsize v).ge,
        take_of_length_le (hsize v).le]
      rfl
    | succ place =>
      have hdrop : (place + 1) * size = (f v).length + place * size := by
        rw [hsize, Nat.succ_mul, Nat.add_comm]
      rw [hdrop, ← drop_drop, drop_left, ih (Nat.lt_of_succ_lt_succ hplace)]
      rfl

theorem length_flatMap (hsize : ∀ v, (f v).length = size) (vs : List V) :
    (vs.flatMap f).length = vs.length * size := by
  induction vs with
  | nil => simp
  | cons v vs ih =>
    rw [flatMap_cons, length_append, ih, hsize, length_cons, Nat.succ_mul,
      Nat.add_comm]

namespace Labels

variable (t : Labels H V) {hashed : Set (List α)}

theorem child_of_piece (hH : ∀ x, (H x).length = size) (hpos : 0 < size)
    {v : V} {vs : List V} (hv : t.children v = some vs) {x : List α}
    (hpiece : Piece H size x (t.content v)) : ∃ u ∈ vs, H (t.content u) = H x := by
  obtain ⟨count, place, hlength, hplace, htake⟩ := hpiece
  rw [t.content_inner v vs hv] at hlength htake
  rw [length_flatMap (fun u => hH (t.content u))] at hlength
  obtain rfl : vs.length = count := Nat.eq_of_mul_eq_mul_right hpos hlength
  rw [take_drop_flatMap (fun u => hH (t.content u)) hplace] at htake
  exact ⟨_, get_mem vs ⟨place, hplace⟩, htake⟩

/-- What a chain to a node starts from: the content of a node, or something inside a leaf. `Member`
are the nodes of the tree. -/
theorem climb_content (hH : ∀ x, (H x).length = size) (hpos : 0 < size)
    (hinj : Set.InjOn H hashed) {Member : V → Prop}
    (hchildren : ∀ v vs, Member v → t.children v = some vs → ∀ u ∈ vs, Member u)
    (hhashed : ∀ v, Member v → t.content v ∈ hashed) {x y : List α}
    (hclimb : Climb H size hashed x y) {v : V} (hv : Member v) (hy : y = t.content v) :
    (∃ u, Member u ∧ x = t.content u) ∨
      ∃ u, Member u ∧ t.children u = none ∧ Inside H size hashed x (t.content u) := by
  induction hclimb generalizing v with
  | refl => exact .inl ⟨v, hv, hy⟩
  | tail hbelow hstep ih =>
    rename_i y z
    cases hcase : t.children v with
    | none =>
      -- a leaf that consists of hashes
      subst hy
      exact .inr ⟨v, hv, hcase, .tail' hbelow hstep⟩
    | some vs =>
      obtain ⟨hmem, -, hpiece⟩ := hstep
      rw [hy] at hpiece
      obtain ⟨u, hu, heq⟩ := t.child_of_piece hH hpos hcase hpiece
      have hmember := hchildren v vs hv hcase u hu
      exact ih hmember (hinj hmem (hhashed u hmember) heq.symm)

end Labels

end HashTree
