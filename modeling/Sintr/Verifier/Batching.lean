import Mathlib.Algebra.Group.Int.Defs
import Mathlib.Algebra.Group.Nat.Defs
import Sintr.Lib.HashTree
import Sintr.Verifier.Merkle

/-!
# Batches that are signed together

The signer of a batch builds the tree of hashes from the leaves to the root and signs the root. The
leaves are hashes of messages, and an inner node is the hash of the hashes of its children: both are
hashed in the same way, and nothing that is signed tells how many messages there are.

* `signedTree`: the tree as the signer builds it; `signedTree_label`: every node is the hash of its
  content.
-/

namespace Sintr.Verifier

open List Function

/-! ## The signer -/

/-- The number of inner nodes of a tree with `n` leaves; it is computed with 64 bits. -/
def merkleInner (n : UInt32) (m : UInt64) : UInt64 := ((n - 1).toUInt64 + (m - 2)) / (m - 1)

def hashUp (H : HashFn) (m : Nat) : Nat → Nat → (Nat → Bytes) → Nat → Bytes
  | 0, _, tree => tree
  | fuel + 1, i, tree =>
    if i ≤ 1 then tree
    else
      let l := (i - 1) / m * m + 1
      let parent := (i - 1) / m
      hashUp H m fuel (l - 1)
        (Function.update tree parent (H ((List.range' l (i + 1 - l)).flatMap tree)))

def childrenOf (m last t : Nat) : List Nat := List.range' (m * t + 1) (min (m * t + m) last - m * t)

section Signer
variable (c : Crypto) (messages : List Bytes)

def batchSize : UInt32 := UInt32.ofNat messages.length

def innerNodes : Nat := (merkleInner (batchSize messages) c.merkleBranchFactor).toNat

def maxLeaf : Nat := innerNodes c messages + (batchSize messages).toNat - 1

def leaves (j : Nat) : Bytes :=
  if innerNodes c messages ≤ j then c.H (messages.getD (j - innerNodes c messages) []) else []

def signedTree : Nat → Bytes :=
  hashUp c.H c.merkleBranchFactor.toNat (maxLeaf c messages) (maxLeaf c messages)
    (leaves c messages)

/-- What the signer needs: a message, none of them empty (`at(0)` throws), and nodes that can be
counted with 64 bits and numbered with an `int`. -/
structure CanSign : Prop where
  nonempty : 0 < (batchSize messages).toNat
  filled : ∀ msg ∈ messages.take (batchSize messages).toNat, msg ≠ []
  branches : 2 ≤ c.merkleBranchFactor.toNat
  counted : c.merkleBranchFactor.toNat * ((batchSize messages).toNat - 1) +
    (c.merkleBranchFactor.toNat - 2) < 2 ^ 64
  numbered : maxLeaf c messages < 2 ^ 31

instance : Decidable (CanSign c messages) :=
  decidable_of_iff (0 < (batchSize messages).toNat ∧
    (∀ msg ∈ messages.take (batchSize messages).toNat, msg ≠ []) ∧
    2 ≤ c.merkleBranchFactor.toNat ∧
    c.merkleBranchFactor.toNat * ((batchSize messages).toNat - 1) +
      (c.merkleBranchFactor.toNat - 2) < 2 ^ 64 ∧ maxLeaf c messages < 2 ^ 31)
    ⟨fun h => ⟨h.1, h.2.1, h.2.2.1, h.2.2.2.1, h.2.2.2.2⟩,
      fun h => ⟨h.nonempty, h.filled, h.branches, h.counted, h.numbered⟩⟩

def signedRoot : Option Bytes :=
  if CanSign c messages then some (signedTree c messages 0) else none

def contentOf (t : Nat) : Bytes :=
  if t < innerNodes c messages then
    (childrenOf c.merkleBranchFactor.toNat (maxLeaf c messages) t).flatMap (signedTree c messages)
  else messages.getD (t - innerNodes c messages) []

def signerHashes : List Bytes := (List.range (maxLeaf c messages + 1)).map (contentOf c messages)

end Signer

/-! ## The tree -/

section Tree
variable {c : Crypto} {messages : List Bytes}

theorem merkleInner_toNat {n : UInt32} {m : UInt64} (hn : 0 < n.toNat) (hm : 2 ≤ m.toNat)
    (hsum : n.toNat - 1 + (m.toNat - 2) < 2 ^ 64) :
    (merkleInner n m).toNat = (n.toNat - 1 + (m.toNat - 2)) / (m.toNat - 1) := by
  have h1 : (n - 1).toNat = n.toNat - 1 :=
    UInt32.toNat_sub_of_le n 1 (by rw [UInt32.le_iff_toNat_le]; exact hn)
  have h2 : (m - 2).toNat = m.toNat - 2 :=
    UInt64.toNat_sub_of_le m 2 (by rw [UInt64.le_iff_toNat_le]; exact hm)
  have h3 : (m - 1).toNat = m.toNat - 1 :=
    UInt64.toNat_sub_of_le m 1 (by rw [UInt64.le_iff_toNat_le]; exact Nat.le_of_succ_le hm)
  unfold merkleInner
  rw [UInt64.toNat_div, UInt64.toNat_add, UInt32.toNat_toUInt64, h1, h2, h3,
    Nat.mod_eq_of_lt hsum]

theorem innerNodes_bounds (h : CanSign c messages) :
    (c.merkleBranchFactor.toNat - 1) * innerNodes c messages ≤
        (batchSize messages).toNat - 1 + (c.merkleBranchFactor.toNat - 2) ∧
      (batchSize messages).toNat - 1 ≤
        (c.merkleBranchFactor.toNat - 1) * innerNodes c messages := by
  have hbranches := h.branches
  have hsum : (batchSize messages).toNat - 1 + (c.merkleBranchFactor.toNat - 2) < 2 ^ 64 := by
    refine Nat.lt_of_le_of_lt (Nat.add_le_add_right ?_ _) h.counted
    exact Nat.le_mul_of_pos_left _ (by omega)
  have hinner := merkleInner_toNat h.nonempty hbranches hsum
  unfold innerNodes
  rw [hinner]
  refine ⟨Nat.mul_div_le _ _, ?_⟩
  have hlt := Nat.lt_mul_div_succ ((batchSize messages).toNat - 1 +
    (c.merkleBranchFactor.toNat - 2)) (show 0 < c.merkleBranchFactor.toNat - 1 by omega)
  rw [Nat.mul_add_one] at hlt
  omega

structure Heap (m n inner last : Nat) : Prop where
  branches : 2 ≤ m
  leaf : 0 < n
  last_eq : last = inner + n - 1
  upper : (m - 1) * inner ≤ n - 1 + (m - 2)
  lower : n - 1 ≤ (m - 1) * inner

theorem heap_of_canSign (h : CanSign c messages) :
    Heap c.merkleBranchFactor.toNat (batchSize messages).toNat (innerNodes c messages)
      (maxLeaf c messages) :=
  ⟨h.branches, h.nonempty, rfl, (innerNodes_bounds h).1, (innerNodes_bounds h).2⟩

namespace Heap

variable {m n inner last : Nat} (h : Heap m n inner last)

include h

theorem mul_inner : m * inner = (m - 1) * inner + inner := by
  rw [← Nat.succ_mul, Nat.succ_eq_add_one, Nat.sub_add_cancel (Nat.le_of_succ_le h.branches)]

theorem parent_lt {i : Nat} (hpos : 0 < i) (hi : i ≤ last) : (i - 1) / m < inner := by
  have hmul := h.mul_inner
  have hlower := h.lower
  have hlast := h.last_eq
  have hleaf := h.leaf
  refine Nat.div_lt_of_lt_mul ?_
  rw [hmul]
  omega

theorem lt_last {t : Nat} (ht : t < inner) : m * t < last := by
  have hmul := Nat.mul_le_mul_left m (Nat.succ_le_of_lt ht)
  have hlast := h.last_eq
  have hupper := h.upper
  have hleaf := h.leaf
  rw [h.mul_inner, Nat.succ_eq_add_one, Nat.mul_add_one] at hmul
  have hbranches := h.branches
  omega

theorem last_ne_one : last ≠ 1 := by
  intro hone
  have hlast := h.last_eq
  have hlower := h.lower
  have hleaf := h.leaf
  have hinner : inner = 0 ∨ inner = 1 := by omega
  rcases hinner with rfl | rfl
  · simp only [Nat.mul_zero] at hlower
    omega
  · have hn : n = 1 := by omega
    have hupper := h.upper
    have hbranches := h.branches
    rw [hn, Nat.mul_one] at hupper
    omega

omit h in
theorem mem_childrenOf {t u : Nat} :
    u ∈ childrenOf m last t ↔ m * t < u ∧ u ≤ m * t + m ∧ u ≤ last := by
  rw [childrenOf, mem_range'_1]
  omega

theorem lt_of_mem_childrenOf {t u : Nat} (hu : u ∈ childrenOf m last t) : t < u := by
  have hle : t ≤ m * t := Nat.le_mul_of_pos_left t (Nat.lt_of_succ_lt h.branches)
  exact Nat.lt_of_le_of_lt hle (mem_childrenOf.1 hu).1

theorem siblings_eq {i : Nat} (hpos : 0 < i) (hi : i ≤ last) (hform : i = last ∨ m ∣ i) :
    range' ((i - 1) / m * m + 1) (i + 1 - ((i - 1) / m * m + 1)) =
      childrenOf m last ((i - 1) / m) := by
  have hm : 0 < m := Nat.lt_of_succ_lt h.branches
  have hle := Nat.div_mul_le_self (i - 1) m
  have hlt := Nat.lt_div_mul_add (a := i - 1) hm
  rw [childrenOf, Nat.mul_comm m]
  have hend : i = min ((i - 1) / m * m + m) last := by
    rcases hform with rfl | ⟨q, rfl⟩
    · omega
    · -- a multiple of `m` is the last child of its parent
      cases q with
      | zero => simp at hpos
      | succ q =>
        have hdiv : (m * (q + 1) - 1) / m = q := by
          rw [Nat.mul_add_one, Nat.add_sub_assoc hm, Nat.mul_add_div hm,
            Nat.div_eq_of_lt (Nat.sub_lt hm Nat.one_pos), Nat.add_zero]
        rw [hdiv, ← Nat.succ_mul, Nat.mul_comm, Nat.min_eq_left]
        rwa [Nat.mul_comm]
  congr 1
  omega

end Heap

theorem hashUp_spec {H : HashFn} {m n inner last : Nat} (h : Heap m n inner last) {fuel i : Nat}
    {tree : Nat → Bytes} (hfuel : i ≤ fuel) (hi : i ≤ last) (hform : i = last ∨ m ∣ i)
    (hdone : ∀ t < inner, i ≤ m * t → tree t = H ((childrenOf m last t).flatMap tree)) :
    (∀ j, inner ≤ j → hashUp H m fuel i tree j = tree j) ∧
      ∀ t < inner, hashUp H m fuel i tree t =
        H ((childrenOf m last t).flatMap (hashUp H m fuel i tree)) := by
  induction fuel generalizing i tree with
  | zero =>
    obtain rfl : i = 0 := Nat.le_zero.1 hfuel
    exact ⟨fun _ _ => rfl, fun t ht => hdone t ht (Nat.zero_le _)⟩
  | succ fuel ih =>
    rw [hashUp]
    split_ifs with hone
    · have hzero : i = 0 := by
        rcases hform with rfl | hdvd
        · have hne := h.last_ne_one
          omega
        · by_contra hne
          have hle := Nat.le_of_dvd (Nat.pos_of_ne_zero hne) hdvd
          have hbranches := h.branches
          omega
      subst hzero
      exact ⟨fun _ _ => rfl, fun t ht => hdone t ht (Nat.zero_le _)⟩
    · have hpos : 0 < i := by omega
      have hparent := h.parent_lt hpos hi
      dsimp only
      rw [h.siblings_eq hpos hi hform, Nat.add_sub_cancel]
      -- the parent comes before everything that has been hashed so far
      have hkeep : ∀ t, (i - 1) / m ≤ t → ∀ x, (childrenOf m last t).flatMap
          (update tree ((i - 1) / m) x) = (childrenOf m last t).flatMap tree := by
        intro t ht x
        refine flatMap_congr fun u hu => update_of_ne ?_ _ _
        have hlt := h.lt_of_mem_childrenOf hu
        omega
      have hnext : ∀ t < inner, (i - 1) / m * m ≤ m * t →
          update tree ((i - 1) / m)
            (H ((childrenOf m last ((i - 1) / m)).flatMap tree)) t =
          H ((childrenOf m last t).flatMap (update tree ((i - 1) / m)
            (H ((childrenOf m last ((i - 1) / m)).flatMap tree)))) := by
        intro t ht hit
        have hge : (i - 1) / m ≤ t := by
          rw [Nat.mul_comm] at hit
          exact Nat.le_of_mul_le_mul_left hit (Nat.lt_of_succ_lt h.branches)
        rw [hkeep t hge]
        by_cases heq : t = (i - 1) / m
        · rw [heq, update_self]
        · rw [update_of_ne heq]
          refine hdone t ht ?_
          -- the parent of `i` is an earlier node
          have hlt : (i - 1) / m + 1 ≤ t := Nat.lt_of_le_of_ne hge (Ne.symm heq)
          have hmul := Nat.mul_le_mul_left m hlt
          have hend := Nat.lt_div_mul_add (a := i - 1) (Nat.lt_of_succ_lt h.branches)
          rw [Nat.mul_add_one, Nat.mul_comm m ((i - 1) / m)] at hmul
          omega
      have hle := Nat.div_mul_le_self (i - 1) m
      obtain ⟨hleaf, hinner⟩ :=
        ih (by omega) (by omega) (.inr (Nat.dvd_mul_left _ _)) hnext
      refine ⟨fun j hj => ?_, hinner⟩
      rw [hleaf j hj, update_of_ne]
      omega

theorem signedTree_label (h : CanSign c messages) {t : Nat} :
    signedTree c messages t = c.H (contentOf c messages t) := by
  have hheap := heap_of_canSign h
  have hstart : ∀ t < innerNodes c messages,
      maxLeaf c messages ≤ c.merkleBranchFactor.toNat * t → leaves c messages t =
        c.H ((childrenOf c.merkleBranchFactor.toNat (maxLeaf c messages) t).flatMap
          (leaves c messages)) := by
    intro t ht hlast
    exact absurd (hheap.lt_last ht) (Nat.not_lt.2 hlast)
  obtain ⟨hleaf, hinner⟩ := hashUp_spec hheap le_rfl le_rfl (.inl rfl) hstart
  unfold contentOf
  split_ifs with ht
  · exact hinner t ht
  · rw [signedTree, hleaf t (Nat.le_of_not_lt ht), leaves, if_pos (Nat.le_of_not_lt ht)]

def batchLabels (h : CanSign c messages) : HashTree.Labels c.H Nat where
  children t :=
    if t < innerNodes c messages then
      some (childrenOf c.merkleBranchFactor.toNat (maxLeaf c messages) t)
    else none
  content := contentOf c messages
  content_inner t ts hts := by
    split_ifs at hts with ht
    cases hts
    rw [contentOf, if_pos ht]
    exact List.flatMap_congr fun u _ => signedTree_label h

theorem contentOf_leaf (h : CanSign c messages) {t : Nat} (ht : innerNodes c messages ≤ t)
    (hlast : t ≤ maxLeaf c messages) : contentOf c messages t ∈ messages := by
  have hlt : t - innerNodes c messages < messages.length := by
    have hsize : (batchSize messages).toNat ≤ messages.length := by
      rw [batchSize, UInt32.toNat_ofNat']
      exact Nat.mod_le _ _
    have hpos := h.nonempty
    unfold maxLeaf at hlast
    omega
  rw [contentOf, if_neg (Nat.not_lt.2 ht), getD_eq_getElem?_getD,
    getElem?_eq_getElem hlt]
  exact getElem_mem hlt

end Tree

/-! ## The verifier -/

section Verify
variable (c : Crypto) (signature : Bytes)

/-- The first one of the siblings of node `j`, and how many there are. -/
def leftmostSib (j : Nat) : Nat :=
  (j - 1) / c.merkleBranchFactor.toNat * c.merkleBranchFactor.toNat + 1

def siblingWidth (maxLeaf : Int) (j : Nat) : Int :=
  min (int (UInt64.ofNat (leftmostSib c j) + c.merkleBranchFactor - 1)) maxLeaf -
    leftmostSib c j + 1

def siblingsRead (maxLeaf : Int) : Nat → Nat → Nat → List Bytes
  | 0, _, _ => []
  | fuel + 1, j, h =>
    if j = 0 then []
    else
      let width := (siblingWidth c maxLeaf j).toNat
      match slice signature (72 + h * hashSize) (width * hashSize) with
      | none => []
      | some siblings =>
        siblings ::
          siblingsRead maxLeaf fuel ((j - 1) / c.merkleBranchFactor.toNat) (h + width)

/-- The size of the batch and the place in it that a blob states. -/
def statedSize : UInt32 := unpackInt ((signature.drop 64).take 4)

def statedPlace : UInt32 := unpackInt ((signature.drop 68).take 4)

def statedLast : Int :=
  int (merkleInner (statedSize signature) c.merkleBranchFactor +
    (statedSize signature).toUInt64 - 1)

def statedLeaf : Int :=
  int (merkleInner (statedSize signature) c.merkleBranchFactor + (statedPlace signature).toUInt64)

def verifierHashes (call : Call) : List Bytes :=
  call.message :: siblingsRead c call.signature (statedLast c call.signature)
    (statedLeaf c call.signature).toNat (statedLeaf c call.signature).toNat 0

end Verify

section Verify
variable {c : Crypto}

theorem int_eq (x : UInt64) : int x =
    if x.toNat % 2 ^ 32 < 2 ^ 31 then (x.toNat % 2 ^ 32 : Int) else x.toNat % 2 ^ 32 - 2 ^ 32 := by
  show x.toUInt32.toBitVec.toInt = _
  rw [BitVec.toInt_eq_toNat_cond]
  simp only [UInt32.toNat_toBitVec, UInt64.toNat_toUInt32]
  split_ifs <;> first | rfl | omega

theorem int_lt (x : UInt64) : int x < 2 ^ 31 := by
  rw [int_eq]
  split_ifs <;> omega

theorem rightmost_eq {l m : Nat} {b : UInt64} (hb : b.toNat = m) (hl : 0 < l) (hl' : l < 2 ^ 31)
    (hm : m < 2 ^ 31) :
    l + m ≤ 2 ^ 31 ∧ int (UInt64.ofNat l + b - 1) = (l : Int) + m - 1 ∨
      2 ^ 31 < l + m ∧ int (UInt64.ofNat l + b - 1) < 0 := by
  have hofNat : (UInt64.ofNat l).toNat = l := by
    rw [UInt64.toNat_ofNat']
    exact Nat.mod_eq_of_lt (by omega)
  have hadd : (UInt64.ofNat l + b).toNat = l + m := by
    rw [UInt64.toNat_add, hofNat, hb]
    exact Nat.mod_eq_of_lt (by omega)
  have hsub : (UInt64.ofNat l + b - 1).toNat = l + m - 1 := by
    have hle : 1 ≤ UInt64.ofNat l + b := by
      rw [UInt64.le_iff_toNat_le, hadd]
      exact Nat.le_add_right_of_le hl
    rw [UInt64.toNat_sub_of_le _ _ hle, hadd]
    rfl
  rw [int_eq, hsub, Nat.mod_eq_of_lt (by omega)]
  split_ifs with h
  · left
    omega
  · right
    omega

variable {x root sig : Bytes} {j : Nat} {maxLeaf : Int}

theorem slice_eq_some {b : Bytes} {pos len : Nat} (h : slice b pos len = some x) :
    pos + len ≤ b.length ∧ x = (b.drop pos).take len := by
  unfold slice at h
  split_ifs at h with hle
  cases h
  exact ⟨hle, rfl⟩

theorem piece_of_slices {signature own siblings : Bytes} {pos place width : Nat}
    (hown : slice signature (pos + place * hashSize) hashSize = some own)
    (hsiblings : slice signature pos (width * hashSize) = some siblings) (hplace : place < width)
    (hx : c.H x = own) : HashTree.Piece c.H hashSize x siblings := by
  refine ⟨width, place, length_of_slice hsiblings, hplace, ?_⟩
  obtain ⟨-, rfl⟩ := slice_eq_some hown
  obtain ⟨-, rfl⟩ := slice_eq_some hsiblings
  have hend : hashSize ≤ width * hashSize - place * hashSize := by
    rw [← Nat.sub_mul]
    exact Nat.le_mul_of_pos_left _ (Nat.sub_pos_of_lt hplace)
  rw [hx, drop_take, drop_drop, take_take, Nat.min_eq_left hend]

theorem climb_succ {signature rootSig hash : Bytes} {fuel h : Nat}
    (hroot : climb c signature rootSig maxLeaf (fuel + 1) j h hash = .root root sig) :
    (j = 0 ∧ hash = root) ∨ (j ≠ 0 ∧ c.merkleBranchFactor ≠ 0 ∧ ∃ siblings,
      slice signature (72 + (h + (j - leftmostSib c j)) * hashSize) hashSize = some hash ∧
      0 ≤ siblingWidth c maxLeaf j ∧
      slice signature (72 + h * hashSize) ((siblingWidth c maxLeaf j).toNat * hashSize) =
        some siblings ∧
      climb c signature rootSig maxLeaf fuel ((j - 1) / c.merkleBranchFactor.toNat)
        (h + (siblingWidth c maxLeaf j).toNat) (c.H siblings) = .root root sig) := by
  unfold climb at hroot
  dsimp only at hroot
  split at hroot
  · rename_i hj
    obtain ⟨rfl, -⟩ := Parsed.root.inj hroot
    exact .inl ⟨hj, rfl⟩
  · rename_i hj
    split at hroot
    · cases hroot
    · rename_i hfactor
      split at hroot
      · cases hroot
      · rename_i own hown
        split at hroot
        · cases hroot
        · rename_i heq
          split at hroot
          · cases hroot
          · rename_i hwidth
            split at hroot
            · cases hroot
            · rename_i siblings hsiblings
              rw [not_not] at heq
              subst heq
              exact .inr ⟨hj, hfactor, siblings, hown, Int.not_lt.1 hwidth, hsiblings, hroot⟩

theorem place_lt_width (hm : c.merkleBranchFactor.toNat < 2 ^ 31)
    (hfactor : c.merkleBranchFactor ≠ 0) (hmax : maxLeaf < 2 ^ 31) (hpos : j ≠ 0)
    (hj : (j : Int) ≤ maxLeaf) (hwidth : 0 ≤ siblingWidth c maxLeaf j) :
    leftmostSib c j ≤ j ∧ j - leftmostSib c j < (siblingWidth c maxLeaf j).toNat := by
  have hmpos : 0 < c.merkleBranchFactor.toNat := by
    rw [Nat.pos_iff_ne_zero]
    exact fun h => hfactor (UInt64.toNat_inj.1 h)
  have hle := Nat.div_mul_le_self (j - 1) c.merkleBranchFactor.toNat
  have hlt := Nat.lt_div_mul_add (a := j - 1) hmpos
  have hleft : leftmostSib c j =
      (j - 1) / c.merkleBranchFactor.toNat * c.merkleBranchFactor.toNat + 1 := rfl
  unfold siblingWidth at hwidth ⊢
  have hright := rightmost_eq (l := leftmostSib c j) (b := c.merkleBranchFactor) rfl (by omega)
    (by omega) hm
  rcases hright with ⟨-, hright⟩ | ⟨-, hright⟩
  · rw [hright] at hwidth ⊢
    omega
  · omega

theorem climb_chain {signature rootSig : Bytes} (hashed : Set Bytes)
    (hm : c.merkleBranchFactor.toNat < 2 ^ 31) (hmax : maxLeaf < 2 ^ 31) {fuel h : Nat}
    (hj : j ≠ 0 → (j : Int) ≤ maxLeaf) (hx : x ∈ hashed)
    (hread : ∀ y ∈ siblingsRead c signature maxLeaf fuel j h, y ∈ hashed)
    (hroot : climb c signature rootSig maxLeaf fuel j h (c.H x) = .root root sig) :
    ∃ z ∈ hashed, HashTree.Climb c.H hashSize hashed x z ∧ c.H z = root := by
  induction fuel generalizing j h x with
  | zero =>
    obtain ⟨rfl, -⟩ := Parsed.root.inj hroot
    exact ⟨x, hx, .refl, rfl⟩
  | succ fuel ih =>
    rcases climb_succ hroot with ⟨-, rfl⟩ | ⟨hpos, hfactor, siblings, hown, hwidth, hslice, hrest⟩
    · exact ⟨x, hx, .refl, rfl⟩
    · have hle := hj hpos
      obtain ⟨hleft, hplace⟩ := place_lt_width hm hfactor hmax hpos hle hwidth
      rw [siblingsRead, if_neg hpos] at hread
      dsimp only at hread
      rw [hslice, forall_mem_cons] at hread
      obtain ⟨hsiblings, hread⟩ := hread
      have hparent : (((j - 1) / c.merkleBranchFactor.toNat : Nat) : Int) ≤ maxLeaf := by
        have hdiv := Nat.div_le_self (j - 1) c.merkleBranchFactor.toNat
        omega
      obtain ⟨z, hz, hclimb, rfl⟩ := ih (fun _ => hparent) hsiblings hread hrest
      rw [Nat.add_mul, ← Nat.add_assoc] at hown
      have hpiece := piece_of_slices hown hslice hplace rfl
      exact ⟨z, hz, hclimb.head ⟨hx, hsiblings, hpiece⟩, rfl⟩

theorem sigSize_eq {t : KeyType} {size : Nat} (h : sigSize t = some size) : size = 64 := by
  cases t <;> simp [sigSize] at h <;> exact h.symm

theorem compute_climb {call : Call} (h : computeBatchedSignatureHash c call = .root root sig) :
    ∃ rootSig, climb c call.signature rootSig (statedLast c call.signature)
      (statedLeaf c call.signature).toNat (statedLeaf c call.signature).toNat 0
      (c.H call.message) = .root root sig := by
  unfold computeBatchedSignatureHash at h
  dsimp only at h
  split at h
  · cases h
  · rename_i size hsize
    obtain rfl := sigSize_eq hsize
    split at h
    · rename_i rootSig nBytes iBytes _ hn hi
      obtain ⟨-, rfl⟩ := slice_eq_some hn
      obtain ⟨-, rfl⟩ := slice_eq_some hi
      split at h
      · cases h
      · exact ⟨rootSig, h⟩
    · cases h

end Verify

/-! ## What a blob can make the verifier accept -/

/-- For a batch that was signed, a blob for a leaf that is not beyond the last one, with the signed
root: the message is one of the batch, or it is what was hashed for an inner node, or it is found
inside a message of the batch that consists of hashes itself. -/
theorem accepted_message {c : Crypto} {messages : List Bytes} {root sig : Bytes} {call : Call}
    (hH : ∀ b, (c.H b).length = hashSize) (hm : c.merkleBranchFactor.toNat < 2 ^ 31)
    (hsigned : signedRoot c messages = some root)
    (haccepted : computeBatchedSignatureHash c call = .root root sig)
    (hplace : statedLeaf c call.signature ≤ statedLast c call.signature)
    (hcollision : Set.InjOn c.H
      {x | x ∈ signerHashes c messages ∨ x ∈ verifierHashes c call}) :
    call.message ∈ messages ∨
      (∃ t < innerNodes c messages, call.message = contentOf c messages t) ∨
      ∃ msg ∈ messages, HashTree.Inside c.H hashSize
        {x | x ∈ signerHashes c messages ∨ x ∈ verifierHashes c call} call.message msg := by
  unfold signedRoot at hsigned
  split_ifs at hsigned with hcan
  obtain rfl := Option.some.inj hsigned
  obtain ⟨rootSig, hclimb⟩ := compute_climb haccepted
  have hsigner : ∀ t, t ≤ maxLeaf c messages → contentOf c messages t ∈ signerHashes c messages :=
    fun t ht => List.mem_map_of_mem (List.mem_range.2 (Nat.lt_succ_of_le ht))
  have hleaf : (statedLeaf c call.signature).toNat ≠ 0 →
      ((statedLeaf c call.signature).toNat : Int) ≤ statedLast c call.signature := by
    intro hne
    omega
  obtain ⟨z, hz, hchain, hroot⟩ := climb_chain
    {x | x ∈ signerHashes c messages ∨ x ∈ verifierHashes c call} hm (int_lt _) hleaf
    (.inr List.mem_cons_self) (fun y hy => .inr (List.mem_cons_of_mem _ hy)) hclimb
  -- the last string of the chain is what was hashed for the root
  rw [signedTree_label hcan] at hroot
  have htop : z = contentOf c messages 0 :=
    hcollision hz (.inl (hsigner 0 (Nat.zero_le _))) hroot
  have hmembers : ∀ v vs, v ≤ maxLeaf c messages → (batchLabels hcan).children v = some vs →
      ∀ u ∈ vs, u ≤ maxLeaf c messages := by
    intro v vs _ hvs u hu
    simp only [batchLabels] at hvs
    split_ifs at hvs
    cases hvs
    exact (Heap.mem_childrenOf.1 hu).2.2
  rcases (batchLabels hcan).climb_content hH (by decide) hcollision hmembers
    (fun v hv => .inl (hsigner v hv)) hchain (Nat.zero_le _) htop with
    ⟨t, ht, heq⟩ | ⟨t, ht, hnone, hinside⟩
  · by_cases hinner : t < innerNodes c messages
    · exact .inr (.inl ⟨t, hinner, heq⟩)
    · left
      rw [heq]
      exact contentOf_leaf hcan (Nat.not_lt.1 hinner) ht
  · have hinner : innerNodes c messages ≤ t := by
      simp only [batchLabels] at hnone
      split_ifs at hnone with h
      exact Nat.not_lt.1 h
    exact .inr (.inr ⟨_, contentOf_leaf hcan hinner ht, hinside⟩)

def shortHash (b : Bytes) : Bytes :=
  [UInt8.ofNat b.length, b.headD 0, b.getD 1 0, b.getD 33 0] ++ List.replicate 28 0

def shortCrypto (merkleBranchFactor : UInt64) : Crypto where
  H := shortHash
  verify := fun _ _ _ => true
  batchVerify := fun calls => calls.map fun _ => true
  merkleBranchFactor

def sampleCall (message : Bytes) (n i : UInt8) (hashes : List Bytes) : Call where
  publicKey := ⟨.ed25, []⟩
  message
  signature := List.replicate 64 5 ++ [0, 0, 0, n] ++ [0, 0, 0, i] ++ hashes.flatten

theorem injOn_of_lists {H : HashFn} {a b : List Bytes}
    (h : ∀ x ∈ a ++ b, ∀ y ∈ a ++ b, H x = H y → x = y) :
    Set.InjOn H {x | x ∈ a ∨ x ∈ b} :=
  fun x hx y hy heq => h x (mem_append.2 hx) y (mem_append.2 hy) heq

theorem accepted_message_first :
    let c := shortCrypto 2
    let call := sampleCall [1] 2 0 [shortHash [1], shortHash [2]]
    computeBatchedSignatureHash c call =
        .root (shortHash (shortHash [1] ++ shortHash [2])) (List.replicate 64 5) ∧
      (call.message ∈ [[1], [2]] ∨
        (∃ t < innerNodes c [[1], [2]], call.message = contentOf c [[1], [2]] t) ∨
        ∃ msg ∈ [[1], [2]], HashTree.Inside c.H hashSize
          {x | x ∈ signerHashes c [[1], [2]] ∨ x ∈ verifierHashes c call} call.message msg) := by
  intro c call
  have haccepted : computeBatchedSignatureHash c call =
      .root (shortHash (shortHash [1] ++ shortHash [2])) (List.replicate 64 5) := by
    decide +kernel
  exact ⟨haccepted, accepted_message (fun _ => rfl) (by decide) (by decide +kernel) haccepted
    (by decide +kernel) (injOn_of_lists (by decide +kernel))⟩

/-- The verifier finds the signed root for a message that was not signed, and no two strings that
are hashed have the same hash. -/
def AcceptsOutside (c : Crypto) (messages : List Bytes) (call : Call) : Prop :=
  (∃ root, signedRoot c messages = some root ∧
    computeBatchedSignatureHash c call = .root root (List.replicate 64 5)) ∧
  call.message ∉ messages ∧
  Set.InjOn c.H {x | x ∈ signerHashes c messages ∨ x ∈ verifierHashes c call}

/-- What was hashed for a root passes for a message, and a message that consists of two hashes for a
root. With four children a node, any message passes for the third one of two. -/
theorem accepted_outside :
    AcceptsOutside (shortCrypto 2) [[1], [2]]
      (sampleCall (shortHash [1] ++ shortHash [2]) 1 0 []) ∧
    AcceptsOutside (shortCrypto 2) [shortHash [1] ++ shortHash [2]]
      (sampleCall [1] 2 0 [shortHash [1], shortHash [2]]) ∧
    AcceptsOutside (shortCrypto 4) [[1], [2]]
      (sampleCall [3] 2 2 [shortHash [1], shortHash [2], shortHash [3]]) ∧
    AcceptsOutside (shortCrypto 4294967297) [shortHash [1]]
      (sampleCall [3] 3 1 [shortHash [1], shortHash [3]]) := by
  refine ⟨⟨⟨_, rfl, ?_⟩, ?_, injOn_of_lists ?_⟩, ⟨⟨_, rfl, ?_⟩, ?_, injOn_of_lists ?_⟩,
    ⟨⟨_, rfl, ?_⟩, ?_, injOn_of_lists ?_⟩, ⟨_, rfl, ?_⟩, ?_, injOn_of_lists ?_⟩
  all_goals decide +kernel

end Sintr.Verifier
