import Sintr.Data.Digest

/-!
# Signatures of batches

A replica signs a batch of replies with one signature of the root of a Merkle tree over them. The
blob that goes with a reply holds that signature, the size of the batch, the place of the reply in
it, and for each level on the way to the root the hashes of all siblings.

`computeBatchedSignatureHash` recomputes the root from a blob and a message. It reads the blob
without checking its length first: the read throws, or leaves the string (`stops`).
-/

namespace Sintr.Verifier

inductive KeyType where
  | rsa
  | ecdsa
  | ed25
  | secp
  | donna
  deriving DecidableEq, Repr

structure PubKey where
  t : KeyType
  key : Bytes
  deriving DecidableEq, Repr

/-- `SigSize`, which is not implemented for all types of keys. -/
def sigSize : KeyType → Option Nat
  | .rsa | .ecdsa => none
  | .ed25 | .secp | .donna => some 64

def hashSize : Nat := 32

/-- What a verifier is given: the hash, the verification of one signature and of a batch of them,
and the number of children of a node of the tree. -/
structure Crypto where
  H : HashFn
  verify : PubKey → Bytes → Bytes → Bool
  batchVerify : List (PubKey × Bytes × Bytes) → List Bool
  merkleBranchFactor : UInt64

structure Call where
  publicKey : PubKey
  message : Bytes
  signature : Bytes
  deriving DecidableEq, Repr

/-- What comes of a blob: the process stops, the blob is refused, or there is a root and the
signature that should be one of it. -/
inductive Parsed where
  | stops
  | refused
  | root (hashStr rootSig : Bytes)
  deriving DecidableEq, Repr

/-! ## Reading a blob -/

def slice (b : Bytes) (pos len : Nat) : Option Bytes :=
  if pos + len ≤ b.length then some ((b.drop pos).take len) else none

def unpackInt (b : Bytes) : UInt32 := b.foldl (fun n x => (n <<< 8) ||| x.toUInt32) 0

/-- A `uint64` that is assigned to an `int`. -/
def int (x : UInt64) : Int := x.toUInt32.toInt32.toInt

section
variable (c : Crypto) (signature rootSig : Bytes)

/-- The way from node `j` to the root: at each level `hash` is one of the siblings, whose hash is
the one of their parent. `h` hashes of the blob have been used. -/
def climb (maxLeaf : Int) : Nat → Nat → Nat → Bytes → Parsed
  | 0, _, _, hash => .root hash rootSig
  | fuel + 1, j, h, hash =>
    if j = 0 then .root hash rootSig
    else if c.merkleBranchFactor = 0 then .stops
    else
      let m := c.merkleBranchFactor.toNat
      let leftmostSib := (j - 1) / m * m + 1
      let rightmostSib :=
        min (int (UInt64.ofNat leftmostSib + c.merkleBranchFactor - 1)) maxLeaf
      -- negative if the place in the batch is beyond its size, and then a length of almost 2^64
      let width := rightmostSib - leftmostSib + 1
      match slice signature (72 + (h + (j - leftmostSib)) * hashSize) hashSize with
      | none => .stops
      | some own =>
        if hash ≠ own then .refused
        else if width < 0 then .stops
        else
          match slice signature (72 + h * hashSize) (width.toNat * hashSize) with
          | none => .stops
          | some siblings => climb maxLeaf fuel ((j - 1) / m) (h + width.toNat) (c.H siblings)

end

/-- `computeBatchedSignatureHash`. Nodes are counted level by level from the root, 0; the leaves
come after `inner` other nodes. -/
def computeBatchedSignatureHash (c : Crypto) (call : Call) : Parsed :=
  match sigSize call.publicKey.t with
  | none => .stops
  | some size =>
    match slice call.signature 0 size, slice call.signature size 4,
      slice call.signature (size + 4) 4 with
    | some rootSig, some nBytes, some iBytes =>
      let n := unpackInt nBytes
      let i := unpackInt iBytes
      let m := c.merkleBranchFactor
      if call.message = [] ∨ m = 1 then .stops
      else
        let inner := ((n - 1).toUInt64 + (m - 2)) / (m - 1)
        let j := int (inner + i.toUInt64)
        climb c call.signature rootSig (int (inner + n.toUInt64 - 1)) j.toNat j.toNat 0
          (c.H call.message)
    | _, _, _ => .stops

/-! ## What comes of a blob -/

theorem length_of_slice {b x : Bytes} {pos len : Nat} (h : slice b pos len = some x) :
    x.length = len := by
  unfold slice at h
  split at h
  · obtain rfl := Option.some.inj h
    rw [List.length_take, List.length_drop]
    omega
  · cases h

theorem climb_root {c : Crypto} {signature rootSig : Bytes} {maxLeaf : Int} {fuel j h : Nat}
    {hash hashStr sig : Bytes} (hhash : hash.length = hashSize)
    (hH : ∀ b, (c.H b).length = hashSize)
    (hroot : climb c signature rootSig maxLeaf fuel j h hash = .root hashStr sig) :
    sig = rootSig ∧ hashStr.length = hashSize := by
  induction fuel generalizing j h hash with
  | zero =>
    obtain ⟨rfl, rfl⟩ := Parsed.root.inj hroot
    exact ⟨rfl, hhash⟩
  | succ fuel ih =>
    unfold climb at hroot
    dsimp only at hroot
    split at hroot
    · obtain ⟨rfl, rfl⟩ := Parsed.root.inj hroot
      exact ⟨rfl, hhash⟩
    · split at hroot
      · cases hroot
      · split at hroot
        · cases hroot
        · split at hroot
          · cases hroot
          · split at hroot
            · cases hroot
            · split at hroot
              · cases hroot
              · exact ih (hH _) hroot

theorem computeBatchedSignatureHash_root {c : Crypto} {call : Call} {hashStr rootSig : Bytes}
    (hH : ∀ b, (c.H b).length = hashSize)
    (h : computeBatchedSignatureHash c call = .root hashStr rootSig) :
    hashStr.length = hashSize ∧ rootSig.length = 64 := by
  unfold computeBatchedSignatureHash at h
  dsimp only at h
  split at h
  · cases h
  · rename_i size hsize
    have h64 : size = 64 := by
      unfold sigSize at hsize
      split at hsize
      · cases hsize
      · cases hsize
      all_goals exact (Option.some.inj hsize).symm
    split at h
    · rename_i sig _ _ hsig _ _
      split at h
      · cases h
      · obtain ⟨rfl, hlen⟩ := climb_root (hH _) hH h
        exact ⟨hlen, (length_of_slice hsig).trans h64⟩
    · cases h

end Sintr.Verifier
