import Mathlib.Data.List.Induction
import Mathlib.Logic.Function.Basic
import Sintr.Verifier.Merkle

/-!
# The cache of verified root signatures

All replies of a batch carry the same root signature, so `LocalBatchVerifier` remembers root
signatures that it has verified, each with its root. The cache does not say under which key.
-/

namespace Sintr.Verifier

open List Option Function

abbrev Cache := Bytes → Option Bytes

section
variable (c : Crypto)

def Valid (call : Call) : Prop :=
  ∃ hashStr rootSig, computeBatchedSignatureHash c call = .root hashStr rootSig ∧
    c.verify call.publicKey hashStr rootSig = true

/-- `LocalBatchVerifier::Verify`; `none` is a `Panic`, with which it answers everything that is not
valid. -/
def verify (cache : Cache) (call : Call) : Option Cache :=
  match computeBatchedSignatureHash c call with
  | .stops | .refused => none
  | .root hashStr rootSig =>
    match cache rootSig with
    | none =>
      if c.verify call.publicKey hashStr rootSig then
        some (Function.update cache rootSig (some hashStr))
      else none
    | some stored => if hashStr = stored then some cache else none

def verifyAll (calls : List Call) : Option Cache := calls.foldlM (verify c) fun _ => none

/-- `Verify` returns true after the calls `before`. -/
def returnsTrue (before : List Call) (call : Call) : Bool :=
  ((verifyAll c before).bind (verify c · call)).isSome

def SameRoot (a b : Call) (hashStr rootSig : Bytes) : Prop :=
  computeBatchedSignatureHash c a = .root hashStr rootSig ∧
    computeBatchedSignatureHash c b = .root hashStr rootSig

/-- What is cached was verified in one of the calls, and all root signatures of the calls are
cached with their roots. -/
structure CacheInv (calls : List Call) (cache : Cache) : Prop where
  verified : ∀ {rootSig hashStr}, cache rootSig = some hashStr → ∃ a ∈ calls,
    computeBatchedSignatureHash c a = .root hashStr rootSig ∧
      c.verify a.publicKey hashStr rootSig = true
  cached : ∀ a ∈ calls, ∃ hashStr rootSig,
    computeBatchedSignatureHash c a = .root hashStr rootSig ∧ cache rootSig = some hashStr

end

variable {c : Crypto}

instance (call : Call) : Decidable (Valid c call) :=
  match h : computeBatchedSignatureHash c call with
  | .root hashStr rootSig =>
    decidable_of_iff (c.verify call.publicKey hashStr rootSig = true)
      ⟨fun hvalid => ⟨hashStr, rootSig, h, hvalid⟩, fun ⟨_, _, hroot, hvalid⟩ => by
        obtain ⟨rfl, rfl⟩ := Parsed.root.inj (h.symm.trans hroot)
        exact hvalid⟩
  | .stops => .isFalse fun ⟨_, _, hroot, _⟩ => nomatch h.symm.trans hroot
  | .refused => .isFalse fun ⟨_, _, hroot, _⟩ => nomatch h.symm.trans hroot

variable {cache : Cache} {calls : List Call} {cache' : Cache}

theorem verify_eq_some {call : Call} (h : verify c cache call = some cache') :
    ∃ hashStr rootSig, computeBatchedSignatureHash c call = .root hashStr rootSig ∧
      ((cache rootSig = none ∧ c.verify call.publicKey hashStr rootSig = true ∧
          cache' = update cache rootSig (some hashStr)) ∨
        (cache rootSig = some hashStr ∧ cache' = cache)) := by
  unfold verify at h
  split at h
  · cases h
  · cases h
  · rename_i hashStr rootSig hparse
    refine ⟨hashStr, rootSig, hparse, ?_⟩
    split at h
    · rename_i hmiss
      split at h
      · rename_i hvalid
        exact .inl ⟨hmiss, hvalid, (some.inj h).symm⟩
      · cases h
    · rename_i stored hhit
      split at h
      · rename_i heq
        exact .inr ⟨heq ▸ hhit, (some.inj h).symm⟩
      · cases h

theorem verify_inv {call : Call} (hi : CacheInv c calls cache)
    (h : verify c cache call = some cache') :
    CacheInv c (calls ++ [call]) cache' := by
  have hmem : call ∈ calls ++ [call] := mem_append_right _ mem_cons_self
  obtain ⟨hashStr, rootSig, hparse, ⟨hmiss, hvalid, rfl⟩ | ⟨hhit, rfl⟩⟩ := verify_eq_some h
  · refine ⟨?_, ?_⟩
    · intro sig root hsig
      by_cases heq : sig = rootSig
      · subst heq
        rw [update_self, some.injEq] at hsig
        subst hsig
        exact ⟨call, hmem, hparse, hvalid⟩
      · rw [update_of_ne heq] at hsig
        obtain ⟨a, ha, hgood⟩ := hi.verified hsig
        exact ⟨a, mem_append_left _ ha, hgood⟩
    · intro a ha
      rcases mem_append.1 ha with ha | ha
      · obtain ⟨root, sig, hroot, hcached⟩ := hi.cached a ha
        -- the new entry replaces none
        have hne : sig ≠ rootSig := by
          rintro rfl
          rw [hmiss] at hcached
          cases hcached
        exact ⟨root, sig, hroot, by rw [update_of_ne hne, hcached]⟩
      · rw [mem_singleton.1 ha]
        exact ⟨hashStr, rootSig, hparse, update_self ..⟩
  · refine ⟨fun hsig => ?_, fun a ha => ?_⟩
    · obtain ⟨a, ha, hgood⟩ := hi.verified hsig
      exact ⟨a, mem_append_left _ ha, hgood⟩
    · rcases mem_append.1 ha with ha | ha
      · exact hi.cached a ha
      · rw [mem_singleton.1 ha]
        exact ⟨hashStr, rootSig, hparse, hhit⟩

theorem verifyAll_inv (h : verifyAll c calls = some cache) :
    CacheInv c calls cache := by
  induction calls using reverseRecOn generalizing cache with
  | nil =>
    obtain rfl := some.inj h
    exact ⟨nofun, nofun⟩
  | append_singleton calls call ih =>
    rw [verifyAll, foldlM_append] at h
    obtain ⟨before, hbefore, hlast⟩ := bind_eq_some_iff.1 h
    rw [foldlM_cons] at hlast
    obtain ⟨after, hafter, heq⟩ := bind_eq_some_iff.1 hlast
    obtain rfl := some.inj heq
    exact verify_inv (ih hbefore) hafter

/-- **Soundness of `Verify`.** After calls that all returned, a call that returns true is valid
under its own key exactly if every earlier call with the same root and root signature, valid under
the key it had, leaves it valid under this one. -/
theorem verify_sound_iff (c : Crypto) (before : List Call) (call : Call)
    (hbefore : (verifyAll c before).isSome = true) :
    (returnsTrue c before call = true → Valid c call) ↔
      ∀ a ∈ before, ∀ hashStr rootSig, SameRoot c a call hashStr rootSig →
        c.verify a.publicKey hashStr rootSig = true →
        c.verify call.publicKey hashStr rootSig = true := by
  obtain ⟨cache, hcache⟩ := Option.isSome_iff_exists.1 hbefore
  have hi := verifyAll_inv hcache
  rw [returnsTrue, hcache, Option.bind_some]
  constructor
  · intro h a ha hashStr rootSig ⟨hparse, hcall⟩ _
    -- the root signature is cached, so the call returns true
    obtain ⟨root, sig, hroot, hcached⟩ := hi.cached a ha
    obtain ⟨rfl, rfl⟩ := Parsed.root.inj (hparse.symm.trans hroot)
    have hret : verify c cache call = some cache := by
      rw [verify, hcall]
      simp only [hcached, if_true]
    rw [hret] at h
    obtain ⟨root, sig, hroot, hvalid⟩ := h rfl
    obtain ⟨rfl, rfl⟩ := Parsed.root.inj (hcall.symm.trans hroot)
    exact hvalid
  · intro h hret
    obtain ⟨cache', hcall⟩ := Option.isSome_iff_exists.1 hret
    obtain ⟨hashStr, rootSig, hparse, ⟨-, hvalid, -⟩ | ⟨hhit, -⟩⟩ := verify_eq_some hcall
    · exact ⟨hashStr, rootSig, hparse, hvalid⟩
    · obtain ⟨a, ha, hroot, hvalid⟩ := hi.verified hhit
      exact ⟨hashStr, rootSig, hparse, h a ha hashStr rootSig ⟨hroot, hparse⟩ hvalid⟩

/-- The first 32 bytes of a string stand for its hash, and a signature is valid if it starts with
the key. -/
def sampleCrypto : Crypto where
  H := fun b => (b ++ List.replicate 32 0).take 32
  verify := fun key _ sig => sig.take 1 == key.key
  batchVerify := fun l => l.map fun p => p.2.2.take 1 == p.1.key
  merkleBranchFactor := 2

def alone (key signer : UInt8) (message : Bytes) : Call where
  publicKey := ⟨.donna, [key]⟩
  message := message
  signature := signer :: List.replicate 63 0 ++ [0, 0, 0, 1] ++ [0, 0, 0, 0]

/-- Once the signature of one replica is cached it passes under the key of another one. -/
theorem verify_unsound :
    (verifyAll sampleCrypto [alone 1 1 [5]]).isSome = true ∧
    returnsTrue sampleCrypto [alone 1 1 [5]] (alone 2 1 [5]) = true ∧
    ¬ Valid sampleCrypto (alone 2 1 [5]) := by
  decide +kernel

theorem verify_sound_iff_again :
    returnsTrue sampleCrypto [alone 1 1 [5]] (alone 1 1 [5]) = true ∧
    (returnsTrue sampleCrypto [alone 1 1 [5]] (alone 1 1 [5]) = true →
      Valid sampleCrypto (alone 1 1 [5])) := by
  refine ⟨by decide +kernel, (verify_sound_iff sampleCrypto _ _ (by decide +kernel)).2 ?_⟩
  intro a ha hashStr rootSig _ hvalid
  rw [List.mem_singleton.1 ha] at hvalid
  exact hvalid

end Sintr.Verifier
