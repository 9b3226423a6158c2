import Sintr.Cert.Signatures

/-!
# What a shard client receives

A shard client talks to the replicas of one group. Replicas sign serialized messages; the shard
client verifies the signature of the bytes it got and then parses them, while certificates are later
validated against bytes that are serialized anew.
-/

namespace Sintr.Shard

open List

structure P2Decision where
  decision : CommitDecision
  txnDigest : Option Digest := none
  involvedGroup : Option GroupId := none
  view : Option UInt64 := none
  deriving DecidableEq, Repr

structure ConcurrencyControl where
  ccr : CCResult
  committedConflict : Option CommittedProof := none
  txnDigest : Option Digest := none
  involvedGroup : Option GroupId := none
  deriving DecidableEq, Repr

def signatureOf (m : SignedMessage) : Signature := ⟨m.processId, m.signature⟩

/-- What a shard client is given, with what is relied on: validators verify messages that they
serialize themselves, and parsing gets such a message back. -/
structure ShardEnv where
  env : Env
  group : GroupId
  verifyData : ProcessId → Bytes → Bytes → Bool
  data : Signed → Bytes
  parseP2Decision : Bytes → Option P2Decision
  parseCC : Bytes → Option ConcurrencyControl
  verify_eq : ∀ id m signature, env.verify id m signature = verifyData id (data m) signature
  parse_p2Decision : ∀ decision d g view,
    parseP2Decision (data (.p2Decision decision d (some g) (some view))) =
      some ⟨decision, some d, some g, some view⟩
  parse_vote : ∀ commit d g,
    parseCC (data (.vote commit d g)) = some ⟨ccResultOf commit, none, some d, some g⟩

namespace ShardEnv

variable (S : ShardEnv)

/-- The checks on a signed message: its signer passes as a replica of the group, the signature is
valid, and the contents can be parsed. -/
def authenticate {M : Type} (parse : Bytes → Option M) (m : SignedMessage) : Option M :=
  if S.env.config.isReplicaInGroup m.processId S.group &&
      S.verifyData m.processId m.data m.signature then parse m.data
  else none

variable {S}

theorem authenticate_eq_some {M : Type} {parse : Bytes → Option M} {m : SignedMessage} {x : M} :
    S.authenticate parse m = some x ↔ S.env.config.isReplicaInGroup m.processId S.group = true ∧
      S.verifyData m.processId m.data m.signature = true ∧ parse m.data = some x := by
  rw [authenticate, Option.ite_none_right_eq_some, Bool.and_eq_true, and_assoc]

theorem verify_of_authenticate {M : Type} {parse : Bytes → Option M} {m : SignedMessage} {x y : M}
    {msg : Signed} (h : S.authenticate parse m = some x) (hdata : m.data = S.data msg)
    (hparse : parse (S.data msg) = some y) :
    x = y ∧ S.env.verify m.processId msg m.signature = true := by
  obtain ⟨-, hver, hx⟩ := authenticate_eq_some.1 h
  rw [hdata] at hx hver
  rw [S.verify_eq]
  exact ⟨Option.some.inj (hx.symm.trans hparse), hver⟩

/-! ## A sample -/

def sampleNumber : Option UInt64 → Bytes
  | none => [2]
  | some n => List.replicate n.toNat 0 ++ [1]

def readNumber : Bytes → Nat → Option (Option UInt64 × Bytes)
  | 0 :: bytes, k => readNumber bytes (k + 1)
  | 1 :: bytes, k => some (some (UInt64.ofNat k), bytes)
  | _ :: bytes, _ => some (none, bytes)
  | [], _ => none

theorem readNumber_replicate (n k : Nat) (bytes : Bytes) :
    readNumber (replicate n 0 ++ 1 :: bytes) k =
      some (some (UInt64.ofNat (k + n)), bytes) := by
  induction n generalizing k with
  | zero => rfl
  | succ n ih =>
    rw [replicate_succ, cons_append, readNumber, ih]
    congr 4
    omega

theorem readNumber_sample (n : UInt64) (bytes : Bytes) :
    readNumber (sampleNumber (some n) ++ bytes) 0 = some (some n, bytes) := by
  rw [sampleNumber, append_assoc, singleton_append, readNumber_replicate, Nat.zero_add,
    UInt64.ofNat_toNat]

def sampleData : Signed → Bytes
  | .vote commit d g => (if commit then 0 else 1) :: (sampleNumber (some g) ++ d)
  | .p2Decision decision d g view =>
    (if decision = .commit then 0 else 1) :: (sampleNumber g ++ (sampleNumber view ++ d))
  | _ => []

/-- A group of six replicas, as in `Env.sample`. A signature is the id of the signer followed by the
bytes that are signed. -/
def sample : ShardEnv where
  env := { Env.sample with
    verify := fun id m signature => signature == id.toUInt8 :: sampleData m }
  group := 0
  verifyData := fun id bytes signature => signature == id.toUInt8 :: bytes
  data := sampleData
  parseP2Decision
    | b :: bytes => do
      let (g, bytes) ← readNumber bytes 0
      let (view, d) ← readNumber bytes 0
      some ⟨if b = 0 then .commit else .abort, some d, g, view⟩
    | [] => none
  parseCC
    | b :: bytes => do
      let (g, d) ← readNumber bytes 0
      some ⟨ccResultOf (b = 0), none, some d, g⟩
    | [] => none
  verify_eq _ _ _ := rfl
  parse_p2Decision decision d g view := by
    simp only [sampleData, readNumber_sample, Option.bind_eq_bind, Option.bind_some]
    cases decision <;> rfl
  parse_vote commit d g := by
    simp only [sampleData, readNumber_sample, Option.bind_eq_bind, Option.bind_some]
    cases commit <;> rfl

def signSample (id : ProcessId) (m : Signed) : SignedMessage :=
  ⟨sampleData m, id, id.toUInt8 :: sampleData m⟩

end ShardEnv

end Sintr.Shard
