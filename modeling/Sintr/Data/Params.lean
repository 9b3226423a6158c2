import Mathlib.Data.List.Dedup
import Sintr.Data.Digest
import Sintr.Policy.Policy

/-!
# Parameters and environment of a replica

`Params` holds the configuration flags the modelled handlers branch on, `Config` the layout of the
replica groups, and `Env` everything a replica takes as given: its own place in the layout, the
hash, signature verification and the functions the benchmark plugs in.
-/

namespace Sintr

structure Params where
  signedMessages : Bool := true
  validateProofs : Bool := true
  hashDigest : Bool := true
  multiThreading : Bool := false
  mainThreadDispatching : Bool := false
  dispatchCallbacks : Bool := true
  parallelQueries : Bool := false
  parallelCCC : Bool := false
  allToAllFb : Bool := false
  signClientProposals : Bool := false
  /-- `maxDepDepth > -2`: transactions may depend on prepared ones. -/
  depsEnabled : Bool := true
  cacheReadSet : Bool := false
  mergeActiveAtClient : Bool := false
  hideTimestamps : Bool := false
  hashEndorsements : Bool := false
  serverSkipEndorsementCheck : Bool := false
  parallelEndorsementCheck : Bool := false
  signFinishValidation : Bool := true
  includeReadsetForTxnPolicy : Bool := false
  checkPolicyLeak : Bool := false
  policyCCC : Bool := false
  useSemanticCC : Bool := false
  verifyDeps : Bool := false
  sqlMode : Bool := false
  deriving DecidableEq, Repr, Inhabited

/-- The replica groups: `n` replicas in each, `f` of them possibly faulty, and their host names. -/
structure Config where
  groups : Nat
  n : Nat
  f : Nat
  hosts : Nat → Nat → Bytes

namespace Config

variable (c : Config)

/-- `replicaHost`: hosts are numbered within each group, and only the first replica on a host gets
the number (`none` is -1). -/
def replicaHost (g i : Nat) : Option Nat :=
  if g < c.groups ∧ i < c.n ∧ c.hosts g i ∉ (List.range i).map (c.hosts g) then
    some ((List.range i).map (c.hosts g)).dedup.length
  else none

def isReplicaInGroup (id : ProcessId) (g : GroupId) : Bool :=
  (List.range c.n).any fun i =>
    c.replicaHost (id.toNat / c.n % 2 ^ 32) (id.toNat % c.n) == c.replicaHost (g.toNat % 2 ^ 32) i

def InGroup (id : ProcessId) (g : GroupId) : Prop := id.toNat / c.n = g.toNat
deriving Decidable

end Config

inductive Signed where
  /-- A Phase1 vote (`ConcurrencyControl`, `ccr` COMMIT or ABSTAIN). -/
  | vote (commit : Bool) (digest : Digest) (group : GroupId)
  | p2Decision (decision : CommitDecision) (digest : Digest) (group : Option GroupId)
      (view : Option UInt64)
  | elect (digest : Digest) (decision : CommitDecision) (view : UInt64)
  | currentView (view : UInt64) (digest : Digest) (replica : ProcessId)
  | proposal (txn : Transaction)
  | endorsement (data : Bytes)
  deriving DecidableEq, Repr

structure Env where
  params : Params
  config : Config
  groupIdx : GroupId
  idx : Nat
  H : HashFn
  sign : Signed → Bytes
  verify : ProcessId → Signed → Bytes → Bool
  verifyClient : ProcessId → Signed → Bytes → Bool
  /-- The MAC of a MoveView message, under the session key with a replica. -/
  verifyHMAC : ProcessId → Digest → UInt64 → Bytes → Bool
  /-- The partitioner: whether a key belongs to this replica's group. -/
  keyOwned : Key → Bool
  /-- The policy that governs a key (and the value written to it). -/
  policyIdFunction : Key → Bytes → Bytes
  /-- `ValTxnMsg.validation_txn_digest` of an endorsement's payload. -/
  valTxnDigest : Bytes → Digest
  parsePolicy : Bytes → Policy

namespace Env

variable (env : Env)

def id : ProcessId := env.groupIdx * UInt64.ofNat env.config.n + UInt64.ofNat env.idx

/-- The digest that names a transaction at a replica: endorsements are covered if so configured. -/
def digest (txn : Transaction) : Digest :=
  transactionDigest env.H txn env.params.hashDigest env.params.hideTimestamps
    env.params.hashEndorsements

def bareDigest (txn : Transaction) : Digest :=
  transactionDigest env.H txn env.params.hashDigest env.params.hideTimestamps false

/-- What validating clients sign: the bare digest bound to the policy versions. -/
def endorsedDigest (txn : Transaction) : Digest :=
  policyVersionDigest env.H txn (env.bareDigest txn)

/-- The transaction as the server keeps it, with its digest. -/
def named (txn : Transaction) : Transaction := { txn with txndigest := some (env.digest txn) }

theorem digest_eq_bareDigest {txn : Transaction}
    (h : env.params.hashEndorsements = false ∨ txn.endorsements.getD [] = []) :
    env.digest txn = env.bareDigest txn := by
  rcases h with h | h
  · simp [digest, bareDigest, h]
  · exact transactionDigest_noEndorsements env.H h _ _ _

/-- Nothing is taken out of the transaction that a digest covers. -/
def Whole (txn : Transaction) : Prop :=
  env.params.cacheReadSet = true → env.params.hashDigest = true → txn.NoPredicates

instance (txn : Transaction) : Decidable (env.Whole txn) := by
  unfold Whole
  infer_instance

theorem digest_takePredicates {txn : Transaction} (h : env.Whole txn)
    (hcache : env.params.cacheReadSet = true) (g : GroupId) (k : Nat) :
    env.digest (txn.takePredicates g k) = env.digest txn ∧
      env.endorsedDigest (txn.takePredicates g k) = env.endorsedDigest txn := by
  have hbare : env.bareDigest (txn.takePredicates g k) = env.bareDigest txn :=
    transactionDigest_takePredicates env.H g k _ _ _ (h hcache)
  refine ⟨transactionDigest_takePredicates env.H g k _ _ _ (h hcache), ?_⟩
  unfold endorsedDigest
  rw [hbare]
  rfl

/-- One group of six replicas, seen from its first one: it owns every key, one policy governs them,
the identity is the hash, and a valid signature spells the signer's id. -/
def sample : Env where
  params := {}
  config := { groups := 1, n := 6, f := 1, hosts := fun _ i => [UInt8.ofNat i] }
  groupIdx := 0
  idx := 0
  H := fun b => b
  sign := fun _ => [0]
  verify := fun signer _ signature => signature == [signer.toUInt8]
  verifyClient := fun signer _ signature => signature == [signer.toUInt8]
  verifyHMAC := fun _ _ _ _ => true
  keyOwned := fun _ => true
  policyIdFunction := fun _ _ => []
  valTxnDigest := fun data => data
  parsePolicy := fun _ => .weight 1

end Env

end Sintr
