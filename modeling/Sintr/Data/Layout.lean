import Sintr.Data.Digest
import Sintr.Lib.Framing

/-!
# What a transaction digest determines

`TransactionDigest` hashes the fields of a transaction one after the other, without their lengths.
The client and its sequence number come first and have a fixed length. The other fields can be told
apart between transactions of one layout (`SameLayout`): then a digest determines what it covers
(`SameContent`, `digest_covers`). With hidden timestamps it covers the hashes of versions in place
of the versions.
-/

namespace Sintr

open Framing

/-! ## Encoders -/

theorem length_le64 (x : UInt64) : (le64 x).length = 8 := rfl

theorem le64_injective : Function.Injective le64 := by
  intro x y h
  -- byte `i` is digit `i` to base 256
  simp only [le64, List.cons.injEq, ← UInt8.toNat_inj, UInt64.toNat_toUInt8,
    UInt64.toNat_shiftRight, and_true, Nat.shiftRight_eq_div_pow, UInt64.reduceToNat,
    Nat.reduceMod, Nat.reducePow] at h
  have hx := UInt64.toNat_lt x
  have hy := UInt64.toNat_lt y
  apply UInt64.toNat_inj.1
  omega

theorem framed_le64 : Framed le64 (fun _ => ()) (fun x => x) := .fixed length_le64 le64_injective

theorem framed_timestamp : Framed timestampBytes (fun _ => ()) (fun t => t) :=
  ((framed_le64.comap Timestamp.id).append (framed_le64.comap Timestamp.timestamp)).mono
    (fun _ => rfl) fun {x y} _ h => by
      obtain ⟨hid, hts⟩ := Prod.mk.inj h
      cases x
      cases y
      simp_all

/-! ## Layouts -/

variable (hashedTS : Bool)

def readLayout (r : ReadMessage) : Nat × Option Nat :=
  (r.key.length, if hashedTS then r.hashedReadtime.map List.length else none)

def coveredRead (r : ReadMessage) : Key × (Timestamp ⊕ Option Bytes) :=
  (r.key, if hashedTS then .inr r.hashedReadtime else .inl r.readtime)

def writeLayout (w : WriteMessage) : Nat × Option Nat := (w.key.length, w.value.map List.length)

/-- What the digest covers of a transaction's own version. -/
def coveredTimestamp (txn : Transaction) : Timestamp ⊕ Bytes :=
  if hashedTS then .inr txn.hashedTimestamp else .inl txn.timestamp

/-- The two transactions have as many groups, reads, writes and dependencies, of the same
lengths. -/
structure SameLayout (a b : Transaction) : Prop where
  groups : a.involvedGroups.length = b.involvedGroups.length
  reads : a.readSet.map (readLayout hashedTS) = b.readSet.map (readLayout hashedTS)
  writes : a.writeSet.map writeLayout = b.writeSet.map writeLayout
  deps : a.deps.map (·.preparedTxnDigest.length) = b.deps.map (·.preparedTxnDigest.length)
  hashedTimestamp : hashedTS = true → a.hashedTimestamp.length = b.hashedTimestamp.length

/-- The two transactions have the same groups, reads, writes, dependencies and version, as far as
the digest covers them. -/
structure SameContent (a b : Transaction) : Prop where
  groups : a.involvedGroups = b.involvedGroups
  reads : a.readSet.map (coveredRead hashedTS) = b.readSet.map (coveredRead hashedTS)
  writes : a.writeSet.map (fun w => (w.key, w.value)) = b.writeSet.map fun w => (w.key, w.value)
  deps : a.deps.map (·.preparedTxnDigest) = b.deps.map (·.preparedTxnDigest)
  timestamp : coveredTimestamp hashedTS a = coveredTimestamp hashedTS b

theorem framed_read :
    Framed (readBytes hashedTS) (readLayout hashedTS) (coveredRead hashedTS) := by
  cases hashedTS with
  | false =>
    refine ((Framed.field ReadMessage.key).append
      (framed_timestamp.comap ReadMessage.readtime)).mono ?_ ?_
    · intro x y h
      exact Prod.ext (Prod.mk.inj h).1 rfl
    · intro x y _ h
      obtain ⟨hkey, htime⟩ := Prod.mk.inj h
      exact Prod.ext hkey (congrArg Sum.inl htime)
  | true =>
    refine ((Framed.field ReadMessage.key).append
      (Framed.optional ReadMessage.hashedReadtime)).mono (fun h => h) ?_
    intro x y _ h
    obtain ⟨hkey, hhash⟩ := Prod.mk.inj h
    exact Prod.ext hkey (congrArg Sum.inr hhash)

/-! ## The digest -/

theorem transactionBytes_eq (txn : Transaction) (hashEndorsements : Bool) :
    ∃ rest, transactionBytes txn hashedTS hashEndorsements =
      le64 txn.clientId ++ (le64 txn.clientSeqNum ++ (txn.involvedGroups.flatMap le64 ++
        (txn.readSet.flatMap (readBytes hashedTS) ++
          (txn.writeSet.flatMap (fun w => w.key ++ w.value.getD []) ++
            (txn.deps.flatMap (·.preparedTxnDigest) ++
              ((if hashedTS then txn.hashedTimestamp else timestampBytes txn.timestamp) ++
                rest)))))) := by
  unfold transactionBytes
  simp only [List.append_assoc]
  exact ⟨_, rfl⟩

theorem sameContent_of_bytes {a b : Transaction} {hashEndorsements : Bool}
    (h : transactionBytes a hashedTS hashEndorsements =
      transactionBytes b hashedTS hashEndorsements) :
    (a.clientId = b.clientId ∧ a.clientSeqNum = b.clientSeqNum) ∧
      (SameLayout hashedTS a b → SameContent hashedTS a b) := by
  obtain ⟨ra, ha⟩ := transactionBytes_eq hashedTS a hashEndorsements
  obtain ⟨rb, hb⟩ := transactionBytes_eq hashedTS b hashEndorsements
  rw [ha, hb] at h
  obtain ⟨hclient, h⟩ := framed_le64.split rfl h
  obtain ⟨hseq, h⟩ := framed_le64.split rfl h
  refine ⟨⟨hclient, hseq⟩, fun hl => ?_⟩
  obtain ⟨hgroups, h⟩ := framed_le64.flatMap.split (by simp [hl.groups]) h
  obtain ⟨hreads, h⟩ := (framed_read hashedTS).flatMap.split hl.reads h
  obtain ⟨hwrites, h⟩ := ((Framed.field WriteMessage.key).append
    (.optional WriteMessage.value)).flatMap.split hl.writes h
  obtain ⟨hdeps, h⟩ := (Framed.field Dependency.preparedTxnDigest).flatMap.split hl.deps h
  refine ⟨by simpa using hgroups, hreads, hwrites, hdeps, ?_⟩
  unfold coveredTimestamp
  cases hashedTS with
  | false =>
    obtain ⟨htime, -⟩ := framed_timestamp.split rfl h
    exact congrArg Sum.inl htime
  | true =>
    obtain ⟨hhash, -⟩ := List.append_inj h (hl.hashedTimestamp rfl)
    exact congrArg Sum.inr hhash

theorem digest_covers (H : HashFn) (hH : Function.Injective H) (hashEndorsements : Bool)
    (a b : Transaction)
    (h : transactionDigest H a true hashedTS hashEndorsements =
      transactionDigest H b true hashedTS hashEndorsements) :
    (a.clientId = b.clientId ∧ a.clientSeqNum = b.clientSeqNum) ∧
      (SameLayout hashedTS a b → SameContent hashedTS a b) :=
  sameContent_of_bytes hashedTS (hH h)

/-- A byte moves from a value into its key. With hidden timestamps the version may change, and the
group that a dependency is in always may. The digest stays. -/
theorem digest_transfers :
    let H : HashFn := fun b => b
    let txn : Transaction := { clientId := 1, clientSeqNum := 1, involvedGroups := [0] }
    Function.Injective H ∧
    (transactionDigest H { txn with writeSet := [{ key := [97], value := some [98, 99] }] } true
          false false =
        transactionDigest H { txn with writeSet := [{ key := [97, 98], value := some [99] }] } true
          false false ∧
      [({ key := [97], value := some [98, 99] } : WriteMessage)] ≠
        [{ key := [97, 98], value := some [99] }]) ∧
    (transactionDigest H { txn with timestamp := ⟨5, 1⟩, hashedTimestamp := [7] } true true false =
        transactionDigest H { txn with timestamp := ⟨6, 1⟩, hashedTimestamp := [7] } true true
          false ∧ (⟨5, 1⟩ : Timestamp) ≠ ⟨6, 1⟩) ∧
    (transactionDigest H { txn with deps := [⟨[9], ⟨5, 1⟩, 0⟩] } true false false =
        transactionDigest H { txn with deps := [⟨[9], ⟨5, 1⟩, 1⟩] } true false false ∧
      [(⟨[9], ⟨5, 1⟩, 0⟩ : Dependency)] ≠ [⟨[9], ⟨5, 1⟩, 1⟩]) := by
  refine ⟨fun _ _ h => h, ?_⟩
  decide +kernel

theorem digest_covers_endorsed :
    let a : Transaction :=
      { clientId := 1, clientSeqNum := 1, involvedGroups := [0]
        writeSet := [{ key := [97], value := some [98] }] }
    let b : Transaction := { a with endorsements := some [⟨[1], 2, [3]⟩] }
    a ≠ b ∧ SameContent false a b := by
  intro a b
  refine ⟨by decide, (digest_covers false (fun b => b) (fun _ _ h => h) false a b rfl).2 ?_⟩
  exact ⟨rfl, rfl, rfl, rfl, fun _ => rfl⟩

end Sintr
