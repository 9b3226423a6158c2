import Mathlib.Data.List.Forall2
import Sintr.Data.Layout

/-!
# Digests and the order of maps

Two fields of a transaction are protobuf maps, which every copy of a message iterates in an order of
its own: the groups of a query and the written tables. `TransactionDigest` sorts the tables, but not
the groups.
-/

namespace Sintr

open List

/-- Protobuf maps have one entry for a key: the groups of a query and the written tables. -/
structure MapKeys (txn : Transaction) : Prop where
  groups : ∀ q ∈ txn.querySet, (q.groupMeta.map (·.1)).Nodup
  tables : (txn.tableWrites.map (·.1)).Nodup

theorem MapKeys.takePredicates {g : GroupId} {k : Nat} {txn : Transaction}
    (h : MapKeys txn) : MapKeys (txn.takePredicates g k) := by
  refine ⟨fun q hq => ?_, h.tables⟩
  obtain hq | hq := mem_append.1 hq
  · obtain ⟨q', hq', rfl⟩ := mem_map.1 hq
    have hkeys : (q'.takePredicates g).groupMeta.map (·.1) = q'.groupMeta.map (·.1) := by
      rw [QueryResultMetaData.takePredicates, List.map_map]
      refine map_congr_left fun m _ => ?_
      simp only [Function.comp_apply]
      split_ifs <;> rfl
    rw [hkeys]
    exact h.groups q' (mem_of_mem_take hq')
  · exact h.groups q (mem_of_mem_drop hq)

/-- The same queries, with their groups in another order. -/
def SameQueries : List QueryResultMetaData → List QueryResultMetaData → Prop :=
  List.Forall₂ fun q q' => ∃ groups : List (GroupId × QueryGroupMeta),
    groups.Perm q.groupMeta ∧ q' = { q with groupMeta := groups }

/-- Another copy of the transaction. -/
inductive Reordered (txn : Transaction) : Transaction → Prop
  | mk {qs : List QueryResultMetaData} {tables : List (Bytes × TableWrite)}
      (hqs : SameQueries txn.querySet qs) (htables : tables.Perm txn.tableWrites) :
      Reordered txn { txn with querySet := qs, tableWrites := tables }

theorem sameQueries (l : List QueryResultMetaData) : SameQueries l l :=
  forall₂_same.2 fun q _ => ⟨q.groupMeta, .refl _, rfl⟩

theorem tableWritesBytes_perm {tw tw' : List (Bytes × TableWrite)} (hkeys : (tw.map (·.1)).Nodup)
    (h : tw'.Perm tw) : tableWritesBytes tw' = tableWritesBytes tw := by
  let le : Bytes × TableWrite → Bytes × TableWrite → Prop := fun a b => a.1 ≤ b.1
  have : Std.Total le := ⟨fun a b => List.le_total a.1 b.1⟩
  have : IsTrans _ le := ⟨fun a b c => List.le_trans⟩
  have hsorted : tw'.insertionSort le = tw.insertionSort le := by
    have hperm := h.trans (List.perm_insertionSort le tw).symm
    refine ((List.perm_insertionSort le tw').trans hperm).eq_of_pairwise
      (fun a b ha hb hab hba => ?_) (pairwise_insertionSort le _)
      (pairwise_insertionSort le _)
    exact inj_on_of_nodup_map hkeys (h.subset ((List.mem_insertionSort le).1 ha))
      ((List.mem_insertionSort le).1 hb) (List.le_antisymm hab hba)
  exact congrArg (List.flatMap fun t => t.1 ++ t.2.rows.flatMap rowBytes) hsorted

theorem perm_eq_of_length_le_one {α : Type} {l l' : List α} (h : l'.Perm l) (hl : l.length ≤ 1) :
    l' = l := by
  match l, hl with
  | [], _ => exact h.eq_nil
  | [x], _ => exact perm_singleton.1 h

theorem Reordered.bytes {txn a : Transaction} (h : Reordered txn a) (hkeys : MapKeys txn)
    (hone : ∀ q ∈ txn.querySet, q.groupMeta.length ≤ 1) (hashedTS hashEndorsements : Bool) :
    transactionBytes a hashedTS hashEndorsements =
      transactionBytes txn hashedTS hashEndorsements := by
  obtain @⟨qs, tables, hqs, htables⟩ := h
  have hsame : qs = txn.querySet := by
    generalize txn.querySet = l at hqs hone
    induction hqs with
    | nil => rfl
    | cons hq _ ih =>
      obtain ⟨groups, hperm, rfl⟩ := hq
      obtain ⟨hlen, hone⟩ := forall_mem_cons.1 hone
      rw [ih hone, perm_eq_of_length_le_one hperm hlen]
  simp only [transactionBytes, hsame, tableWritesBytes_perm hkeys.tables htables]

theorem Reordered.digest {txn a : Transaction} (h : Reordered txn a) (hkeys : MapKeys txn)
    (H : HashFn) (hashDigest hashedTS hashEndorsements : Bool)
    (hone : hashDigest = false ∨ ∀ q ∈ txn.querySet, q.groupMeta.length ≤ 1) :
    transactionDigest H a hashDigest hashedTS hashEndorsements =
      transactionDigest H txn hashDigest hashedTS hashEndorsements := by
  unfold transactionDigest
  obtain rfl | hone := hone
  · obtain ⟨-, -⟩ := h
    rfl
  · rw [h.bytes hkeys hone]
    obtain ⟨-, -⟩ := h
    rfl

theorem exists_reordered_bytes {txn : Transaction} (hkeys : MapKeys txn)
    {q : QueryResultMetaData} (hq : q ∈ txn.querySet) (hlen : 1 < q.groupMeta.length)
    (hashedTS hashEndorsements : Bool) :
    ∃ a, Reordered txn a ∧ transactionBytes a hashedTS hashEndorsements ≠
      transactionBytes txn hashedTS hashEndorsements := by
  obtain ⟨before, after, hqs⟩ := append_of_mem hq
  match hgroups : q.groupMeta, hlen with
  | x :: y :: rest, _ =>
    have hswap : SameQueries txn.querySet
        (before ++ { q with groupMeta := y :: x :: rest } :: after) := by
      rw [hqs]
      refine rel_append (sameQueries before) (.cons ⟨_, ?_, rfl⟩ (sameQueries after))
      exact hgroups ▸ .swap x y rest
    refine ⟨_, .mk hswap (.refl _), fun heq => ?_⟩
    simp only [transactionBytes, hqs, flatMap_append, flatMap_cons, queryBytes, hgroups,
      groupMetaBytes, append_assoc, append_cancel_left_eq] at heq
    obtain ⟨hxy, -⟩ := framed_le64.split rfl heq
    have hnodup := hkeys.groups q hq
    simp [hgroups, hxy] at hnodup

/-- **The digest does not depend on the order of maps** exactly if no query has two groups, or the
content is not hashed. -/
theorem digest_order_iff (H : HashFn) (hH : Function.Injective H) (txn : Transaction)
    (hkeys : MapKeys txn) (hashDigest hashedTS hashEndorsements : Bool) :
    (∀ a b, Reordered txn a → Reordered txn b →
      transactionDigest H a hashDigest hashedTS hashEndorsements =
        transactionDigest H b hashDigest hashedTS hashEndorsements) ↔
      hashDigest = false ∨ ∀ q ∈ txn.querySet, q.groupMeta.length ≤ 1 := by
  constructor
  · intro h
    cases hashDigest with
    | false => exact .inl rfl
    | true =>
      refine .inr fun q hq => Nat.not_lt.1 fun hlen => ?_
      obtain ⟨a, ha, hne⟩ := exists_reordered_bytes hkeys hq hlen hashedTS hashEndorsements
      exact hne (hH (h a txn ha (.mk (sameQueries _) (.refl _))))
  · intro hone a b ha hb
    rw [ha.digest hkeys H _ _ _ hone, hb.digest hkeys H _ _ _ hone]

def inOrder (groups : List GroupId) (tables : List Bytes) : Transaction :=
  { clientId := 1, clientSeqNum := 1
    querySet := [⟨[5], 0, groups.map fun g => (g, { readSetHash := some [9] })⟩]
    tableWrites := tables.map fun name => (name, {}) }

theorem digest_order :
    let H : HashFn := fun b => b
    Reordered (inOrder [0, 1] []) (inOrder [1, 0] []) ∧
      transactionDigest H (inOrder [0, 1] []) true false false ≠
        transactionDigest H (inOrder [1, 0] []) true false false := by
  have hswap : SameQueries (inOrder [0, 1] []).querySet (inOrder [1, 0] []).querySet :=
    .cons ⟨_, .swap _ _ [], rfl⟩ .nil
  exact ⟨.mk hswap (.refl _), by decide⟩

theorem digest_order_iff_tables :
    let H : HashFn := fun b => b
    transactionDigest H (inOrder [0] [[1], [2]]) true false false =
      transactionDigest H (inOrder [0] [[2], [1]]) true false false := by
  refine (digest_order_iff (fun b => b) (fun _ _ h => h) (inOrder [0] [[1], [2]])
    ⟨by decide, by decide⟩ true false false).2 (.inr (by decide)) _ _ ?_ ?_
  · exact .mk (sameQueries _) (.refl _)
  · exact .mk (sameQueries _) (.swap _ _ [])

end Sintr
