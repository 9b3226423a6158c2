import Mathlib.Data.List.Sort
import Sintr.Policy.Policy

/-!
# The endorsements that a client collects

The validating clients send what they have computed, and the initiating client learns at its commit
which digest to expect. Endorsements that come before wait in a map until then; those that come
later are compared at once.
-/

namespace Sintr

open List

variable {α M : Type} {m : List (UInt64 × α)}

/-- `m[k] = x` for a `std::map`. -/
def assign (k : UInt64) (x : α) (m : List (UInt64 × α)) : List (UInt64 × α) :=
  (m.filter fun e => e.1 != k).orderedInsert (fun a b => a.1 ≤ b.1) (k, x)

theorem mem_assign {k : UInt64} {x : α} {e : UInt64 × α} (h : e ∈ assign k x m) :
    e = (k, x) ∨ e ∈ m :=
  ((mem_orderedInsert _).1 h).imp_right mem_of_mem_filter

theorem assign_perm {k : UInt64} {x : α} (h : k ∉ m.map Prod.fst) :
    (assign k x m).Perm ((k, x) :: m) := by
  have hall : m.filter (fun e => e.1 != k) = m := by
    refine filter_eq_self.2 fun e he => bne_iff_ne.2 fun heq => h ?_
    exact mem_map.2 ⟨e, he, heq⟩
  rw [assign, hall]
  exact perm_orderedInsert _ _ _

/-- The `EndorsementCheckState` of a transaction, with messages `M`. -/
structure EndorsementCheckState (M : Type) where
  expectedTxnDigest : Digest := []
  policyClient : PolicyClient := none
  clientIdsReceived : Finset UInt64 := ∅
  endorsements : List M := []
  pendingEndorsements : List (UInt64 × Digest × M) := []
  pendingDigests : List (UInt64 × Digest) := []
  numChecksBeforeDestruct : Int := -1
  numCheckValidations : Nat := 0
  endorsementsUsed : Bool := false

def EndorsementCheckState.done (st : EndorsementCheckState M) : Bool :=
  0 ≤ st.numChecksBeforeDestruct && st.numChecksBeforeDestruct ≤ st.numCheckValidations &&
    st.endorsementsUsed

structure EndorsementClient (M : Type) where
  clientId : UInt64
  endorsementCheckStates : UInt64 → Option (EndorsementCheckState M) := fun _ => none
  blacklistedClients : Finset UInt64 := ∅

namespace EndorsementClient

variable (c : EndorsementClient M) (seq : UInt64)

def set (st : Option (EndorsementCheckState M)) : EndorsementClient M :=
  { c with endorsementCheckStates := Function.update c.endorsementCheckStates seq st }

/-- An operation ends: a state that is done is destructed. -/
def put (st : EndorsementCheckState M) : EndorsementClient M :=
  c.set seq (if st.done then none else some st)

def blacklist (ids : Finset UInt64) : EndorsementClient M :=
  { c with blacklistedClients := c.blacklistedClients ∪ ids }

@[simp] theorem put_blacklistedClients (st : EndorsementCheckState M) :
    (c.put seq st).blacklistedClients = c.blacklistedClients :=
  rfl

/-! Where an operation needs the state of a transaction, `none` is its Panic. -/

def setClientSeqNum : Option (EndorsementClient M) :=
  match c.endorsementCheckStates seq with
  | some _ => none
  | none => some (c.set seq (some {}))

def setEndorsementsUsed : Option (EndorsementClient M) :=
  (c.endorsementCheckStates seq).map fun st => c.put seq { st with endorsementsUsed := true }

def setExpectedTxnDigest (d : Digest) : Option (EndorsementClient M) :=
  (c.endorsementCheckStates seq).map fun st =>
    let equal := st.pendingEndorsements.filter (·.2.1 == d)
    ((c.blacklist ((st.pendingEndorsements.filter (·.2.1 != d)).map Prod.fst).toFinset).blacklist
        ((st.pendingDigests.filter (·.2 != d)).map Prod.fst).toFinset).put seq
      { st with
        expectedTxnDigest := d
        clientIdsReceived :=
          insert c.clientId st.clientIdsReceived ∪ (equal.map Prod.fst).toFinset
        endorsements := st.endorsements ++ equal.map (·.2.2)
        numCheckValidations :=
          st.numCheckValidations + st.pendingEndorsements.length + st.pendingDigests.length
        pendingEndorsements := []
        pendingDigests := [] }

def addValidation (peer : UInt64) (valTxnDigest : Digest) (m : M) : EndorsementClient M :=
  match c.endorsementCheckStates seq with
  | none => c
  | some st =>
    if peer ∈ st.clientIdsReceived then c.put seq st
    else if st.expectedTxnDigest.length > 0 then
      let checked := { st with numCheckValidations := st.numCheckValidations + 1 }
      if valTxnDigest = st.expectedTxnDigest then
        c.put seq
          { checked with
            clientIdsReceived := insert peer st.clientIdsReceived
            endorsements := st.endorsements ++ [m] }
      else (c.blacklist {peer}).put seq checked
    else
      c.put seq
        { st with pendingEndorsements := assign peer (valTxnDigest, m) st.pendingEndorsements }

def addValidationOptimistic (peer : UInt64) (m : M) : EndorsementClient M :=
  match c.endorsementCheckStates seq with
  | none => c
  | some st =>
    if peer ∈ st.clientIdsReceived then c
    else
      c.set seq (some { st with
        clientIdsReceived := insert peer st.clientIdsReceived
        endorsements := st.endorsements ++ [m] })

def checkValidation (peer : UInt64) (valTxnDigest : Digest) : EndorsementClient M :=
  match c.endorsementCheckStates seq with
  | none => c
  | some st =>
    if st.expectedTxnDigest.length > 0 then
      (if valTxnDigest ≠ st.expectedTxnDigest then c.blacklist {peer} else c).put seq
        { st with numCheckValidations := st.numCheckValidations + 1 }
    else
      c.put seq { st with pendingDigests := assign peer valTxnDigest st.pendingDigests }

def isSatisfied : Option (EndorsementClient M) :=
  (c.endorsementCheckStates seq).map fun st =>
    if st.policyClient.isSatisfied st.clientIdsReceived then
      c.set seq (some { st with numChecksBeforeDestruct := st.clientIdsReceived.card - 1 })
    else c

/-! ## The states of the transactions -/

structure EachState (c : EndorsementClient M) (id : UInt64)
    (I : UInt64 → EndorsementCheckState M → Prop) : Prop where
  client : c.clientId = id
  state : ∀ {seq st}, c.endorsementCheckStates seq = some st → I seq st

variable {c seq} {id : UInt64} {I : UInt64 → EndorsementCheckState M → Prop}
  {st : EndorsementCheckState M}

theorem EachState.set {o : Option (EndorsementCheckState M)} (h : c.EachState id I)
    (ho : ∀ st, o = some st → I seq st) : (c.set seq o).EachState id I := by
  refine ⟨h.client, fun {seq' st} hst => ?_⟩
  rcases eq_or_ne seq' seq with rfl | hne
  · exact ho st (by simpa [EndorsementClient.set] using hst)
  · exact h.state (by simpa [EndorsementClient.set, hne] using hst)

theorem EachState.put (h : c.EachState id I) (hst : I seq st) :
    (c.put seq st).EachState id I := by
  refine h.set fun st' hst' => ?_
  split_ifs at hst'
  exact Option.some.inj hst' ▸ hst

theorem EachState.blacklist (h : c.EachState id I) (ids : Finset UInt64) :
    (c.blacklist ids).EachState id I :=
  ⟨h.client, h.state⟩

/-! ## When the digest becomes known -/

variable {d : Digest} {vs : List (UInt64 × Digest × M)} {pending : List (UInt64 × Digest × M)}
  {c₀ : EndorsementClient M}

def addAll (seq : UInt64) (c : EndorsementClient M) (vs : List (UInt64 × Digest × M)) :
    EndorsementClient M :=
  vs.foldl (fun c v => c.addValidation seq v.1 v.2.1 v.2.2) c

/-- The digest becomes known after `k` of the endorsements. -/
def collect (c : EndorsementClient M) (seq : UInt64) (d : Digest)
    (vs : List (UInt64 × Digest × M)) (k : Nat) : Option (EndorsementClient M) :=
  ((addAll seq c (vs.take k)).setExpectedTxnDigest seq d).map fun c => addAll seq c (vs.drop k)

structure Divided (c₀ : EndorsementClient M) (seq : UInt64) (d : Digest)
    (vs : List (UInt64 × Digest × M)) (c : EndorsementClient M)
    (st : EndorsementCheckState M) : Prop where
  state : c.endorsementCheckStates seq = some st
  expected : st.expectedTxnDigest = d
  waiting : st.numChecksBeforeDestruct = -1
  received : st.clientIdsReceived =
    insert c₀.clientId ((vs.filter (·.2.1 == d)).map Prod.fst).toFinset
  stored : st.endorsements.Perm ((vs.filter (·.2.1 == d)).map (·.2.2))
  blacklisted : c.blacklistedClients =
    c₀.blacklistedClients ∪ ((vs.filter (·.2.1 != d)).map Prod.fst).toFinset

theorem addAll_early (hnodup : ((pending ++ vs).map Prod.fst).Nodup) :
    ∃ pending', pending'.Perm (pending ++ vs) ∧
      addAll seq (c.set seq (some { pendingEndorsements := pending })) vs =
        c.set seq (some { pendingEndorsements := pending' }) := by
  induction vs generalizing pending with
  | nil => exact ⟨pending, by simp, rfl⟩
  | cons v vs ih =>
    have hv : v.1 ∉ pending.map Prod.fst := by
      rw [map_append, nodup_append] at hnodup
      exact fun hmem => hnodup.2.2 v.1 hmem v.1 (by simp) rfl
    have hperm := (assign_perm (x := v.2) hv).append_right vs
    have hmid : ((v.1, v.2) :: pending ++ vs).Perm (pending ++ v :: vs) := perm_middle.symm
    obtain ⟨pending', hp, heq⟩ := ih (((hperm.trans hmid).map Prod.fst).nodup_iff.2 hnodup)
    refine ⟨pending', hp.trans (hperm.trans hmid), ?_⟩
    rw [← heq]
    simp [addAll, addValidation, set, put, EndorsementCheckState.done]

theorem put_waiting (h : st.numChecksBeforeDestruct = -1) :
    (c.put seq st).endorsementCheckStates seq = some st := by
  simp [put, set, EndorsementCheckState.done, h]

theorem divided_early (hperm : pending.Perm vs) :
    ∃ c' st, (c.set seq (some { pendingEndorsements := pending })).setExpectedTxnDigest seq d =
      some c' ∧ Divided c seq d vs c' st := by
  have hequal := hperm.filter (·.2.1 == d)
  have hother := (hperm.filter (·.2.1 != d)).map Prod.fst
  simp only [setExpectedTxnDigest, set, Function.update_self, Option.map_some]
  refine ⟨_, _, rfl, put_waiting rfl, rfl, rfl, ?_, ?_, ?_⟩
  · simp [toFinset_eq_of_perm _ _ (hequal.map Prod.fst)]
  · simpa using hequal.map (·.2.2)
  · simp [blacklist, toFinset_eq_of_perm _ _ hother]

theorem Divided.add {v : UInt64 × Digest × M} (h : Divided c₀ seq d vs c st) (hd : d ≠ [])
    (hself : v.1 ≠ c₀.clientId) (hnew : v.1 ∉ vs.map Prod.fst) :
    ∃ st', Divided c₀ seq d (vs ++ [v]) (c.addValidation seq v.1 v.2.1 v.2.2) st' := by
  have hout : v.1 ∉ st.clientIdsReceived := by
    rw [h.received, Finset.mem_insert, mem_toFinset, not_or]
    exact ⟨hself, fun hmem => hnew ((filter_sublist.map Prod.fst).subset hmem)⟩
  have hlen : d.length > 0 := length_pos_iff.2 hd
  by_cases heq : v.2.1 = d
  · simp only [addValidation, h.state, if_neg hout, h.expected, if_pos hlen, if_pos heq]
    refine ⟨_, put_waiting h.waiting, rfl, h.waiting, ?_, ?_, ?_⟩
    · simp [h.received, heq, Finset.insert_comm]
    · simpa [heq] using h.stored.append_right _
    · simpa [heq] using h.blacklisted
  · simp only [addValidation, h.state, if_neg hout, h.expected, if_pos hlen, if_neg heq]
    refine ⟨_, put_waiting h.waiting, rfl, h.waiting, ?_, ?_, ?_⟩
    · simp [h.received, heq]
    · simpa [heq] using h.stored
    · simp [heq, blacklist, h.blacklisted]

theorem Divided.addAll {late : List (UInt64 × Digest × M)} (h : Divided c₀ seq d vs c st)
    (hd : d ≠ []) (hself : c₀.clientId ∉ late.map Prod.fst)
    (hnodup : ((vs ++ late).map Prod.fst).Nodup) :
    ∃ st', Divided c₀ seq d (vs ++ late) (addAll seq c late) st' := by
  induction late generalizing vs c st with
  | nil => exact ⟨st, by simpa [EndorsementClient.addAll] using h⟩
  | cons v late ih =>
    rw [map_cons, mem_cons, not_or] at hself
    have hnew : v.1 ∉ vs.map Prod.fst := by
      rw [map_append, nodup_append] at hnodup
      exact fun hmem => hnodup.2.2 v.1 hmem v.1 (by simp) rfl
    obtain ⟨st', h'⟩ := h.add hd (Ne.symm hself.1) hnew
    rw [append_cons] at hnodup ⊢
    exact ih h' hself.2 hnodup

/-- **The outcome does not depend on when the digest becomes known**: the client itself and the
peers that sent the digest are counted, with one stored message each, and the others are
blacklisted. -/
theorem collect_spec {c₀ : EndorsementClient M} (hc : c.setClientSeqNum seq = some c₀) (hd : d ≠ [])
    (hself : c.clientId ∉ vs.map Prod.fst) (hnodup : (vs.map Prod.fst).Nodup) (k : Nat) :
    ∃ c' st, collect c₀ seq d vs k = some c' ∧ c'.endorsementCheckStates seq = some st ∧
      st.clientIdsReceived =
        insert c.clientId ((vs.filter (·.2.1 == d)).map Prod.fst).toFinset ∧
      st.endorsements.Perm ((vs.filter (·.2.1 == d)).map (·.2.2)) ∧
      c'.blacklistedClients =
        c.blacklistedClients ∪ ((vs.filter (·.2.1 != d)).map Prod.fst).toFinset := by
  obtain rfl : c.set seq (some {}) = c₀ := by
    unfold setClientSeqNum at hc
    cases hst : c.endorsementCheckStates seq <;> simp_all
  rw [← List.take_append_drop k vs] at hnodup
  have hearly : ((vs.take k).map Prod.fst).Nodup :=
    hnodup.sublist ((List.sublist_append_left _ _).map _)
  obtain ⟨pending, hperm, heq⟩ := @addAll_early M c seq _ [] hearly
  obtain ⟨c₁, st₁, hset, h₁⟩ := @divided_early M c seq d _ _ hperm
  have hlate : c.clientId ∉ (vs.drop k).map Prod.fst := fun hmem =>
    hself (((List.drop_sublist k vs).map _).subset hmem)
  obtain ⟨st, h⟩ := h₁.addAll hd hlate hnodup
  rw [List.nil_append, List.take_append_drop] at h
  exact ⟨_, st, by simp [collect, heq, hset], h.state, h.received, h.stored, h.blacklisted⟩

theorem collect_spec_two :
    let c : EndorsementClient Nat := { clientId := 0 }
    ∃ c₀, c.setClientSeqNum 1 = some c₀ ∧ ∃ c' st,
      collect c₀ 1 [7] [(1, [7], 10), (2, [8], 20)] 1 = some c' ∧
      c'.endorsementCheckStates 1 = some st ∧ st.clientIdsReceived = {0, 1} ∧
      st.endorsements.Perm [10] ∧ c'.blacklistedClients = {2} :=
  ⟨_, rfl, @collect_spec Nat { clientId := 0 } 1 [7] [(1, [7], 10), (2, [8], 20)] _ rfl (by decide)
    (by decide) (by decide) 1⟩

/-- The empty digest counts as not known: an endorsement that comes after it waits. -/
theorem collect_empty :
    let counted := fun k => ((({ clientId := 0 } : EndorsementClient Nat).setClientSeqNum 1).bind
      fun c₀ => (collect c₀ 1 [] [(1, [], 10)] k).bind fun c' =>
        (c'.endorsementCheckStates 1).map (·.clientIdsReceived))
    counted 0 = some {0} ∧ counted 1 = some {0, 1} := by
  decide +kernel

end EndorsementClient

end Sintr
