import Sintr.Mvtso.State

/-!
# What a commit installs

`CommitToStore` is a loop over the write set. It carries the last value it saw into writes that have
none, `put` keeps a version that is there already, and a governance transaction leaves the loop
after its first policy.
-/

namespace Sintr.Mvtso

open State List Option

section
variable {env : Env} {s : State} {c : Committed} {k : Key}

def lastValue (ws : List WriteMessage) (val : Bytes) : Bytes :=
  (ws.filterMap (·.value)).getLastD val

theorem lastValue_cons (w : WriteMessage) (ws : List WriteMessage) (val : Bytes) :
    lastValue (w :: ws) val = lastValue ws (w.value.getD val) := by
  unfold lastValue
  cases hv : w.value with
  | none => rw [filterMap_cons_none hv]; rfl
  | some v => rw [filterMap_cons_some hv, getLastD_cons]; rfl

theorem find_storedValues {α : Type} {f : Bytes → α} {x : α} (ws : List WriteMessage)
    (val : Bytes) :
    ((storedValues ws val).find? fun e => decide (e.1 = k)).map (fun e => f e.2) = some x ↔
      ∃ before w after, ws = before ++ w :: after ∧ (∀ w' ∈ before, w'.key ≠ k) ∧ w.key = k ∧
        f (w.value.getD (lastValue before val)) = x := by
  induction ws generalizing val with
  | nil => simp [storedValues]
  | cons w ws ih =>
    rw [storedValues]
    by_cases hk : w.key = k
    · rw [find?_cons_of_pos (by simpa using hk)]
      constructor
      · intro hv
        exact ⟨[], w, ws, rfl, nofun, hk, some.inj hv⟩
      · rintro ⟨before, w', after, hsplit, hbefore, -, hv⟩
        cases before with
        | nil =>
          obtain ⟨rfl, -⟩ := cons.inj hsplit
          exact congrArg some hv
        | cons w'' before =>
          obtain ⟨rfl, -⟩ := cons.inj hsplit
          exact absurd hk (hbefore w mem_cons_self)
    · rw [find?_cons_of_neg (by simpa using hk), ih]
      constructor
      · rintro ⟨before, w', after, rfl, hbefore, hkey, hv⟩
        refine ⟨w :: before, w', after, rfl, ?_, hkey, ?_⟩
        · exact forall_mem_cons.2 ⟨hk, hbefore⟩
        · rwa [lastValue_cons]
      · rintro ⟨before, w', after, hsplit, hbefore, hkey, hv⟩
        cases before with
        | nil =>
          obtain ⟨rfl, -⟩ := cons.inj hsplit
          exact absurd hkey hk
        | cons w'' before =>
          obtain ⟨rfl, rfl⟩ := cons.inj hsplit
          rw [lastValue_cons] at hv
          exact ⟨before, w', after, rfl, (forall_mem_cons.1 hbefore).2, hkey, hv⟩

end

section
variable (env : Env) (s : State) (c : Committed)

def effectiveWrites (txn : Transaction) : List WriteMessage :=
  txn.writeSet.filter (ownedWrite env txn)

/-- The loop of `CommitToStore` reaches its end: in key-value mode it panics at a write without a
value, and it does at any write of a transaction that does not carry its own digest. -/
def Storable (txn : Transaction) : Prop :=
  (env.params.sqlMode = true ∨ ∀ w ∈ effectiveWrites env txn, w.value.isSome) ∧
    (effectiveWrites env txn ≠ [] → txn.txndigest = some (env.digest txn))

theorem storable_iff (txn : Transaction) : Storable env txn ↔
    ¬ (!env.params.sqlMode && (effectiveWrites env txn).any (·.value.isNone) ||
      !(effectiveWrites env txn).isEmpty && txn.txndigest != some (env.digest txn)) = true := by
  unfold Storable
  cases env.params.sqlMode <;> simp [isSome_iff_ne_none]

theorem mem_store_commitToStore (htype : c.txn.policyType = .none) (k : Key) (v : Value) :
    (c.txn.timestamp, v) ∈ (s.commitToStore env c).store k ↔
      (c.txn.timestamp, v) ∈ s.store k ∨ Storable env c.txn ∧
        (∀ v', (c.txn.timestamp, v') ∉ s.store k) ∧
        ∃ before w after, effectiveWrites env c.txn = before ++ w :: after ∧
          (∀ w' ∈ before, w'.key ≠ k) ∧ w.key = k ∧
          ⟨w.value.getD (lastValue before []), c.proof⟩ = v := by
  have hinsert : (c.txn.timestamp, v) ∈ updates
      ((storedValues (effectiveWrites env c.txn) []).map fun e =>
        (e.1, fun m => m.insertNew c.txn.timestamp ⟨e.2, c.proof⟩)) s.store k ↔
      (c.txn.timestamp, v) ∈ s.store k ∨ (∀ v', (c.txn.timestamp, v') ∉ s.store k) ∧
        ∃ before w after, effectiveWrites env c.txn = before ++ w :: after ∧
          (∀ w' ∈ before, w'.key ≠ k) ∧ w.key = k ∧
          ⟨w.value.getD (lastValue before []), c.proof⟩ = v := by
    rw [OrdMap.mem_inserts_at (g := Prod.fst) (v := fun e => (⟨e.2, c.proof⟩ : Value))]
    refine or_congr Iff.rfl (and_congr Iff.rfl ?_)
    exact find_storedValues (f := fun val => (⟨val, c.proof⟩ : Value)) _ _
  unfold commitToStore
  rw [htype]
  dsimp only
  change _ ∈ State.store (if (!env.params.sqlMode &&
      (effectiveWrites env c.txn).any (·.value.isNone) || !(effectiveWrites env c.txn).isEmpty &&
        c.txn.txndigest != some (env.digest c.txn)) = true then _ else _) k ↔ _
  by_cases hloop : Storable env c.txn
  · rw [if_neg ((storable_iff env c.txn).1 hloop)]
    exact hinsert.trans (or_congr Iff.rfl ⟨fun h => ⟨hloop, h⟩, And.right⟩)
  · rw [if_pos (not_not.1 fun h => hloop ((storable_iff env c.txn).2 h))]
    simp only [hloop, false_and, or_false]
    rfl

theorem mem_policyStore_commitToStore (htype : c.txn.policyType = .policyIdPolicy) (k : Bytes)
    (v : PolicyStoreValue) :
    (c.txn.timestamp, v) ∈ (s.commitToStore env c).policyStore k ↔
      (c.txn.timestamp, v) ∈ s.policyStore k ∨
        (∀ v', (c.txn.timestamp, v') ∉ s.policyStore k) ∧
        ∃ w ∈ (effectiveWrites env c.txn).head?, w.key = k ∧
          ⟨env.parsePolicy (w.value.getD []), c.proof⟩ = v := by
  unfold commitToStore
  rw [htype]
  dsimp only
  rw [show c.txn.writeSet.filter (ownedWrite env c.txn) = effectiveWrites env c.txn from rfl]
  cases effectiveWrites env c.txn with
  | nil => simp [updateCommittedReads]
  | cons w ws =>
    by_cases hk : w.key = k
    · subst hk
      simp only [Function.update_self, OrdMap.mem_insertNew, Prod.mk.injEq, true_and,
        head?_cons, mem_some_iff, exists_eq_left']
      rw [and_comm, eq_comm]
      rfl
    · simp [Function.update_of_ne (Ne.symm hk), hk, updateCommittedReads]

/-! ## Writes that are installed -/

/-- After the commit every write of the transaction is there, at its timestamp, with its own
value. -/
def Installs : Prop :=
  ∀ w ∈ effectiveWrites env c.txn,
    (c.txn.policyType = .none →
      (c.txn.timestamp, ⟨w.value.getD [], c.proof⟩) ∈ (s.commitToStore env c).store w.key) ∧
    (c.txn.policyType = .policyIdPolicy →
      (c.txn.timestamp, ⟨env.parsePolicy (w.value.getD []), c.proof⟩) ∈
        (s.commitToStore env c).policyStore w.key)

/-- The row write `w` is there before, or there is no version at this timestamp and the first write
of its key has the value of `w`, where one without a value gets the last before it. -/
def RowInstallable (w : WriteMessage) : Prop :=
  (c.txn.timestamp, ⟨w.value.getD [], c.proof⟩) ∈ s.store w.key ∨
    Storable env c.txn ∧ (∀ v, (c.txn.timestamp, v) ∉ s.store w.key) ∧
      ∃ before first after, effectiveWrites env c.txn = before ++ first :: after ∧
        (∀ w' ∈ before, w'.key ≠ w.key) ∧ first.key = w.key ∧
        first.value.getD (lastValue before []) = w.value.getD []

/-- The policy write `w` is there before the commit, or there is no version at this timestamp and
the first write of the transaction writes the same policy. -/
def PolicyInstallable (w : WriteMessage) : Prop :=
  (c.txn.timestamp, ⟨env.parsePolicy (w.value.getD []), c.proof⟩) ∈ s.policyStore w.key ∨
    (∀ v, (c.txn.timestamp, v) ∉ s.policyStore w.key) ∧
      ∃ first ∈ (effectiveWrites env c.txn).head?, first.key = w.key ∧
        env.parsePolicy (first.value.getD []) = env.parsePolicy (w.value.getD [])

def Installable : Prop :=
  ∀ w ∈ effectiveWrites env c.txn,
    (c.txn.policyType = .none → RowInstallable env s c w) ∧
    (c.txn.policyType = .policyIdPolicy → PolicyInstallable env s c w)

/-- `CommitToStore` installs every write of a transaction exactly if each is installable. -/
theorem installs_iff : Installs env s c ↔ Installable env s c := by
  unfold Installs Installable
  refine forall₂_congr fun w _ => and_congr (forall_congr' fun htype => ?_)
    (forall_congr' fun htype => ?_)
  · rw [mem_store_commitToStore env s c htype]
    simp only [Value.mk.injEq, and_true]
    rfl
  · rw [mem_policyStore_commitToStore env s c htype]
    simp only [PolicyStoreValue.mk.injEq, and_true]
    rfl

end

/-! ## Writes that are lost -/

deriving instance DecidableEq for PolicyStoreValue

instance (env : Env) (s : State) (c : Committed) : Decidable (Installs env s c) :=
  inferInstanceAs (Decidable (∀ w ∈ effectiveWrites env c.txn, _))

def rowEnv : Env := { Env.sample with params := { sqlMode := true } }

def writing (policyType : TxnPolicyType) (ws : List WriteMessage) : Committed :=
  { txn := Env.sample.named
      { clientId := 1, clientSeqNum := 1, involvedGroups := [0], timestamp := ⟨20000, 1⟩
        writeSet := ws, policyType := policyType } }

/-- The second policy of a governance transaction is not installed; a row without a value gets the
value of the row before it; of two writes of one row the first is installed. A transaction that
comes without its digest stops the replica. -/
theorem not_installed :
    let noDigest : Transaction := { clientId := 1, clientSeqNum := 1, involvedGroups := [0],
                                    writeSet := [{ key := [1], value := some [5] }] }
    (State.commitToStore Env.sample {} { txn := noDigest }).crashed = true ∧
    ¬ Installs Env.sample {} { txn := noDigest } ∧
    ¬ Installs Env.sample {} (writing .policyIdPolicy
      [{ key := [1], value := some [5] }, { key := [2], value := some [6] }]) ∧
    ¬ Installs rowEnv {} (writing .none [{ key := [1], value := some [5] }, { key := [2] }]) ∧
    ¬ Installs Env.sample {} (writing .none
      [{ key := [1], value := some [5] }, { key := [1], value := some [6] }]) := by
  decide +kernel

theorem installs_rows :
    Installs Env.sample {} (writing .none
      [{ key := [1], value := some [5] }, { key := [2], value := some [6] }]) ∧
    Installs Env.sample {} (writing .policyIdPolicy [{ key := [1], value := some [5] }]) := by
  constructor
  · refine (installs_iff _ _ _).2 fun w hw => ⟨fun _ => .inr ⟨⟨.inr (by decide), fun _ => rfl⟩,
      by simp, ?_⟩, nofun⟩
    obtain rfl | rfl := List.mem_pair.1 hw
    · exact ⟨[], _, _, rfl, nofun, rfl, rfl⟩
    · exact ⟨[_], _, _, rfl, by simp, rfl, rfl⟩
  · refine (installs_iff _ _ _).2 fun w hw => ⟨nofun, fun _ => .inr ⟨by simp, ?_⟩⟩
    obtain rfl := List.mem_singleton.1 hw
    exact ⟨_, rfl, rfl, rfl⟩

end Sintr.Mvtso
