import Sintr.Mvtso.State

/-!
# Prepare and Clean as inverses

The entries of the prepared indexes should be those of the transactions that are prepared: `Prepare`
enters a transaction, `Clean` takes its entries out again and no others. The versions of the tables
that a transaction writes are entered later, by a closure that `Prepare` leaves to another thread.
-/

namespace Sintr.Mvtso

open State List Function

/-- A call of `Prepare`, for an ongoing transaction: the read set may be a merged one. -/
structure PrepareCall where
  txn : Transaction
  readSet : List ReadMessage
  policyReads : List (Bytes × Timestamp) := []
  /-- What `ApplyTableWrites` returns: the tables that the transaction writes in this shard. -/
  tables : List Key := []
  deriving DecidableEq

def PrepareCall.entered (c : PrepareCall) : Transaction := addPolicyReads c.txn c.policyReads

inductive IndexEvent where
  | prepare (call : PrepareCall)
  /-- The closure of the call runs. -/
  | apply (call : PrepareCall)
  | clean (d : Digest)

structure IndexState where
  state : State := {}
  /-- The calls that are in force. -/
  calls : Digest → Option PrepareCall := fun _ => none
  /-- The calls whose closure has not run yet. -/
  closures : List PrepareCall := []

section
variable (env : Env)

def indexStep (x : IndexState) : IndexEvent → IndexState
  | .prepare c =>
    let d := env.digest c.txn
    { state := x.state.prepare env d c.txn c.readSet c.policyReads
      calls := if (x.calls d).isSome then x.calls else Function.update x.calls d (some c)
      closures := if (x.calls d).isSome then x.closures else c :: x.closures }
  | .apply c =>
    if c ∈ x.closures then
      { x with
        state := x.state.applyTableVersions c.entered c.tables
        closures := x.closures.erase c }
    else x
  | .clean d => { x with state := x.state.clean env d, calls := Function.update x.calls d none }

def indexMachine : Machine IndexState IndexEvent := ⟨indexStep env⟩

def PrepareCall.Writes (c : PrepareCall) (k : Key) : Prop :=
  ∃ w ∈ c.txn.writeSet, ownedWrite env c.txn w ∧ w.key = k
deriving Decidable

/-- The keys at which the call enters a write, now or in its closure. -/
def PrepareCall.Enters (c : PrepareCall) (k : Key) : Prop := c.Writes env k ∨ k ∈ c.tables

def PrepareCall.Unwrites (c : PrepareCall) (k : Key) : Prop :=
  ∃ w ∈ cleanedWrites env c.entered, w.key = k
deriving Decidable

/-- The indexes hold what the calls in force have entered so far, and nothing else. -/
structure Exact (x : IndexState) : Prop where
  prepared : ∀ d, x.state.prepared d =
    (x.calls d).map fun c => ⟨c.txn.timestamp, c.entered, c.readSet⟩
  reads : ∀ k t, t ∈ x.state.preparedReads k ↔
    ∃ d c, x.calls d = some c ∧ t = c.entered ∧ k ∈ preparedKeys env c.readSet c.policyReads
  writes : ∀ k e, e ∈ x.state.preparedWrites k ↔
    ∃ d c, x.calls d = some c ∧ e = (c.txn.timestamp, c.entered) ∧
      (c.Writes env k ∨ k ∈ c.tables ∧ c ∉ x.closures)

/-- Two calls whose writes `Clean` can keep apart. -/
def Separate (c c' : PrepareCall) : Prop :=
  c.txn.timestamp = c'.txn.timestamp → ∀ k, ¬ (c.Enters env k ∧ c'.Unwrites env k)

/-- `Clean` finds in the transaction whatever the call enters: no row is read that is missing from
its own read set, and no table written whose version is missing from its write set. -/
structure PrepareCall.Undone (c : PrepareCall) : Prop where
  reads : preparedKeys env c.readSet c.policyReads ⊆ cleanedKeys env c.entered
  tables : ∀ k ∈ c.tables, c.Unwrites env k

/-- `Clean` can undo the call, which shares no row or table and timestamp with a transaction that is
prepared; and a transaction is cleaned once its closure has run. -/
def Reversible (x : IndexState) : IndexEvent → Prop
  | .prepare c => (x.calls (env.digest c.txn)).isSome ∨
    c.Undone env ∧ ∀ d c', x.calls d = some c' → Separate env c c' ∧ Separate env c' c
  | .apply _ => True
  | .clean d => ∀ c ∈ x.closures, env.digest c.txn ≠ d

/-! ## Steps -/

structure ExactInv (x : IndexState) : Prop extends Exact env x where
  named : ∀ {d c}, x.calls d = some c → env.digest c.txn = d
  undone : ∀ {d c}, x.calls d = some c → c.Undone env
  /-- A closure that has not run is that of a call in force. -/
  inForce : ∀ {c}, c ∈ x.closures → x.calls (env.digest c.txn) = some c
  once : x.closures.Nodup
  separate : ∀ {d d' c c'}, x.calls d = some c → x.calls d' = some c' → d ≠ d' →
    Separate env c c'

end

section
variable {env : Env} {x : IndexState} {c c' : PrepareCall} {k : Key}

theorem PrepareCall.unwrites_of_writes (h : c.Writes env k) : c.Unwrites env k := by
  obtain ⟨w, hw, hown, hk⟩ := h
  have hown' : ownedWrite env c.entered w = true := hown
  exact ⟨w, mem_filter.2 ⟨hw, by rw [hown', Bool.or_true]⟩, hk⟩

theorem PrepareCall.Undone.unwrites (h : c.Undone env) (hk : c.Enters env k) :
    c.Unwrites env k :=
  hk.elim unwrites_of_writes (h.tables k)

namespace ExactInv

theorem prepare (h : ExactInv env x) (hc : Reversible env x (.prepare c)) :
    ExactInv env (indexStep env x (.prepare c)) := by
  unfold indexStep
  dsimp only
  have hprep := h.prepared (env.digest c.txn)
  cases hcall : x.calls (env.digest c.txn) with
  | some c₀ =>
    have hsame : x.state.prepare env (env.digest c.txn) c.txn c.readSet c.policyReads =
        x.state := by
      rw [hcall] at hprep
      unfold State.prepare
      rw [hprep]
      rfl
    rw [hsame]
    exact h
  | none =>
    rw [hcall] at hprep
    have hnone : x.state.prepared (env.digest c.txn) = none := hprep
    obtain hsome | ⟨hundone, hsep⟩ := hc
    · rw [hcall] at hsome
      cases hsome
    have hfresh : c ∉ x.closures := fun hmem => by simp [h.inForce hmem] at hcall
    have hother : ∀ {d c'}, x.calls d = some c' → c' ≠ c := by
      rintro d c' hc' rfl
      rw [h.named hc', hc'] at hcall
      cases hcall
    rw [Option.isSome_none, if_neg Bool.false_ne_true, if_neg Bool.false_ne_true]
    refine ⟨⟨fun d => ?_, fun k t => ?_, fun k e => ?_⟩, fun {d c'} hc' => ?_, fun {d c'} hc' => ?_,
      fun {c'} hc' => ?_, nodup_cons.2 ⟨hfresh, h.once⟩, fun {d d' c₁ c₂} hc₁ hc₂ hne => ?_⟩
    · rw [State.prepare, if_neg (by rw [hnone]; exact Bool.false_ne_true)]
      dsimp only
      by_cases hd : d = env.digest c.txn
      · rw [hd, update_self, update_self]
        rfl
      · rw [update_of_ne hd, update_of_ne hd]
        exact h.prepared d
    · rw [mem_preparedReads_prepare hnone, h.reads]
      exact (exists_update_some hcall).symm
    · rw [mem_preparedWrites_prepare hnone, h.writes]
      refine Iff.trans (or_congr ?_ ?_) (exists_update_some hcall).symm
      · refine exists_congr fun d => exists_congr fun c' => and_congr_right fun hc' => ?_
        rw [mem_cons, not_or, and_iff_right (hother hc')]
      · have hpending : ¬ (k ∈ c.tables ∧ c ∉ c :: x.closures) := fun hk => hk.2 mem_cons_self
        refine and_congr_right fun _ =>
          (and_iff_left_of_imp fun hw t ht => ?_).trans (or_iff_left hpending).symm
        -- an entry at the same timestamp is one of a call that was not separate
        obtain ⟨d, c', hc', heq, hk⟩ := (h.writes _ _).1 ht
        exact (hsep d c' hc').1 (Prod.mk.inj heq).1 _
          ⟨.inl hw, (h.undone hc').unwrites (hk.imp_right And.left)⟩
    · obtain ⟨rfl, heq⟩ | ⟨-, hold⟩ := update_eq_some.1 hc'
      · cases heq
        rfl
      · exact h.named hold
    · obtain ⟨-, heq⟩ | ⟨-, hold⟩ := update_eq_some.1 hc'
      · cases heq
        exact hundone
      · exact h.undone hold
    · obtain rfl | hmem := mem_cons.1 hc'
      · exact update_self ..
      · have hin := h.inForce hmem
        have hne : env.digest c'.txn ≠ env.digest c.txn := fun heq => by simp [heq, hcall] at hin
        exact (update_of_ne hne ..).trans hin
    · obtain ⟨rfl, heq₁⟩ | ⟨-, hold₁⟩ := update_eq_some.1 hc₁
      · obtain ⟨rfl, -⟩ | ⟨-, hold₂⟩ := update_eq_some.1 hc₂
        · exact absurd rfl hne
        · cases heq₁
          exact (hsep _ _ hold₂).1
      · obtain ⟨rfl, heq₂⟩ | ⟨-, hold₂⟩ := update_eq_some.1 hc₂
        · cases heq₂
          exact (hsep _ _ hold₁).2
        · exact h.separate hold₁ hold₂ hne

theorem apply (h : ExactInv env x) (c : PrepareCall) :
    ExactInv env (indexStep env x (.apply c)) := by
  unfold indexStep
  dsimp only
  split_ifs with hc
  swap
  · exact h
  have hcall := h.inForce hc
  have herase {c'} : c' ∈ x.closures.erase c ↔ c' ≠ c ∧ c' ∈ x.closures := h.once.mem_erase_iff
  refine ⟨⟨h.prepared, h.reads, fun k e => ?_⟩, h.named, h.undone,
    fun hc' => h.inForce (herase.1 hc').2, h.once.erase c, h.separate⟩
  rw [mem_preparedWrites_applyTableVersions]
  constructor
  · rintro (he | ⟨rfl, hk, -⟩)
    · obtain ⟨d, c', hc', rfl, hw⟩ := (h.writes k e).1 he
      exact ⟨d, c', hc', rfl, hw.imp_right fun ⟨hk, hrun⟩ =>
        ⟨hk, fun hmem => hrun (herase.1 hmem).2⟩⟩
    · exact ⟨_, c, hcall, rfl, .inr ⟨hk, fun hmem => (herase.1 hmem).1 rfl⟩⟩
  · rintro ⟨d, c', hc', rfl, hw⟩
    by_cases hold : (c'.txn.timestamp, c'.entered) ∈ x.state.preparedWrites k
    · exact .inl hold
    -- what is new is of this call, and no other call has entered it at this timestamp
    have hnew : ¬ (c'.Writes env k ∨ k ∈ c'.tables ∧ c' ∉ x.closures) := fun hw' =>
      hold ((h.writes k _).2 ⟨d, c', hc', rfl, hw'⟩)
    obtain ⟨hnot, hrun⟩ := not_or.1 hnew
    obtain ⟨hk, hleft⟩ := hw.resolve_left hnot
    obtain rfl : c' = c := by
      by_contra hne
      exact hrun ⟨hk, fun hmem => hleft (herase.2 ⟨hne, hmem⟩)⟩
    refine .inr ⟨rfl, hk, fun t ht => ?_⟩
    obtain ⟨d', c₁, hc₁, heq, hk₁⟩ := (h.writes k _).1 ht
    by_cases hd : d = d'
    · subst hd
      cases hc'.symm.trans hc₁
      exact hnew hk₁
    · exact h.separate hc' hc₁ hd (Prod.mk.inj heq).1 k
        ⟨.inr hk, (h.undone hc₁).unwrites (hk₁.imp_right And.left)⟩

variable {d : Digest} {c : PrepareCall}

theorem prepared_of_call (h : ExactInv env x) (hcall : x.calls d = some c) :
    x.state.prepared d = some ⟨c.txn.timestamp, c.entered, c.readSet⟩ := by
  rw [h.prepared, hcall]
  rfl

theorem clean_reads (h : ExactInv env x) (hcall : x.calls d = some c) (k : Key) (t : Transaction) :
    t ∈ (x.state.clean env d).preparedReads k ↔
      ∃ d' c', update x.calls d none d' = some c' ∧ t = c'.entered ∧
        k ∈ preparedKeys env c'.readSet c'.policyReads := by
  rw [mem_preparedReads_clean (h.prepared_of_call hcall), h.reads, exists_update_none]
  constructor
  · rintro ⟨⟨d', c', hc', rfl, hk⟩, hnot⟩
    refine ⟨d', c', ?_, hc', rfl, hk⟩
    rintro rfl
    rw [hcall] at hc'
    cases hc'
    exact hnot rfl ((h.undone hcall).reads hk)
  · rintro ⟨d', c', hne, hc', rfl, hk⟩
    refine ⟨⟨d', c', hc', rfl, hk⟩, fun heq => absurd ?_ hne⟩
    -- the policies a transaction has read are not part of its digest
    have hdigest : env.digest c'.entered = env.digest c.entered := congrArg env.digest heq
    change env.digest c'.txn = env.digest c.txn at hdigest
    rwa [h.named hc', h.named hcall] at hdigest

theorem clean_writes (h : ExactInv env x) (hcall : x.calls d = some c) (k : Key)
    (e : Timestamp × Transaction) : e ∈ (x.state.clean env d).preparedWrites k ↔
      ∃ d' c', update x.calls d none d' = some c' ∧ e = (c'.txn.timestamp, c'.entered) ∧
        (c'.Writes env k ∨ k ∈ c'.tables ∧ c' ∉ x.closures) := by
  rw [mem_preparedWrites_clean (h.prepared_of_call hcall), h.writes, exists_update_none]
  constructor
  · rintro ⟨⟨d', c', hc', rfl, hw⟩, hnot⟩
    refine ⟨d', c', ?_, hc', rfl, hw⟩
    rintro rfl
    rw [hcall] at hc'
    cases hc'
    obtain ⟨w, hmem, hk⟩ := (h.undone hcall).unwrites (hw.imp_right And.left)
    exact hnot rfl (mem_map.2 ⟨w, hmem, hk⟩)
  · rintro ⟨d', c', hne, hc', rfl, hw⟩
    refine ⟨⟨d', c', hc', rfl, hw⟩, fun hts hmem => ?_⟩
    obtain ⟨w, hmem, hk⟩ := mem_map.1 hmem
    exact h.separate hc' hcall hne hts _ ⟨hw.imp_right And.left, w, hmem, hk⟩

theorem clean (h : ExactInv env x) (hd : Reversible env x (.clean d)) :
    ExactInv env (indexStep env x (.clean d)) := by
  unfold indexStep
  dsimp only
  cases hcall : x.calls d with
  | none =>
    have hsame : x.state.clean env d = x.state := by
      unfold State.clean
      rw [h.prepared, hcall]
      rfl
    rw [hsame, update_eq_self_iff.2 hcall.symm]
    exact h
  | some c =>
    have hold : ∀ {d' c'}, update x.calls d none d' = some c' →
        d' ≠ d ∧ x.calls d' = some c' := by
      intro d' c' hc'
      obtain ⟨-, hnone⟩ | hold := update_eq_some.1 hc'
      · cases hnone
      · exact hold
    refine ⟨⟨fun d' => ?_, h.clean_reads hcall, h.clean_writes hcall⟩,
      fun hc' => h.named (hold hc').2, fun hc' => h.undone (hold hc').2,
      fun hc' => (update_of_ne (hd _ hc') ..).trans (h.inForce hc'), h.once,
      fun hc₁ hc₂ hne => h.separate (hold hc₁).2 (hold hc₂).2 hne⟩
    · rw [State.clean, h.prepared_of_call hcall]
      dsimp only
      by_cases hd : d' = d
      · rw [hd, update_self, update_self]
        rfl
      · rw [update_of_ne hd, update_of_ne hd]
        exact h.prepared d'

end ExactInv

/-- In every run of reversible calls the indexes hold exactly the entries of the prepared
transactions. -/
theorem run_exact (env : Env) (es : List IndexEvent)
    (hes : (indexMachine env).Along (Reversible env) {} es) :
    Exact env ((indexMachine env).run {} es) := by
  have hinit : ExactInv env {} := by
    refine ⟨⟨fun _ => rfl, fun k t => ?_, fun k e => ?_⟩, nofun, nofun, nofun, nodup_nil, nofun⟩
    · exact ⟨(fun ht => nomatch ht), fun ⟨_, _, hc, _⟩ => nomatch hc⟩
    · exact ⟨(fun he => nomatch he), fun ⟨_, _, hc, _⟩ => nomatch hc⟩
  have hrun : ExactInv env ((indexMachine env).run {} es) := by
    refine Machine.run_along (fun x e he hx => ?_) hinit hes
    cases e with
    | prepare c => exact hx.prepare he
    | apply c => exact hx.apply c
    | clean d => exact hx.clean he
  exact hrun.toExact

end

/-! ## Entries that stay, and entries that are lost -/

def nthWrite (n : UInt64) : PrepareCall :=
  { txn := { clientId := 1, clientSeqNum := n, involvedGroups := [0], timestamp := ⟨20000, 1⟩
             writeSet := [{ key := [7], value := some [8] }] }
    readSet := [] }

def queryRead : PrepareCall :=
  { txn := { clientId := 1, clientSeqNum := 1, involvedGroups := [0], timestamp := ⟨20000, 1⟩ }
    readSet := [{ key := [9] }] }

/-- The version key of the table is in the write set, or it is not. -/
def tableWrite (writeSet : List WriteMessage) : PrepareCall :=
  { txn := { clientId := 1, clientSeqNum := 1, involvedGroups := [0], timestamp := ⟨20000, 1⟩
             writeSet }
    readSet := []
    tables := [[5]] }

/-- A transaction with its version key, and the key of a table. -/
def versionWrite : PrepareCall := tableWrite [{ key := [5], isTableColVersion := true }]

/-- A merged read stays behind; of two writes with one timestamp the second is not entered, and
cleaning its transaction removes the first. A table version stays behind if the transaction has no
key for it, or if it is cleaned before its closure runs. -/
theorem not_exact :
    ¬ Exact Env.sample ((indexMachine Env.sample).run {}
      [.prepare queryRead, .clean (Env.sample.digest queryRead.txn)]) ∧
    ¬ Exact Env.sample ((indexMachine Env.sample).run {}
      [.prepare (nthWrite 1), .prepare (nthWrite 2)]) ∧
    ¬ Exact Env.sample ((indexMachine Env.sample).run {}
      [.prepare (nthWrite 1), .prepare (nthWrite 2),
        .clean (Env.sample.digest (nthWrite 2).txn)]) ∧
    ¬ Exact Env.sample ((indexMachine Env.sample).run {}
      [.prepare (tableWrite []), .apply (tableWrite []),
        .clean (Env.sample.digest (tableWrite []).txn)]) ∧
    ¬ Exact Env.sample ((indexMachine Env.sample).run {}
      [.prepare versionWrite, .clean (Env.sample.digest versionWrite.txn),
        .apply versionWrite]) := by
  refine ⟨fun h => ?_, fun h => ?_, fun h => ?_, fun h => ?_, fun h => ?_⟩
  · obtain ⟨d, c, hc, -⟩ := (h.reads [9] queryRead.entered).1 (by decide)
    simp [indexMachine, indexStep] at hc
  · have hmem := (h.writes [7] (⟨20000, 1⟩, (nthWrite 2).entered)).2
      ⟨Env.sample.digest (nthWrite 2).txn, nthWrite 2, by decide, rfl, by decide⟩
    exact absurd hmem (by decide)
  · have hmem := (h.writes [7] (⟨20000, 1⟩, (nthWrite 1).entered)).2
      ⟨Env.sample.digest (nthWrite 1).txn, nthWrite 1, by decide, rfl, by decide⟩
    exact absurd hmem (by decide)
  · obtain ⟨d, c, hc, -⟩ := (h.writes [5] (⟨20000, 1⟩, (tableWrite []).entered)).1 (by decide)
    simp [indexMachine, indexStep] at hc
  · obtain ⟨d, c, hc, -⟩ := (h.writes [5] (⟨20000, 1⟩, versionWrite.entered)).1 (by decide)
    simp [indexMachine, indexStep] at hc

theorem run_exact_cleaned :
    let other : PrepareCall :=
      { txn := { (nthWrite 2).txn with timestamp := ⟨30000, 1⟩ }, readSet := [] }
    Exact Env.sample ((indexMachine Env.sample).run {}
      [.prepare versionWrite, .prepare other, .apply versionWrite,
        .clean (Env.sample.digest versionWrite.txn)]) := by
  intro other
  refine run_exact Env.sample _ ⟨.inr ⟨⟨by decide, by decide⟩, nofun⟩,
    .inr ⟨⟨by decide, by decide⟩, fun d c hc => ?_⟩, trivial, by unfold Reversible; decide,
    trivial⟩
  obtain ⟨-, heq⟩ | ⟨-, hold⟩ := update_eq_some.1 hc
  · cases heq
    exact ⟨fun hts => absurd hts (by decide), fun hts => absurd hts (by decide)⟩
  · cases hold

end Sintr.Mvtso
