import Sintr.Mvtso.Safety

/-!
# Delayed prepares

With `parallelEndorsementCheck` the conflict check runs before the endorsements are known. If it
passes, `Prepare` is packed into a callback that runs once the endorsements have been validated, and
until then other checks do not see the transaction.

* `parallelMachine`: checks, delayed callbacks, commits and aborts in any order.
-/

namespace Sintr.Mvtso

open State List

/-! ## The machine -/

/-- A callback that waits for endorsements; `callPrepare` is set if it has to prepare. -/
structure Delayed where
  digest : Digest
  txn : Transaction
  readSet : List ReadMessage
  policyReads : List (Bytes × Timestamp)
  callPrepare : Bool
  deriving DecidableEq

structure ParallelState where
  state : State
  delayed : List Delayed := []

section
variable (env : Env)

/-- `DoMVTSOOCCCheck` when endorsements are checked in parallel. The fallback path has no callback:
it looks at the dependencies at once, and the closure that prepares is not run. -/
def State.checkDelayed (s : State) (fallbackFlow : Bool) (txn : Transaction) (i : Input) :
    Result × Option Delayed :=
  let d := env.digest txn
  let finish (txn : Transaction) (callback : Delayed) : Result × Option Delayed :=
    if fallbackFlow then ({ result := s.dependencyResult env txn }, none)
    else ({ result := .commit }, some callback)
  if (s.prepared d).isSome then finish txn ⟨d, txn, [], [], false⟩
  else
    match s.validate env i txn with
    | .error r => (r, none)
    | .ok policyReads =>
      let readSet := (mergedSets env txn).readSet
      let txn := if env.params.useSemanticCC then addDynamicDeps env txn i.dynamicDeps else txn
      finish txn ⟨d, txn, readSet, policyReads, true⟩

/-- The delayed callback: prepare, then look at the dependencies. -/
def State.runDelayed (s : State) (c : Delayed) (ongoing : Bool) : State × CCResult :=
  let s := if c.callPrepare && ongoing then s.prepare env c.digest c.txn c.readSet c.policyReads
    else s
  (s, s.dependencyResult env c.txn)

def Event.isCheck : Event → Bool
  | .check .. => true
  | _ => false

inductive ParallelEvent where
  | check (fallbackFlow : Bool) (txn : Transaction) (i : Input)
  | runDelayed (k : Nat) (ongoing : Bool)
  /-- They are not, or the transaction is given up otherwise. -/
  | discard (k : Nat)
  | other (e : Event) (h : e.isCheck = false)

def ParallelState.check (p : ParallelState) (fallbackFlow : Bool) (txn : Transaction) (i : Input) :
    ParallelState :=
  if env.params.parallelEndorsementCheck && !env.params.serverSkipEndorsementCheck then
    match (p.state.checkDelayed env fallbackFlow txn i).2 with
    | none => p
    | some c => { p with delayed := p.delayed ++ [c] }
  else { p with state := (p.state.doMVTSOOCCCheck env txn i).1 }

def parallelStep (p : ParallelState) (e : ParallelEvent) : ParallelState :=
  if p.state.crashed then p
  else
    match e with
    | .check fallbackFlow txn i => p.check env fallbackFlow txn i
    | .runDelayed k ongoing =>
      match p.delayed[k]? with
      | none => p
      | some c => ⟨(p.state.runDelayed env c ongoing).1, p.delayed.eraseIdx k⟩
    | .discard k => { p with delayed := p.delayed.eraseIdx k }
    | .other e _ => { p with state := step env p.state e }

def parallelMachine : Machine ParallelState ParallelEvent := ⟨parallelStep env⟩

end

/-! ## Conflicts between prepared transactions -/

section
variable {env : Env}

def Delayed.entry (c : Delayed) : Prepared :=
  ⟨c.txn.timestamp, addPolicyReads c.txn c.policyReads, c.readSet⟩

/-- A read of a row whose version is the one the transaction's own read set gives first. -/
def Tracked (env : Env) (p : Prepared) (r : ReadMessage) : Prop :=
  r ∈ p.readSet ∧ ownedRead env r ∧ preparedReadtime r.key p.txn = some r.readtime

/-- No row was read, and the write or one that is stored before the reader deletes the row. -/
def Excused (s : State) (reader : Transaction) (r : ReadMessage) (w : WriteMessage) : Prop :=
  r.readtime = .zero ∧ (w.value = some deletion ∨
    ∃ e ∈ s.store r.key, e.1 < reader.timestamp ∧ e.2.val = deletion)

def Overlooked (env : Env) (s : State) (p : Prepared) (writer : Transaction) : Prop :=
  ∃ r w, Tracked env p r ∧ Writes env writer w ∧ w.key = r.key ∧
    r.readtime < writer.timestamp ∧ writer.timestamp < p.txn.timestamp ∧ ¬ Excused s p.txn r w

def SharesRow (env : Env) (c : Delayed) (txn : Transaction) : Prop :=
  (∃ r ∈ c.readSet, ∃ w ∈ txn.writeSet, ownedRead env r ∧ Writes env txn w ∧ w.key = r.key) ∨
  ∃ r ∈ (mergedSets env txn).readSet, ∃ w ∈ c.txn.writeSet,
    ownedRead env r ∧ Writes env c.txn w ∧ w.key = r.key
deriving Decidable

/-- No check starts while a delayed prepare of another transaction is to come on the same row. -/
def NoOverlap (env : Env) (p : ParallelState) : ParallelEvent → Prop
  | .check _ txn _ => ∀ c ∈ p.delayed, c.digest ≠ env.digest txn → c.callPrepare →
      ¬ SharesRow env c txn
  | _ => True

instance : ∀ (p : ParallelState) (e : ParallelEvent), Decidable (NoOverlap env p e)
  | p, .check _ txn _ => inferInstanceAs (Decidable (∀ c ∈ p.delayed, c.digest ≠ env.digest txn →
      c.callPrepare → ¬ SharesRow env c txn))
  | _, .runDelayed .. => inferInstanceAs (Decidable True)
  | _, .discard _ => inferInstanceAs (Decidable True)
  | _, .other .. => inferInstanceAs (Decidable True)

variable {s : State} {i : Input} {policyReads : List (Bytes × Timestamp)} {txn : Transaction}
  {txns : List Transaction} {p : ParallelState} {fallbackFlow : Bool} {txn' : Transaction}
  {p' : ParallelState}

theorem Excused.mono {s' : State} {t : Transaction} {r : ReadMessage} {w : WriteMessage}
    (h : Excused s t r w) (hstore : ∀ k, ∀ e ∈ s.store k, e ∈ s'.store k) : Excused s' t r w := by
  refine ⟨h.1, h.2.imp_right ?_⟩
  rintro ⟨e, he, hdel⟩
  exact ⟨e, hstore _ e he, hdel⟩

theorem Overlooked.mono {s' : State} {p : Prepared} {writer : Transaction}
    (h : Overlooked env s' p writer) (hstore : ∀ k, ∀ e ∈ s.store k, e ∈ s'.store k) :
    Overlooked env s p writer := by
  obtain ⟨r, w, hr, hw, hkey, hlt, hts, hex⟩ := h
  exact ⟨r, w, hr, hw, hkey, hlt, hts, fun he => hex (he.mono hstore)⟩

theorem validate_not_overlooked (hs : PreparedInv env txns s)
    (h : s.validate env i txn = .ok policyReads) (hann : Annotates env txn' txn) {d : Digest}
    {p : Prepared} (hp : s.prepared d = some p) :
    ¬ Overlooked env s ⟨txn'.timestamp, txn', (mergedSets env txn).readSet⟩ p.txn ∧
      ¬ Overlooked env s p txn' := by
  have hpass : ∀ x, s.validate env i txn = .error x → ¬ x.Refuses := fun x hx => by
    rw [h] at hx
    cases hx
  obtain ⟨hreads, hwrites⟩ := validate_noConflict hpass
  constructor
  · rintro ⟨r, w, ⟨hr, hown, -⟩, hw, hkey, hlt, hts, hex⟩
    have hvis : ¬ BelowDeletion s txn.timestamp r := by
      rintro ⟨hz, e, he, hdel⟩
      obtain ⟨hmem, hlt', -⟩ := OrdMap.latestLT_some he
      exact hex ⟨hz, .inr ⟨e, hmem, hann.timestamp ▸ hlt', hdel⟩⟩
    obtain ⟨-, hprep⟩ := readConflict_none (hreads r hr hown) hvis
    have hentry := (hs.written hp hw).resolve_right id
    rw [hs.timestamp hp, hkey] at hentry
    exact absurd hlt (not_lt.2 (hprep _ hentry (hann.timestamp ▸ hts)))
  · rintro ⟨r, w, ⟨hr, hown, hfirst⟩, hw, hkey, hlt, hts, hex⟩
    have hw' := hann.writes.1 hw
    rw [hann.timestamp] at hlt hts
    obtain ⟨-, hprep⟩ := writeConflict_none (hwrites w hw'.1 hw'.2)
    have hentry := (hs.read hp hr hown).resolve_right id
    rw [← hkey] at hentry hfirst
    obtain ⟨hz, hdel⟩ := overwrites_false (hprep _ hentry hts _ hfirst) hlt
    exact hex ⟨hz, .inl hdel⟩

/-! ## The invariant -/

def Entered (p : ParallelState) (d : Digest) (e : Prepared) : Prop :=
  p.state.prepared d = some e ∨ ∃ c ∈ p.delayed, c.callPrepare ∧ c.digest = d ∧ c.entry = e

structure ParallelInv (env : Env) (txns : List Transaction) (p : ParallelState) : Prop where
  prepared : PreparedInv env txns p.state
  delayed : ∀ c ∈ p.delayed, c.callPrepare → env.digest c.txn = c.digest ∧
    ∃ t ∈ txns, t.timestamp = c.txn.timestamp ∧ env.digest t = c.digest
  pairwise : ∀ d d' e e', Entered p d e → Entered p d' e' → d ≠ d' →
    ¬ Overlooked env p.state e e'.txn

theorem ParallelInv.shrink (h : ParallelInv env txns p) (hprepared : PreparedInv env txns p'.state)
    (hdelayed : ∀ c ∈ p'.delayed, c ∈ p.delayed) (hentered : ∀ d e, Entered p' d e → Entered p d e)
    (hstore : ∀ k, ∀ e ∈ p.state.store k, e ∈ p'.state.store k) : ParallelInv env txns p' where
  prepared := hprepared
  delayed c hc := h.delayed c (hdelayed c hc)
  pairwise d d' e e' he he' hdd ho :=
    h.pairwise d d' e e' (hentered d e he) (hentered d' e' he') hdd (ho.mono hstore)

theorem ParallelInv.enter
    (h : ParallelInv env txns p)
    (hvalid : p.state.validate env i txn = .ok policyReads) (hann : Annotates env txn' txn)
    (hno : ∀ c ∈ p.delayed, c.digest ≠ env.digest txn → c.callPrepare → ¬ SharesRow env c txn)
    (hprepared : PreparedInv env txns p'.state)
    (hdelayed : ∀ c ∈ p'.delayed, c.callPrepare → env.digest c.txn = c.digest ∧
      ∃ t ∈ txns, t.timestamp = c.txn.timestamp ∧ env.digest t = c.digest)
    (hentered : ∀ d e, Entered p' d e → Entered p d e ∨ d = env.digest txn ∧
      e = ⟨txn'.timestamp, txn', (mergedSets env txn).readSet⟩)
    (hstore : p'.state.store = p.state.store) : ParallelInv env txns p' := by
  have hold : ∀ {e t}, Overlooked env p'.state e t → Overlooked env p.state e t :=
    fun ho => ho.mono fun k e he => by rwa [hstore]
  -- the new transaction against one that was there before
  have hnew : ∀ d e, Entered p d e → d ≠ env.digest txn →
      ¬ Overlooked env p.state ⟨txn'.timestamp, txn', (mergedSets env txn).readSet⟩ e.txn ∧
        ¬ Overlooked env p.state e txn' := by
    rintro d e (he | ⟨c, hc, hcall, rfl, rfl⟩) hd
    · exact validate_not_overlooked h.prepared hvalid hann he
    · have hshare := hno c hc hd hcall
      have hcann : Annotates env c.entry.txn c.txn := addPolicyReads_annotates _ _
      constructor
      · rintro ⟨r, w, ⟨hr, hown, -⟩, hw, hkey, -⟩
        have hw' := hcann.writes.1 hw
        exact hshare (.inr ⟨r, hr, w, hw'.1, hown, hw', hkey⟩)
      · rintro ⟨r, w, ⟨hr, hown, -⟩, hw, hkey, -⟩
        have hw' := hann.writes.1 hw
        exact hshare (.inl ⟨r, hr, w, hw'.1, hown, hw', hkey⟩)
  refine ⟨hprepared, hdelayed, fun d d' e e' he he' hdd ho => ?_⟩
  rcases hentered d e he with he | ⟨rfl, rfl⟩
  · rcases hentered d' e' he' with he' | ⟨rfl, rfl⟩
    · exact h.pairwise d d' e e' he he' hdd (hold ho)
    · exact (hnew d e he hdd).2 (hold ho)
  · rcases hentered d' e' he' with he' | ⟨rfl, rfl⟩
    · exact (hnew d' e' he' (Ne.symm hdd)).1 (hold ho)
    · exact hdd rfl

/-! ## Steps -/

/-- Committing and aborting prepare nothing and take no version back. -/
structure Settles (s s' : State) : Prop where
  prepared : ∀ d p, s'.prepared d = some p → s.prepared d = some p
  store : ∀ k, ∀ e ∈ s.store k, e ∈ s'.store k

theorem Settles.refl (s : State) : Settles s s := ⟨fun _ _ h => h, fun _ _ h => h⟩

theorem Settles.trans {a b c : State} (h : Settles a b) (h' : Settles b c) : Settles a c :=
  ⟨fun d p hp => h.prepared d p (h'.prepared d p hp), fun k e he => h'.store k e (h.store k e he)⟩

theorem clean_settles (s : State) (d : Digest) : Settles s (s.clean env d) := by
  unfold clean
  cases s.prepared d with
  | none => exact .refl s
  | some p =>
    refine ⟨fun d' p' hp' => ?_, fun _ _ h => h⟩
    rcases update_eq_some.1 hp' with ⟨-, hnone⟩ | ⟨-, hp'⟩
    · cases hnone
    · exact hp'

theorem commitToStore_settles (s : State) (c : Committed) : Settles s (s.commitToStore env c) := by
  refine ⟨fun d p hp => ?_, fun k e he => ?_⟩
  · rwa [(commitToStore_frame s c).1] at hp
  · unfold commitToStore
    dsimp only
    split
    · split
      · exact he
      · exact OrdMap.mem_inserts_of_mem (g := Prod.fst) (t := fun _ => c.txn.timestamp) he
    · split <;> exact he

theorem commit_settles (s : State) (c : Committed) : Settles s (s.commit env c) := by
  unfold commit
  dsimp only
  split_ifs
  · exact .refl s
  · have hset : Settles s
        { s with committed := Function.update s.committed (env.digest c.txn) (some c) } :=
      ⟨fun _ _ h => h, fun _ _ h => h⟩
    exact (hset.trans (commitToStore_settles _ c)).trans (clean_settles _ _)

theorem wakeCommitted_settles (s : State) (d : Digest) (merged : ReadSet) :
    Settles s (s.wakeCommitted env d merged) := by
  unfold wakeCommitted
  cases s.committed d with
  | none => exact .refl s
  | some c =>
    dsimp only
    split_ifs
    · exact .refl s
    · exact ⟨fun _ _ h => h, fun _ _ h => h⟩

theorem step_settles (s : State) {e : Event} (he : e.isCheck = false) :
    Settles s (step env s e) := by
  unfold step
  split_ifs
  · exact .refl s
  cases e with
  | check txn i => cases he
  | commit txn sigs view => exact commit_settles s _
  | commitWithProof proof => exact commit_settles s _
  | wakeCommitted d merged => exact wakeCommitted_settles s d merged
  | abort d =>
    have hset : Settles s { s with aborted := Function.update s.aborted d true } :=
      ⟨fun _ _ h => h, fun _ _ h => h⟩
    exact hset.trans (clean_settles _ d)

theorem step_preparedInv {e : Event} (htxns : TellApart env txns) (he : e.isCheck = false)
    (h : PreparedInv env txns s) :
    PreparedInv env txns (step env s e) := by
  unfold step
  split_ifs
  · exact h
  cases e with
  | check txn i => cases he
  | commit txn sigs view => exact commit_preparedInv htxns h
  | commitWithProof proof => exact commit_preparedInv htxns h
  | wakeCommitted d merged => exact wakeCommitted_preparedInv h
  | abort d => exact IndexInv.clean htxns (h.congr rfl rfl rfl)

theorem checkDelayed_callback {c : Delayed}
    (h : (s.checkDelayed env fallbackFlow txn i).2 = some c) :
    c.callPrepare = false ∨
    c.digest = env.digest txn ∧ Annotates env c.txn txn ∧
      c.readSet = (mergedSets env txn).readSet ∧ s.validate env i txn = .ok c.policyReads := by
  unfold checkDelayed at h
  dsimp only at h
  cases hnew : s.prepared (env.digest txn) with
  | some p =>
    rw [hnew] at h
    cases fallbackFlow with
    | true => cases h
    | false =>
      cases h
      exact .inl rfl
  | none =>
    rw [hnew] at h
    cases hv : s.validate env i txn with
    | error r =>
      rw [hv] at h
      cases h
    | ok policyReads =>
      rw [hv] at h
      cases fallbackFlow with
      | true => cases h
      | false =>
        cases h
        exact .inr ⟨rfl, dynamicDeps_annotates txn i, rfl, rfl⟩

/-- `Prepare` enters one transaction and touches no version. -/
theorem prepare_prepared {d d' : Digest} {readSet : List ReadMessage} {e : Prepared}
    (h : (s.prepare env d txn readSet policyReads).prepared d' = some e) :
    s.prepared d' = some e ∨
      d' = d ∧ e = ⟨txn.timestamp, addPolicyReads txn policyReads, readSet⟩ := by
  cases hnew : s.prepared d with
  | some p =>
    rw [prepare, if_pos (by simp [hnew])] at h
    exact .inl h
  | none =>
    rw [prepare, if_neg (by simp [hnew])] at h
    rcases update_eq_some.1 h with ⟨rfl, he⟩ | ⟨-, he⟩
    · exact .inr ⟨rfl, (Option.some.inj he).symm⟩
    · exact .inl he

theorem prepare_store (s : State) (d : Digest) (txn : Transaction) (readSet : List ReadMessage)
    (policyReads : List (Bytes × Timestamp)) :
    (s.prepare env d txn readSet policyReads).store = s.store := by
  unfold prepare
  split_ifs
  · rfl
  · rfl

/-- **Versions are immutable**: no run takes one back that is stored. -/
theorem versions_stay (s : State) (es : List Event) (k : Key) :
    {e | e ∈ s.store k} ⊆ {e | e ∈ ((machine env).run s es).store k} := by
  refine Machine.run_induct (I := fun t : State => {e | e ∈ s.store k} ⊆ {e | e ∈ t.store k})
    (fun t e h x hx => ?_) (fun _ h => h) es
  cases e with
  | check txn i =>
    change x ∈ (step env t (.check txn i)).store k
    unfold step
    split_ifs
    · exact h hx
    · dsimp only
      rcases @check_state env t txn i with hs | ⟨_, _, -, -, -, hs⟩
      · rw [hs]
        exact h hx
      · rw [hs, prepare_store]
        exact h hx
  | _ => exact (step_settles t rfl).store k x (h hx)

theorem ParallelInv.check (htxns : TellApart env txns) (h : ParallelInv env txns p)
    (ht : txn ∈ txns)
    (hno : ∀ c ∈ p.delayed, c.digest ≠ env.digest txn → c.callPrepare → ¬ SharesRow env c txn) :
    ParallelInv env txns (p.check env fallbackFlow txn i) := by
  unfold ParallelState.check
  split_ifs
  · cases hc : (p.state.checkDelayed env fallbackFlow txn i).2 with
    | none => exact h
    | some c =>
      dsimp only
      rcases checkDelayed_callback hc with hcall | ⟨hdig, hann, hreads, hvalid⟩
      · -- nothing to prepare: the callback is not entered
        have hmem : ∀ c' ∈ p.delayed ++ [c], c'.callPrepare → c' ∈ p.delayed := by
          intro c' hc' hcall'
          rcases mem_append.1 hc' with hc' | hc'
          · exact hc'
          · rw [mem_singleton.1 hc', hcall] at hcall'
            cases hcall'
        have hentered : ∀ d e, Entered { p with delayed := p.delayed ++ [c] } d e →
            Entered p d e := by
          rintro d e (he | ⟨c', hc', hcall', hd⟩)
          · exact .inl he
          · exact .inr ⟨c', hmem c' hc' hcall', hcall', hd⟩
        exact ⟨h.prepared, fun c' hc' hcall' => h.delayed c' (hmem c' hc' hcall') hcall',
          fun d d' e e' he he' => h.pairwise d d' e e' (hentered d e he) (hentered d' e' he')⟩
      · have hannE : Annotates env (addPolicyReads c.txn c.policyReads) txn :=
          (addPolicyReads_annotates _ _).trans hann
        refine h.enter hvalid hannE hno h.prepared ?_ ?_ rfl
        · intro c' hc'
          rcases mem_append.1 hc' with hc' | hc'
          · exact h.delayed c' hc'
          · rw [mem_singleton.1 hc']
            exact fun _ => ⟨hann.digest.trans hdig.symm, txn, ht, hann.timestamp.symm, hdig.symm⟩
        · rintro d e (he | ⟨c', hc', hcall', rfl, rfl⟩)
          · exact .inl (.inl he)
          · rcases mem_append.1 hc' with hc' | hc'
            · exact .inl (.inr ⟨c', hc', hcall', rfl, rfl⟩)
            · rw [mem_singleton.1 hc', ← hreads]
              exact .inr ⟨hdig, rfl⟩
  · rcases @check_state env p.state txn i with hs | ⟨txn', policyReads, hann, -, hvalid, hs⟩
    · rw [hs]
      exact h
    · rw [hs]
      refine h.enter hvalid ((addPolicyReads_annotates txn' policyReads).trans hann) hno
        (prepare_preparedInv htxns h.prepared ht hann.timestamp.symm rfl hann.digest) h.delayed ?_
        (prepare_store ..)
      rintro d e (he | he)
      · rcases prepare_prepared he with he | ⟨rfl, rfl⟩
        · exact .inl (.inl he)
        · exact .inr ⟨rfl, rfl⟩
      · exact .inl (.inr he)

theorem ParallelInv.runDelayed {k : Nat} {c : Delayed} {ongoing : Bool} (htxns : TellApart env txns)
    (h : ParallelInv env txns p) (hc : p.delayed[k]? = some c) :
    ParallelInv env txns ⟨(p.state.runDelayed env c ongoing).1, p.delayed.eraseIdx k⟩ := by
  have hmem : c ∈ p.delayed := mem_of_getElem? hc
  have herase : ∀ c' ∈ p.delayed.eraseIdx k, c' ∈ p.delayed := fun c' hc' =>
    mem_of_mem_eraseIdx hc'
  unfold State.runDelayed
  dsimp only
  split_ifs with hrun
  · rw [Bool.and_eq_true] at hrun
    obtain ⟨hdig, t, ht, htime, htdig⟩ := h.delayed c hmem hrun.1
    refine h.shrink (prepare_preparedInv htxns h.prepared ht htime htdig hdig) herase ?_ ?_
    · rintro d e (he | ⟨c', hc', hrest⟩)
      · rcases prepare_prepared he with he | ⟨rfl, rfl⟩
        · exact .inl he
        · exact .inr ⟨c, hmem, hrun.1, rfl, rfl⟩
      · exact .inr ⟨c', herase c' hc', hrest⟩
    · intro k' e he
      rwa [prepare_store]
  · refine h.shrink h.prepared herase ?_ fun _ _ he => he
    rintro d e (he | ⟨c', hc', hrest⟩)
    · exact .inl he
    · exact .inr ⟨c', herase c' hc', hrest⟩

def parallelTxns (es : List ParallelEvent) : List Transaction :=
  es.filterMap fun
    | .check _ txn _ => some txn
    | _ => none

theorem parallelStep_inv {e : ParallelEvent} (htxns : TellApart env txns) (hno : NoOverlap env p e)
    (ht : ∀ fb txn i, e = .check fb txn i → txn ∈ txns) (h : ParallelInv env txns p) :
    ParallelInv env txns (parallelStep env p e) := by
  unfold parallelStep
  split_ifs
  · exact h
  cases e with
  | check fb txn i => exact h.check htxns (ht fb txn i rfl) hno
  | runDelayed k ongoing =>
    dsimp only
    split
    · exact h
    · exact h.runDelayed htxns ‹_›
  | discard k =>
    have herase : ∀ c ∈ p.delayed.eraseIdx k, c ∈ p.delayed := fun c hc =>
      mem_of_mem_eraseIdx hc
    refine h.shrink h.prepared herase ?_ fun _ _ he => he
    rintro d e (he | ⟨c, hc, hrest⟩)
    · exact .inl he
    · exact .inr ⟨c, herase c hc, hrest⟩
  | other e he =>
    have hset : Settles p.state (step env p.state e) := step_settles p.state he
    refine h.shrink (step_preparedInv htxns he h.prepared) (fun c hc => hc) ?_ hset.store
    rintro d e' (he' | he')
    · exact .inl (hset.prepared d e' he')
    · exact .inr he'

/-- **Prepared transactions do not conflict** as long as no check overlaps with a delayed prepare on
the same row: none of them should have seen what another one writes. -/
theorem prepared_pairwise {s₀ : State} (h₀ : Loaded s₀) {es : List ParallelEvent}
    (hes : TellApart env (parallelTxns es))
    (hno : (parallelMachine env).Along (NoOverlap env) ⟨s₀, []⟩ es) {d d' : Digest}
    {p p' : Prepared} (hd : d ≠ d')
    (hp : ((parallelMachine env).run ⟨s₀, []⟩ es).state.prepared d = some p)
    (hp' : ((parallelMachine env).run ⟨s₀, []⟩ es).state.prepared d' = some p') :
    ¬ Overlooked env ((parallelMachine env).run ⟨s₀, []⟩ es).state p p'.txn := by
  have hinit : ParallelInv env (parallelTxns es) ⟨s₀, []⟩ := by
    refine ⟨(h₀.inv _).prepared, (fun c hc => nomatch hc), ?_⟩
    rintro d d' e e' (he | ⟨c, hc, -⟩)
    · rw [h₀.prepared] at he
      cases he
    · cases hc
  have hmem : ∀ e ∈ es, ∀ fb txn i, e = ParallelEvent.check fb txn i →
      txn ∈ parallelTxns es := by
    rintro e he fb txn i rfl
    exact List.mem_filterMap.2 ⟨_, he, rfl⟩
  have hinv := Machine.run_along (I := ParallelInv env (parallelTxns es))
    (fun p e he h => parallelStep_inv hes he.1 he.2 h) hinit (hno.and_forall hmem)
  exact hinv.pairwise d d' p p' (.inl hp) (.inl hp') hd

/-! ## Runs that end in a conflict -/

def Conflicting (p p' : Prepared) : Prop :=
  ∃ r ∈ p.readSet, ∃ w ∈ p'.txn.writeSet, w.key = r.key ∧ r.readtime < p'.txn.timestamp ∧
    p'.txn.timestamp < p.txn.timestamp
deriving Decidable

def EndsInConflict (env : Env) (es : List ParallelEvent) : Prop :=
  ∃ d d' p p', d ≠ d' ∧
    ((parallelMachine env).run ⟨{}, []⟩ es).state.prepared d = some p ∧
    ((parallelMachine env).run ⟨{}, []⟩ es).state.prepared d' = some p' ∧ Conflicting p p'

def parallelEnv : Env := { Env.sample with params := { parallelEndorsementCheck := true } }

def foreignEnv : Env := { parallelEnv with keyOwned := fun _ => false }

def checkAndPrepare (txn : Transaction) : List ParallelEvent :=
  [.check false txn plain, .runDelayed 0 true]

def smallEntry (txn : Transaction) : Prepared :=
  ⟨txn.timestamp, txn, (mergedSets Env.sample txn).readSet⟩

theorem EndsInConflict.intro {env : Env} {es : List ParallelEvent} (t t' : Transaction)
    (h : env.digest t ≠ env.digest t' ∧
      ((parallelMachine env).run ⟨{}, []⟩ es).state.prepared (env.digest t) =
        some (smallEntry t) ∧
      ((parallelMachine env).run ⟨{}, []⟩ es).state.prepared (env.digest t') =
        some (smallEntry t') ∧
      Conflicting (smallEntry t) (smallEntry t')) : EndsInConflict env es :=
  ⟨_, _, _, _, h⟩

/-- **Prepared transactions may conflict**, if both checks pass before either prepare runs. Apart
from that it is as for checks one at a time. -/
theorem prepared_conflict :
    EndsInConflict parallelEnv [.check false blindReader plain, .check false writer plain,
      .runDelayed 0 true, .runDelayed 0 true] ∧
    EndsInConflict foreignEnv (checkAndPrepare blindReader ++ checkAndPrepare writer) ∧
    EndsInConflict parallelEnv (checkAndPrepare blindReader ++ checkAndPrepare (eraser 20000)) ∧
    EndsInConflict parallelEnv (checkAndPrepare queryReader ++ checkAndPrepare writer) ∧
    EndsInConflict parallelEnv (checkAndPrepare doubleReader ++ checkAndPrepare writer) ∧
    EndsInConflict parallelEnv (.other (.commit (eraser 15000) (.p1 []) 0) rfl ::
      checkAndPrepare writer ++ checkAndPrepare blindReader) ∧
    EndsInConflict parallelEnv (checkAndPrepare (twin 1) ++ checkAndPrepare (twin 2) ++
      .other (.abort (parallelEnv.digest (twin 1))) rfl :: checkAndPrepare blindReader) := by
  refine ⟨.intro blindReader writer ?_, .intro blindReader writer ?_,
    .intro blindReader (eraser 20000) ?_, .intro queryReader writer ?_,
    .intro doubleReader writer ?_, .intro blindReader writer ?_, .intro blindReader (twin 2) ?_⟩
  all_goals decide +kernel

theorem prepared_pairwise_reader :
    ((parallelMachine parallelEnv).run ⟨{}, []⟩
      (checkAndPrepare writer ++ checkAndPrepare reader)).state.prepared
        (parallelEnv.digest reader) = some (smallEntry reader) ∧
    ¬ Overlooked parallelEnv ((parallelMachine parallelEnv).run ⟨{}, []⟩
      (checkAndPrepare writer ++ checkAndPrepare reader)).state (smallEntry reader) writer := by
  have hreader : ((parallelMachine parallelEnv).run ⟨{}, []⟩
      (checkAndPrepare writer ++ checkAndPrepare reader)).state.prepared
        (parallelEnv.digest reader) = some (smallEntry reader) := by decide +kernel
  have hwriter : ((parallelMachine parallelEnv).run ⟨{}, []⟩
      (checkAndPrepare writer ++ checkAndPrepare reader)).state.prepared
        (parallelEnv.digest writer) = some (smallEntry writer) := by decide +kernel
  exact ⟨hreader, prepared_pairwise loaded_empty (by decide +kernel) (by decide +kernel)
    (by decide +kernel) hreader hwriter⟩

end

end Sintr.Mvtso
