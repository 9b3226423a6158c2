import Sintr.Mvtso.Locks

/-!
# What the locks protect

`LockInv` ties the threads to the indexes.

* `ProcInv`: a thread holds the keys it works on, and the reads and writes it has gone through are
  free of conflicts with all prepared transactions, also those it could not see.
* `LockInv.settled`: nobody is preparing an entry for a key that a thread holds. So a lookup under
  the lock finds everything (`LockInv.readClear`, `LockInv.writeClear`), and what it finds stays
  true until the lock is released.
-/

namespace Sintr.Mvtso

open State List Option Function

variable {env : Env} {n : Nat} {txns : List Transaction}

variable {busy busy' : Digest → Prop} {s s' : State} {d : Digest} {p : Prepared} {k : Key}
  {q : Proc} {txn : Transaction} {c : LockState n} {j : Fin n} {q' : Option Proc} {x : Insertion}
  {todo : List Insertion}

/-! ## Threads -/

def Proc.Touches (env : Env) (q : Proc) (k : Key) : Prop :=
  (∃ r ∈ q.readSet env, r.key = k) ∨ ∃ w ∈ q.txn.writeSet, w.key = k

/-- The read does not miss a write of a prepared transaction. -/
def ReadClear (env : Env) (s : State) (txn : Transaction) (r : ReadMessage) : Prop :=
  ∀ d p w, s.prepared d = some p → d ≠ env.digest txn → Writes env p.txn w → w.key = r.key →
    r.readtime < p.txn.timestamp → p.txn.timestamp < txn.timestamp → Excused s txn r w

def WriteClear (env : Env) (s : State) (txn : Transaction) (w : WriteMessage) : Prop :=
  ∀ d p r, s.prepared d = some p → d ≠ env.digest txn → Tracked env p r → w.key = r.key →
    r.readtime < txn.timestamp → txn.timestamp < p.txn.timestamp → Excused s p.txn r w

/-- The thread has yet to look for writes that the read missed. -/
def Phase.PendingRead (r : ReadMessage) : Phase → Prop
  | .locking _ | .aborting => True
  | .checking todo => .read r ∈ todo ∨ .readPrepared r ∈ todo
  | .preparing _ => False

def Phase.PendingWrite (w : WriteMessage) : Phase → Prop
  | .locking _ | .aborting => True
  | .checking todo => .write w ∈ todo ∨ .committedReads w ∈ todo ∨ .preparedReads w ∈ todo
  | .preparing _ => False

/-- The transaction of a thread is prepared, and what is not in `todo` is in the indexes. -/
structure Entering (env : Env) (s : State) (q : Proc) (todo : List Insertion) : Prop where
  prepared : s.prepared (q.digest env) = some (q.entry env)
  read : ∀ r ∈ q.readSet env, ownedRead env r →
    .read r.key ∈ todo ∨ (q.entry env).txn ∈ s.preparedReads r.key
  written : ∀ w, Writes env q.txn w →
    .write w.key ∈ todo ∨ (q.txn.timestamp, (q.entry env).txn) ∈ s.preparedWrites w.key
  own : ∀ k, .write k ∈ todo → ∃ w, Writes env q.txn w ∧ w.key = k

structure ProcInv (env : Env) (txns : List Transaction) (s : State) (q : Proc) : Prop where
  started : q.txn ∈ txns
  held : ∀ k, q.Touches env k → k ∈ q.held ∨ ∃ todo, q.phase = .locking todo ∧ k ∈ todo
  read : ∀ r ∈ q.readSet env, ownedRead env r → q.phase.PendingRead r ∨ ReadClear env s q.txn r
  write : ∀ w, Writes env q.txn w → q.phase.PendingWrite w ∨ WriteClear env s q.txn w
  entered : ∀ todo, q.phase = .preparing todo → Entering env s q todo

structure LockInv (env : Env) (txns : List Transaction) (c : LockState n) : Prop where
  index : IndexInv env txns (c.Preparing env) c.state
  proc : ∀ {j q}, c.procs j = some q → ProcInv env txns c.state q
  mutex : ∀ {i j q q' k}, i ≠ j → c.procs i = some q → c.procs j = some q' → k ∈ q.held →
    k ∉ q'.held
  pairwise : ∀ {d d' p p'}, c.state.prepared d = some p → c.state.prepared d' = some p' →
    d ≠ d' → ¬ Overlooked env c.state p p'.txn

theorem Proc.entry_annotates (q : Proc) : Annotates env (q.entry env).txn q.txn :=
  addPolicyReads_annotates _ _

theorem ProcInv.holds (h : ProcInv env txns s q) (hlocked : ∀ todo, q.phase ≠ .locking todo)
    (hk : q.Touches env k) : k ∈ q.held := by
  rcases h.held k hk with hin | ⟨todo, hphase, -⟩
  · exact hin
  · exact absurd hphase (hlocked todo)

theorem ReadClear.mono {r : ReadMessage} (h : ReadClear env s txn r) (hs : Settles s s') :
    ReadClear env s' txn r := by
  intro d p w hp hd hw hkey hlt hts
  exact (h d p w (hs.prepared d p hp) hd hw hkey hlt hts).mono hs.store

theorem WriteClear.mono {w : WriteMessage} (h : WriteClear env s txn w) (hs : Settles s s') :
    WriteClear env s' txn w := by
  intro d p r hp hd hr hkey hlt hts
  exact (h d p r (hs.prepared d p hp) hd hr hkey hlt hts).mono hs.store

theorem ProcInv.mono (h : ProcInv env txns s q) (hs : Settles s s')
    (hentered : ∀ todo, q.phase = .preparing todo →
      Entering env s q todo → Entering env s' q todo) :
    ProcInv env txns s' q where
  started := h.started
  held := h.held
  read r hr hown := (h.read r hr hown).imp_right (·.mono hs)
  write w hw := (h.write w hw).imp_right (·.mono hs)
  entered todo hphase := hentered todo hphase (h.entered todo hphase)

section
variable (h : LockInv env txns c) (hq : c.procs j = some q)
  (hlocked : ∀ todo, q.phase ≠ .locking todo)
include h hq hlocked

/-- **A key that a thread holds is not being prepared by another one.** -/
theorem LockInv.settled (hk : q.Touches env k) (hp : c.state.prepared d = some p)
    (hd : d ≠ q.digest env)
    (hpk : (∃ r ∈ p.readSet, r.key = k) ∨ ∃ w ∈ p.txn.writeSet, w.key = k) :
    ¬ c.Preparing env d := by
  rintro ⟨i, q', hq', rfl, todo, hphase⟩
  have hinv := h.proc hq'
  have hentry := (hinv.entered todo hphase).prepared
  obtain rfl : p = q'.entry env := some.inj (hp.symm.trans hentry)
  have hk' : k ∈ q'.held := hinv.holds (by simp [hphase]) hpk
  have hij : j ≠ i := by
    rintro rfl
    obtain rfl : q = q' := some.inj (hq.symm.trans hq')
    exact hd rfl
  exact h.mutex hij hq hq' ((h.proc hq).holds hlocked hk) hk'

theorem LockInv.readClear {r : ReadMessage} (hr : r ∈ q.readSet env)
    (hnone : c.state.preparedWriteConflict q.txn.timestamp r = none) :
    ReadClear env c.state q.txn r := by
  intro d p w hp hd hw hkey hlt hts
  have hsettled := h.settled hq hlocked (.inl ⟨r, hr, rfl⟩) hp hd (.inr ⟨w, hw.1, hkey⟩)
  have hentry := (h.index.written hp hw).resolve_right hsettled
  rw [h.index.timestamp hp, hkey] at hentry
  exact absurd hlt (not_lt.2 (preparedWriteConflict_none hnone _ hentry hts))

theorem LockInv.writeClear {w : WriteMessage} (hw : w ∈ q.txn.writeSet)
    (hnone : c.state.preparedReadConflict q.txn.timestamp w = false) :
    WriteClear env c.state q.txn w := by
  intro d p r hp hd hr hkey hlt hts
  obtain ⟨hin, hown, hfirst⟩ := hr
  have hsettled := h.settled hq hlocked (.inr ⟨w, hw, hkey⟩) hp hd (.inl ⟨r, hin, rfl⟩)
  have hentry := (h.index.read hp hin hown).resolve_right hsettled
  rw [← hkey] at hentry hfirst
  obtain ⟨hz, hdel⟩ := overwrites_false (preparedReadConflict_false hnone _ hentry hts _ hfirst) hlt
  exact ⟨hz, .inl hdel⟩

end

/-! ## The steps of a thread -/

/-- What one access of the checks can find, and what it leaves to do. -/
inductive Checks (env : Env) (s : State) (q : Proc) (todo : List Check) : Check → Proc → Prop
  | aborts (x : Check) : Checks env s q todo x { q with phase := .aborting }
  | belowDeletion {r : ReadMessage} (h : BelowDeletion s q.txn.timestamp r) :
      Checks env s q todo (.read r) (q.next todo)
  | read (r : ReadMessage) : Checks env s q todo (.read r) (q.next (.readPrepared r :: todo))
  | readPrepared {r : ReadMessage} (h : s.preparedWriteConflict q.txn.timestamp r = none) :
      Checks env s q todo (.readPrepared r) (q.next todo)
  | write (w : WriteMessage) : Checks env s q todo (.write w) (q.next (.committedReads w :: todo))
  | governed {w : WriteMessage} {policyId : Bytes} (h : policyOf env q.txn w = some policyId) :
      Checks env s q todo (.write w) (q.next (.policy policyId :: .committedReads w :: todo))
  | policy (policyId : Bytes) (committed : Option Timestamp) :
      Checks env s q todo (.policy policyId) (q.next (.policyPrepared policyId committed :: todo))
  | policyPrepared {policyId : Bytes} {committed : Option Timestamp}
      (h : s.findPreparedVersion policyId q.txn.timestamp committed = none) :
      Checks env s q todo (.policyPrepared policyId committed)
        (q.next (.policyUpper policyId committed :: todo))
  | policyUpper (policyId : Bytes) (committed : Option Timestamp) :
      Checks env s q todo (.policyUpper policyId committed)
        { q.next todo with policyReads := q.policyReads ++ [(policyId, committed.getD .zero)] }
  | committedReads (w : WriteMessage) :
      Checks env s q todo (.committedReads w) (q.next (.preparedReads w :: todo))
  | preparedReads {w : WriteMessage} (h : s.preparedReadConflict q.txn.timestamp w = false) :
      Checks env s q todo (.preparedReads w) (q.next todo)
  | dep (d : Digest) : Checks env s q todo (.dep d) (q.next todo)

theorem checks_of_check {q' : Proc} {todo : List Check} {x : Check}
    (h : q.check env s todo x = some q') : Checks env s q todo x q' := by
  unfold Proc.check at h
  cases x with
  | read r =>
    dsimp only at h
    split at h
    · cases h
      exact .read r
    · rename_i w v hlatest
      split_ifs at h with hdel
      · cases h
        exact .belowDeletion ⟨hdel.1, (w, v), hlatest, hdel.2⟩
      · cases h
        exact .aborts _
      · cases h
        exact .read r
  | readPrepared r =>
    dsimp only at h
    split at h
    · cases h
    · rename_i hnone
      cases h
      exact .readPrepared hnone
  | write w =>
    dsimp only at h
    split at h
    · cases h
      exact .write w
    · rename_i policyId hpol
      split_ifs at h
      · cases h
        exact .write w
      · cases h
        exact .governed hpol
  | policy policyId =>
    cases h
    exact .policy policyId _
  | policyPrepared policyId committed =>
    dsimp only at h
    split_ifs at h with hfound
    cases h
    exact .policyPrepared (not_isSome_iff_eq_none.1 hfound)
  | policyUpper policyId committed =>
    dsimp only at h
    split_ifs at h
    cases h
    exact .policyUpper policyId committed
  | committedReads w =>
    dsimp only at h
    split at h
    · cases h
      exact .aborts _
    · cases h
      exact .committedReads w
  | preparedReads w =>
    dsimp only at h
    split_ifs at h with hconf
    cases h
    rw [Bool.or_eq_true, not_or, Bool.not_eq_true] at hconf
    exact .preparedReads hconf.1
  | dep d =>
    dsimp only at h
    split_ifs at h
    cases h
    exact .dep d

theorem check_todo {q' : Proc} {todo : List Check} {x : Check}
    (h : q.check env s todo x = some q') :
    q' = { q with phase := .aborting } ∨
    ∃ todo' policyReads, q' = { q with phase := .checking todo', policyReads := policyReads } ∧
      (∀ r, Phase.PendingRead r (.checking (x :: todo)) → Phase.PendingRead r (.checking todo') ∨
        BelowDeletion s q.txn.timestamp r ∨
        s.preparedWriteConflict q.txn.timestamp r = none) ∧
      ∀ w, Phase.PendingWrite w (.checking (x :: todo)) →
        Phase.PendingWrite w (.checking todo') ∨
        s.preparedReadConflict q.txn.timestamp w = false := by
  cases checks_of_check h with
  | aborts => exact .inl rfl
  | @belowDeletion r hdel =>
    refine .inr ⟨_, _, rfl, fun r' hr' => ?_, by grind [Phase.PendingWrite]⟩
    by_cases heq : r' = r
    · subst heq
      exact .inr (.inl hdel)
    · exact .inl (by grind [Phase.PendingRead])
  | @readPrepared r hnone =>
    refine .inr ⟨_, _, rfl, fun r' hr' => ?_, by grind [Phase.PendingWrite]⟩
    by_cases heq : r' = r
    · subst heq
      exact .inr (.inr hnone)
    · exact .inl (by grind [Phase.PendingRead])
  | @preparedReads w hnone =>
    refine .inr ⟨_, _, rfl, by grind [Phase.PendingRead], fun w' hw' => ?_⟩
    by_cases heq : w' = w
    · subst heq
      exact .inr hnone
    · exact .inl (by grind [Phase.PendingWrite])
  | _ => exact .inr ⟨_, _, rfl, by grind [Phase.PendingRead], by grind [Phase.PendingWrite]⟩

def LockState.moved (c : LockState n) (j : Fin n) (s : State) (q : Option Proc) : LockState n :=
  { c with state := s, procs := Function.update c.procs j q }

theorem LockState.procs_moved {i : Fin n} {q : Option Proc} {x : Proc} :
    (c.moved j s q).procs i = some x ↔
      i = j ∧ q = some x ∨ i ≠ j ∧ c.procs i = some x := update_eq_some

theorem LockState.Preparing.moved (hq : c.procs j = some q)
    (hkeep : ∀ todo, q.phase = .preparing todo →
      ∃ x, q' = some x ∧ x.digest env = q.digest env ∧ ∃ todo', x.phase = .preparing todo')
    (h : c.Preparing env d) : (c.moved j s q').Preparing env d := by
  obtain ⟨i, x, hx, hdig, todo, hphase⟩ := h
  by_cases hij : i = j
  · subst hij
    obtain rfl : q = x := some.inj (hq.symm.trans hx)
    obtain ⟨x, rfl, hdig', hphase'⟩ := hkeep todo hphase
    exact ⟨i, x, LockState.procs_moved.2 (.inl ⟨rfl, rfl⟩), hdig'.trans hdig, hphase'⟩
  · exact ⟨i, x, LockState.procs_moved.2 (.inr ⟨hij, hx⟩), hdig, todo, hphase⟩

theorem LockInv.moved (h : LockInv env txns c)
    (hq : c.procs j = some q)
    (hindex : IndexInv env txns ((c.moved j s q').Preparing env) s)
    (hothers : ∀ {i x}, i ≠ j → c.procs i = some x → ProcInv env txns s x)
    (hnew : ∀ x ∈ q', ProcInv env txns s x ∧ ∀ k ∈ x.held, k ∈ q.held ∨ ¬ c.Locked k)
    (hpair : ∀ {d d' p p'}, s.prepared d = some p → s.prepared d' = some p' → d ≠ d' →
      ¬ Overlooked env s p p'.txn) : LockInv env txns (c.moved j s q') := by
  -- the other threads hold none of the keys of the moved one
  have hfree : ∀ {i x y k}, i ≠ j → c.procs i = some x → q' = some y → k ∈ x.held →
      k ∉ y.held := by
    intro i x y k hij hx hy hk hk'
    rcases (hnew y hy).2 k hk' with hold | hfree
    · exact h.mutex hij hx hq hk hold
    · exact hfree ⟨i, x, hx, hk⟩
  refine ⟨hindex, ?_, ?_, hpair⟩
  · intro i x hx
    rcases LockState.procs_moved.1 hx with ⟨-, hx⟩ | ⟨hij, hx⟩
    · exact (hnew x hx).1
    · exact hothers hij hx
  · intro i i' x x' k hii hx hx' hk hk'
    rcases LockState.procs_moved.1 hx with ⟨rfl, hself⟩ | ⟨hij, hother⟩
    · rcases LockState.procs_moved.1 hx' with ⟨rfl, -⟩ | ⟨hij', hother'⟩
      · exact hii rfl
      · exact hfree hij' hother' hself hk' hk
    · rcases LockState.procs_moved.1 hx' with ⟨rfl, hself'⟩ | ⟨-, hother'⟩
      · exact hfree hij hother hself' hk hk'
      · exact h.mutex hii hother hother' hk hk'

theorem LockInv.quiet (h : LockInv env txns c) (hq : c.procs j = some q)
    (hphase : ∀ todo, q.phase ≠ .preparing todo) {x : Proc} (hself : ProcInv env txns c.state x)
    (hheld : ∀ k ∈ x.held, k ∈ q.held ∨ ¬ c.Locked k) :
    LockInv env txns (c.moved j c.state (some x)) := by
  refine h.moved hq (h.index.settle fun d hd => .inl ?_) (fun _ hx => h.proc hx) ?_ h.pairwise
  · exact hd.moved hq fun todo ht => absurd ht (hphase todo)
  · rintro _ ⟨⟩
    exact ⟨hself, hheld⟩

theorem LockInv.acquire (h : LockInv env txns c) (hq : c.procs j = some q) {todo : List Key}
    (hphase : q.phase = .locking (k :: todo)) (hfree : ¬ c.Locked k) :
    LockInv env txns (c.moved j c.state
      (some { q with held := k :: q.held, phase := .locking todo })) := by
  have hinv := h.proc hq
  refine h.quiet hq (by simp [hphase]) ?_ fun k' hk' => ?_
  · refine ⟨hinv.started, fun k' hk' => ?_, fun _ _ _ => .inl trivial, fun _ _ => .inl trivial,
      fun _ ht => nomatch ht⟩
    rcases hinv.held k' hk' with hold | ⟨todo', htodo, hin⟩
    · exact .inl (mem_cons_of_mem _ hold)
    · rw [hphase] at htodo
      cases htodo
      rcases mem_cons.1 hin with rfl | hin
      · exact .inl mem_cons_self
      · exact .inr ⟨todo, rfl, hin⟩
  · rcases mem_cons.1 hk' with rfl | hk'
    · exact .inr hfree
    · exact .inl hk'

theorem pending_checks (q : Proc) :
    (∀ r ∈ q.readSet env, ownedRead env r → Phase.PendingRead r (.checking (q.checks env))) ∧
    ∀ w, Writes env q.txn w → Phase.PendingWrite w (.checking (q.checks env)) := by
  refine ⟨fun r hr hown => .inl ?_, fun w hw => .inl ?_⟩
  · refine mem_append_left _ (mem_append_left _ (mem_map_of_mem ?_))
    exact mem_filter.2 ⟨hr, hown⟩
  · refine mem_append_left _ (mem_append_right _ (mem_map_of_mem ?_))
    exact mem_filter.2 hw

theorem LockInv.begin (h : LockInv env txns c) (hq : c.procs j = some q)
    (hphase : q.phase = .locking []) :
    LockInv env txns (c.moved j c.state (some (q.next (q.checks env)))) := by
  have hinv := h.proc hq
  obtain ⟨hreads, hwrites⟩ := @pending_checks env q
  refine h.quiet hq (by simp [hphase]) ⟨hinv.started, fun k hk => .inl ?_,
    fun r hr hown => .inl (hreads r hr hown), fun w hw => .inl (hwrites w hw),
    fun _ ht => nomatch ht⟩ fun k hk => .inl hk
  rcases hinv.held k hk with hold | ⟨todo, htodo, hin⟩
  · exact hold
  · rw [hphase] at htodo
    cases htodo
    cases hin

theorem LockInv.check (h : LockInv env txns c) {q' : Proc} (hq : c.procs j = some q) {x : Check}
    {todo : List Check} (hphase : q.phase = .checking (x :: todo))
    (hx : q.check env c.state todo x = some q') :
    LockInv env txns (c.moved j c.state (some q')) := by
  have hinv := h.proc hq
  have hlocked : ∀ todo, q.phase ≠ .locking todo := by simp [hphase]
  have hheld : ∀ k, q.Touches env k → k ∈ q.held := fun k hk => hinv.holds hlocked hk
  rcases check_todo hx with rfl | ⟨todo', policyReads, rfl, hreads, hwrites⟩
  · exact h.quiet hq (by simp [hphase]) ⟨hinv.started, fun k hk => .inl (hheld k hk),
      fun _ _ _ => .inl trivial, fun _ _ => .inl trivial, fun _ ht => nomatch ht⟩ fun _ => .inl
  · refine h.quiet hq (by simp [hphase]) ⟨hinv.started, fun k hk => .inl (hheld k hk),
      fun r hr hown => ?_, fun w hw => ?_, fun _ ht => nomatch ht⟩ fun k hk => .inl hk
    · rcases hinv.read r hr hown with hpend | hclear
      · rw [hphase] at hpend
        rcases hreads r hpend with hpend | hbelow | hnone
        · exact .inl hpend
        · -- the prepared writes are not looked at
          obtain ⟨hz, e, he, hdel⟩ := hbelow
          obtain ⟨hmem, hlt, -⟩ := OrdMap.latestLT_some he
          exact .inr fun _ _ _ _ _ _ _ _ _ => ⟨hz, .inr ⟨e, hmem, hlt, hdel⟩⟩
        · exact .inr (h.readClear hq hlocked hr hnone)
      · exact .inr hclear
    · rcases hinv.write w hw with hpend | hclear
      · rw [hphase] at hpend
        rcases hwrites w hpend with hpend | hnone
        · exact .inl hpend
        · exact .inr (h.writeClear hq hlocked hw.1 hnone)
      · exact .inr hclear

/-- The state after `prepared.insert` in `Prepare`. -/
def Proc.entered (env : Env) (s : State) (q : Proc) : State :=
  { s with prepared := Function.update s.prepared (q.digest env) (some (q.entry env)) }

theorem Proc.prepared_entered :
    (q.entered env s).prepared d = some p ↔
      d = q.digest env ∧ q.entry env = p ∨ d ≠ q.digest env ∧ s.prepared d = some p := by
  rw [Proc.entered, update_eq_some, some_inj]

theorem LockInv.enter_others (h : LockInv env txns c) {i : Fin n} {x : Proc} (hij : i ≠ j)
    (hq : c.procs j = some q) (hx : c.procs i = some x) (hlocked : ∀ todo, q.phase ≠ .locking todo)
    (hnew : c.state.prepared (q.digest env) = none) :
    ProcInv env txns (q.entered env c.state) x := by
  have hinv := h.proc hx
  -- keys in common would have to be locked twice
  have hdisjoint : (∀ todo, x.phase ≠ .locking todo) → ∀ k, x.Touches env k →
      ¬ q.Touches env k := fun hx' k hk hk' =>
    h.mutex hij hx hq (hinv.holds hx' hk) ((h.proc hq).holds hlocked hk')
  refine ⟨hinv.started, hinv.held, fun r hr hown => ?_, fun w hw => ?_, fun todo hphase => ?_⟩
  · by_cases hl : ∃ todo, x.phase = .locking todo
    · obtain ⟨todo, hl⟩ := hl
      rw [hl]
      exact .inl trivial
    refine (hinv.read r hr hown).imp_right fun hclear d p w hp hd hw hkey hlt hts => ?_
    rcases Proc.prepared_entered.1 hp with ⟨-, rfl⟩ | ⟨-, hp⟩
    · exact absurd (.inr ⟨w, hw.1, hkey⟩) (hdisjoint (not_exists.1 hl) r.key (.inl ⟨r, hr, rfl⟩))
    · exact hclear d p w hp hd hw hkey hlt hts
  · by_cases hl : ∃ todo, x.phase = .locking todo
    · obtain ⟨todo, hl⟩ := hl
      rw [hl]
      exact .inl trivial
    refine (hinv.write w hw).imp_right fun hclear d p r hp hd hr hkey hlt hts => ?_
    rcases Proc.prepared_entered.1 hp with ⟨-, rfl⟩ | ⟨-, hp⟩
    · exact absurd (.inl ⟨r, hr.1, hkey.symm⟩)
        (hdisjoint (not_exists.1 hl) w.key (.inr ⟨w, hw.1, rfl⟩))
    · exact hclear d p r hp hd hr hkey hlt hts
  · obtain ⟨hp, hreads, hwrites, hown⟩ := hinv.entered todo hphase
    refine ⟨Proc.prepared_entered.2 (.inr ⟨fun heq => ?_, hp⟩), hreads, hwrites, hown⟩
    rw [heq, hnew] at hp
    cases hp

theorem ProcInv.clear (h : ProcInv env txns s q) (hphase : q.phase = .checking []) :
    (∀ r ∈ q.readSet env, ownedRead env r → ReadClear env s q.txn r) ∧
      ∀ w, Writes env q.txn w → WriteClear env s q.txn w := by
  constructor
  · intro r hr hown
    refine (h.read r hr hown).resolve_left fun hpend => ?_
    rw [hphase] at hpend
    rcases hpend with hpend | hpend <;> cases hpend
  · intro w hw
    refine (h.write w hw).resolve_left fun hpend => ?_
    rw [hphase] at hpend
    rcases hpend with hpend | hpend | hpend <;> cases hpend

theorem IndexInv.entered (h : IndexInv env txns busy s) (hstarted : q.txn ∈ txns)
    (hnew : s.prepared (q.digest env) = none) (hself : busy' (q.digest env))
    (hbusy : ∀ {d}, busy d → busy' d) : IndexInv env txns busy' (q.entered env s) := by
  refine ⟨fun hp => ?_, fun hp => ?_, fun hp => ?_, fun hp hr hown => ?_, fun hp hw => ?_,
    fun he => ?_⟩
  · rcases Proc.prepared_entered.1 hp with ⟨-, rfl⟩ | ⟨-, hp⟩
    · rfl
    · exact h.timestamp hp
  · rcases Proc.prepared_entered.1 hp with ⟨rfl, rfl⟩ | ⟨-, hp⟩
    · exact (Proc.entry_annotates q).digest
    · exact h.digest hp
  · rcases Proc.prepared_entered.1 hp with ⟨rfl, rfl⟩ | ⟨-, hp⟩
    · exact ⟨q.txn, hstarted, rfl, rfl⟩
    · exact h.checked hp
  · rcases Proc.prepared_entered.1 hp with ⟨rfl, -⟩ | ⟨-, hp⟩
    · exact .inr hself
    · exact (h.read hp hr hown).imp_right hbusy
  · rcases Proc.prepared_entered.1 hp with ⟨rfl, -⟩ | ⟨-, hp⟩
    · exact .inr hself
    · exact (h.written hp hw).imp_right hbusy
  · obtain ⟨d, p, hp, hrest⟩ := h.owner he
    refine ⟨d, p, Proc.prepared_entered.2 (.inr ⟨fun heq => ?_, hp⟩), hrest⟩
    rw [heq, hnew] at hp
    cases hp

theorem Proc.entering_entered (s : State) (q : Proc) :
    Entering env (q.entered env s) q (q.insertions env) := by
  refine ⟨Proc.prepared_entered.2 (.inl ⟨rfl, rfl⟩), fun r hr hown => .inl ?_,
    fun w hw => .inl ?_, fun k hk => ?_⟩
  · refine mem_append_left _ (mem_map_of_mem (mem_append_left _ ?_))
    exact mem_map.2 ⟨r, mem_filter.2 ⟨hr, hown⟩, rfl⟩
  · refine mem_append_right _ (mem_map.2 ⟨w, ?_, rfl⟩)
    exact mem_filter.2 hw
  · rcases mem_append.1 hk with hk | hk
    · simp at hk
    · obtain ⟨w, hw, hwk⟩ := mem_map.1 hk
      cases hwk
      exact ⟨w, mem_filter.1 hw, rfl⟩

theorem LockInv.enter (h : LockInv env txns c) (hq : c.procs j = some q)
    (hphase : q.phase = .checking []) (hnew : c.state.prepared (q.digest env) = none) :
    LockInv env txns (c.moved j (q.entered env c.state)
      (some { q with phase := .preparing (q.insertions env) })) := by
  have hinv := h.proc hq
  have hlocked : ∀ todo, q.phase ≠ .locking todo := by simp [hphase]
  obtain ⟨hreads, hwrites⟩ := hinv.clear hphase
  have hbusy : (c.moved j (q.entered env c.state)
      (some { q with phase := .preparing (q.insertions env) })).Preparing env (q.digest env) :=
    ⟨j, _, LockState.procs_moved.2 (.inl ⟨rfl, rfl⟩), rfl, _, rfl⟩
  have hindex := h.index.entered hinv.started hnew hbusy fun hd =>
    hd.moved hq fun todo ht => absurd ht (by simp [hphase])
  refine h.moved hq hindex (fun hij hx => h.enter_others hij hq hx hlocked hnew) ?_ ?_
  · rintro x ⟨⟩
    refine ⟨⟨hinv.started, fun k hk => .inl (hinv.holds hlocked hk), fun r hr hown => .inr ?_,
      fun w hw => .inr ?_, ?_⟩, fun k hk => .inl hk⟩
    · intro d p w hp hd
      rcases Proc.prepared_entered.1 hp with ⟨rfl, -⟩ | ⟨-, hp⟩
      · exact absurd rfl hd
      · exact hreads r hr hown d p w hp hd
    · intro d p r hp hd
      rcases Proc.prepared_entered.1 hp with ⟨rfl, -⟩ | ⟨-, hp⟩
      · exact absurd rfl hd
      · exact hwrites w hw d p r hp hd
    · rintro todo ⟨⟩
      obtain ⟨hprep, hread, hwritten, hown⟩ := @Proc.entering_entered env c.state q
      exact ⟨hprep, hread, hwritten, hown⟩
  · intro d d' p p' hp hp' hdd
    rcases Proc.prepared_entered.1 hp with ⟨rfl, rfl⟩ | ⟨hd, hold⟩
    · rcases Proc.prepared_entered.1 hp' with ⟨rfl, -⟩ | ⟨hd', hold'⟩
      · exact absurd rfl hdd
      · rintro ⟨r, w, ⟨hr, hown, -⟩, hw, hkey, hlt, hts, hex⟩
        exact hex (hreads r hr hown d' p' w hold' hd' hw hkey hlt hts)
    · rcases Proc.prepared_entered.1 hp' with ⟨rfl, rfl⟩ | ⟨-, hold'⟩
      · rintro ⟨r, w, hr, hw, hkey, hlt, hts, hex⟩
        have hw' : Writes env q.txn w := (Proc.entry_annotates q).writes.1 hw
        exact hex (hwrites w hw' d p r hold hd hr hkey hlt hts)
      · exact h.pairwise hold hold' hdd

theorem Proc.insert_frame (s : State) (q : Proc) (x : Insertion) :
    (q.insert env s x).prepared = s.prepared ∧ (q.insert env s x).store = s.store := by
  cases x <;> exact ⟨rfl, rfl⟩

theorem Proc.mem_reads_insert {t : Transaction} :
    t ∈ (q.insert env s x).preparedReads k ↔
      t ∈ s.preparedReads k ∨ x = .read k ∧ t = (q.entry env).txn := by
  cases x with
  | write k' => simp [Proc.insert]
  | read k' =>
    by_cases hk : k = k'
    · subst hk
      simp [Proc.insert, mem_insertTxn]
    · simp [Proc.insert, hk, Ne.symm hk]

theorem Proc.mem_writes_insert {e : Timestamp × Transaction} :
    e ∈ (q.insert env s x).preparedWrites k ↔ e ∈ s.preparedWrites k ∨
      x = .write k ∧ e = (q.txn.timestamp, (q.entry env).txn) ∧
        ∀ t, (q.txn.timestamp, t) ∉ s.preparedWrites k := by
  cases x with
  | read k' => simp [Proc.insert]
  | write k' =>
    by_cases hk : k = k'
    · subst hk
      simp [Proc.insert, OrdMap.mem_insertNew]
    · simp [Proc.insert, hk, Ne.symm hk]

theorem Proc.insert_settles (s : State) (q : Proc) (x : Insertion) :
    Settles s (q.insert env s x) := by
  obtain ⟨hprepared, hstore⟩ := @Proc.insert_frame env s q x
  exact ⟨fun d p hp => by rwa [hprepared] at hp, fun k e he => by rwa [hstore]⟩

theorem IndexInv.insert (h : IndexInv env txns busy s) (he : Entering env s q (x :: todo))
    (hbusy : ∀ {d}, busy d → busy' d) : IndexInv env txns busy' (q.insert env s x) := by
  have hset := @Proc.insert_settles env s q x
  refine ⟨fun hp => ?_, fun hp => ?_, fun hp => ?_, fun hp hr hro => ?_, fun hp hw => ?_, ?_⟩
  · exact h.timestamp (hset.prepared _ _ hp)
  · exact h.digest (hset.prepared _ _ hp)
  · exact h.checked (hset.prepared _ _ hp)
  · exact (h.read (hset.prepared _ _ hp) hr hro).imp
      (fun hin => Proc.mem_reads_insert.2 (.inl hin)) hbusy
  · exact (h.written (hset.prepared _ _ hp) hw).imp
      (fun hin => Proc.mem_writes_insert.2 (.inl hin)) hbusy
  · intro k e hin
    rw [(Proc.insert_frame s q x).1]
    rcases Proc.mem_writes_insert.1 hin with hold | ⟨rfl, rfl, -⟩
    · exact h.owner hold
    · obtain ⟨w, hw, rfl⟩ := he.own k mem_cons_self
      exact ⟨_, _, he.prepared, rfl, w, (Proc.entry_annotates q).writes.2 hw, rfl⟩

theorem Entering.insert {q' : Proc} (he : Entering env s q todo) (x : Insertion) :
    Entering env (q'.insert env s x) q todo := by
  refine ⟨?_, fun r hr hro => ?_, fun w hw => ?_, he.own⟩
  · rw [(Proc.insert_frame s q' x).1]
    exact he.prepared
  · exact (he.read r hr hro).imp_right fun hin => Proc.mem_reads_insert.2 (.inl hin)
  · exact (he.written w hw).imp_right fun hin => Proc.mem_writes_insert.2 (.inl hin)

theorem Entering.tail (he : Entering env s q (x :: todo))
    (hone : ∀ k t, (q.txn.timestamp, t) ∈ s.preparedWrites k → t = (q.entry env).txn) :
    Entering env (q.insert env s x) q todo := by
  have hmore : Entering env (q.insert env s x) q (x :: todo) := he.insert x
  refine ⟨hmore.prepared, fun r hr hro => ?_, fun w hw => ?_, fun k hk => he.own k (.tail _ hk)⟩
  · rcases hmore.read r hr hro with hin | hin
    · rcases mem_cons.1 hin with rfl | hin
      · exact .inr (Proc.mem_reads_insert.2 (.inr ⟨rfl, rfl⟩))
      · exact .inl hin
    · exact .inr hin
  · rcases hmore.written w hw with hin | hin
    · rcases mem_cons.1 hin with rfl | hin
      · refine .inr (Proc.mem_writes_insert.2 ?_)
        by_cases hfree : ∀ t, (q.txn.timestamp, t) ∉ s.preparedWrites w.key
        · exact .inr ⟨rfl, rfl, hfree⟩
        · -- a second write of the key: the entry is there already
          obtain ⟨t, ht⟩ := not_forall_not.1 hfree
          rw [hone w.key t ht] at ht
          exact .inl ht
      · exact .inl hin
    · exact .inr hin

theorem LockInv.insert (htxns : TellApart env txns) (h : LockInv env txns c)
    (hq : c.procs j = some q) (hphase : q.phase = .preparing (x :: todo)) :
    LockInv env txns (c.moved j (q.insert env c.state x)
      (some { q with phase := .preparing todo })) := by
  have hinv := h.proc hq
  have hlocked : ∀ todo, q.phase ≠ .locking todo := by simp [hphase]
  have hentering := hinv.entered _ hphase
  have hset := @Proc.insert_settles env c.state q x
  have hone : ∀ k t, (q.txn.timestamp, t) ∈ c.state.preparedWrites k → t = (q.entry env).txn := by
    intro k t ht
    obtain ⟨d, p, hp, heq, -⟩ := h.index.owner ht
    obtain ⟨htime, rfl⟩ := Prod.mk.inj heq
    obtain rfl := h.index.digest_eq htxns hp hinv.started htime.symm
    rw [some.inj (hp.symm.trans hentering.prepared)]
  have hindex := h.index.insert hentering fun {d} hd =>
    hd.moved (s := q.insert env c.state x) hq fun _ _ =>
      ⟨{ q with phase := .preparing todo }, rfl, rfl, todo, rfl⟩
  refine h.moved hq hindex ?_ ?_ ?_
  · intro i y hij hy
    exact (h.proc hy).mono hset fun todo' _ he => he.insert x
  · rintro y ⟨⟩
    refine ⟨⟨hinv.started, fun k hk => .inl (hinv.holds hlocked hk), fun r hr hro => .inr ?_,
      fun w hw => .inr ?_, ?_⟩, fun k hk => .inl hk⟩
    · have hr' := hinv.read r hr hro
      rw [hphase] at hr'
      exact (hr'.resolve_left id).mono hset
    · have hw' := hinv.write w hw
      rw [hphase] at hw'
      exact (hw'.resolve_left id).mono hset
    · rintro todo' ⟨⟩
      obtain ⟨hprep, hread, hwritten, hown⟩ := hentering.tail hone
      exact ⟨hprep, hread, hwritten, hown⟩
  · intro d d' p p' hp hp' hdd ho
    exact h.pairwise (hset.prepared _ _ hp) (hset.prepared _ _ hp') hdd (ho.mono hset.store)

theorem LockInv.stop (h : LockInv env txns c) (hq : c.procs j = some q)
    (hphase : ∀ x todo, q.phase ≠ .preparing (x :: todo)) :
    LockInv env txns (c.moved j c.state none) := by
  refine h.moved hq (h.index.settle ?_) (fun _ hx => h.proc hx) (fun _ hx => nomatch hx) h.pairwise
  rintro d ⟨i, x, hx, rfl, todo, htodo⟩
  by_cases hij : i = j
  · subst hij
    obtain rfl : q = x := some.inj (hq.symm.trans hx)
    cases todo with
    | cons y todo => exact absurd htodo (hphase y todo)
    | nil =>
      obtain ⟨hprep, hreads, hwrites, -⟩ := (h.proc hq).entered [] htodo
      refine .inr fun p hp => ?_
      obtain rfl : p = q.entry env := some.inj (hp.symm.trans hprep)
      refine ⟨fun r hr hown => ?_, fun w hw => ?_⟩
      · exact (hreads r hr hown).resolve_left not_mem_nil
      · exact (hwrites w ((Proc.entry_annotates q).writes.1 hw)).resolve_left not_mem_nil
  · exact .inl ⟨i, x, LockState.procs_moved.2 (.inr ⟨hij, hx⟩), rfl, todo, htodo⟩

/-! ## Commits and aborts -/

theorem LockInv.grow (h : LockInv env txns c) (hprepared : s.prepared = c.state.prepared)
    (hreads : s.preparedReads = c.state.preparedReads)
    (hwrites : s.preparedWrites = c.state.preparedWrites)
    (hstore : ∀ k, ∀ e ∈ c.state.store k, e ∈ s.store k) :
    LockInv env txns { c with state := s } := by
  have hset : Settles c.state s := ⟨fun d p hp => by rwa [hprepared] at hp, hstore⟩
  refine ⟨h.index.congr hprepared hreads hwrites, fun hq => ?_, h.mutex, ?_⟩
  · refine (h.proc hq).mono hset fun todo _ he => ⟨?_, ?_, ?_, he.own⟩
    · rw [hprepared]
      exact he.prepared
    · rw [hreads]
      exact he.read
    · rw [hwrites]
      exact he.written
  · intro d d' p p' hp hp' hdd ho
    exact h.pairwise (hset.prepared _ _ hp) (hset.prepared _ _ hp') hdd (ho.mono hstore)

theorem LockInv.clean (htxns : TellApart env txns) (h : LockInv env txns c)
    (hfree : ¬ c.Preparing env d) :
    LockInv env txns { c with state := c.state.clean env d } := by
  have hset := @clean_settles env c.state d
  refine ⟨h.index.clean htxns, fun {j q} hq => ?_, h.mutex, ?_⟩
  · have hinv := h.proc hq
    refine hinv.mono hset fun todo hphase he => ?_
    have hd : q.digest env ≠ d := fun heq => hfree ⟨j, q, hq, heq, todo, hphase⟩
    cases hp : c.state.prepared d with
    | none => rwa [State.clean, hp]
    | some p =>
      refine ⟨clean_prepared.2 ⟨hd, he.prepared⟩, fun r hr hown => ?_, fun w hw => ?_, he.own⟩
      · refine (he.read r hr hown).imp_right fun hin => ?_
        refine (mem_preparedReads_clean hp).2 ⟨hin, fun heq => absurd ?_ hd⟩
        rw [← h.index.digest hp, ← heq]
        exact (Proc.entry_annotates q).digest.symm
      · refine (he.written w hw).imp_right fun hin => ?_
        refine (mem_preparedWrites_clean hp).2 ⟨hin, fun heq => absurd ?_ hd⟩
        exact (h.index.digest_eq htxns hp hinv.started heq.symm).symm
  · intro d₁ d₂ p p' hp hp' hdd ho
    exact h.pairwise (hset.prepared _ _ hp) (hset.prepared _ _ hp') hdd (ho.mono hset.store)

theorem LockInv.commit (htxns : TellApart env txns) (h : LockInv env txns c) {x : Committed}
    (hfree : ¬ c.Preparing env (env.digest x.txn)) :
    LockInv env txns { c with state := c.state.commit env x } := by
  unfold State.commit
  dsimp only
  split_ifs
  · exact h
  · obtain ⟨hprepared, hreads, hwrites, -⟩ := commitToStore_frame
      { c.state with committed := update c.state.committed (env.digest x.txn) (some x) } x
    have hset := @commitToStore_settles env
      { c.state with committed := update c.state.committed (env.digest x.txn) (some x) } x
    exact (h.grow hprepared hreads hwrites hset.store).clean htxns hfree

theorem LockInv.abort (htxns : TellApart env txns) (h : LockInv env txns c)
    (hfree : ¬ c.Preparing env d) :
    LockInv env txns { c with state := c.state.abort env d } := by
  have hgrow : LockInv env txns
      { c with state := { c.state with aborted := update c.state.aborted d true } } :=
    h.grow rfl rfl rfl fun _ _ he => he
  exact hgrow.clean htxns hfree

theorem LockInv.other (htxns : TellApart env txns) (h : LockInv env txns c) {e : Event}
    (he : e.isCheck = false) (hfree : ∀ d ∈ e.cleans env, ¬ c.Preparing env d) :
    LockInv env txns { c with state := step env c.state e } := by
  unfold step
  split_ifs
  · exact h
  cases e with
  | check txn i => cases he
  | commit txn sigs view => exact h.commit htxns (hfree _ rfl)
  | commitWithProof proof => exact h.commit htxns (hfree _ rfl)
  | abort d => exact h.abort htxns (hfree _ rfl)
  | wakeCommitted d merged =>
    unfold State.wakeCommitted
    dsimp only
    cases c.state.committed d with
    | none => exact h
    | some x =>
      dsimp only
      split_ifs
      · exact h
      · exact h.grow rfl rfl rfl fun _ _ he => he

/-! ## Steps -/

theorem LockInv.run (htxns : TellApart env txns) (h : LockInv env txns c) (hq : c.procs j = some q)
    (hm : Moves env c q s q') : LockInv env txns (c.moved j s q') := by
  cases hm with
  | blocked =>
    have hsame : c.moved j c.state (some q) = c := by
      unfold LockState.moved
      rw [← hq, update_eq_self]
    rwa [hsame]
  | acquire hphase hfree => exact h.acquire hq hphase hfree
  | begin hphase => exact h.begin hq hphase
  | check hphase hx => exact h.check hq hphase hx
  | enter hphase hnew => exact h.enter hq hphase hnew
  | insert hphase => exact h.insert htxns hq hphase
  | abort hphase hfree =>
    have habort := h.abort htxns hfree
    exact habort.stop hq (by simp [hphase])
  | stop hphase => exact h.stop hq hphase

theorem LockInv.start (h : LockInv env txns c) {i : Input} (hj : c.procs j = none)
    (ht : txn ∈ txns) :
    LockInv env txns
      { c with
        procs := update c.procs j (some
          { txn := txn, input := i
            phase := .locking (lockTxnKeys txn (mergedSets env txn).readSet) })
        started := txn :: c.started } := by
  refine ⟨h.index.settle fun d hd => .inl ?_, fun {k q} hq => ?_, ?_, h.pairwise⟩
  · obtain ⟨k, q, hq, hrest⟩ := hd
    refine ⟨k, q, update_eq_some.2 (.inr ⟨?_, hq⟩), hrest⟩
    rintro rfl
    rw [hj] at hq
    cases hq
  · rcases update_eq_some.1 hq with ⟨-, hnew⟩ | ⟨-, hold⟩
    · cases hnew
      refine ⟨ht, fun k hk => .inr ⟨_, rfl, mem_lockLoop (by simp) ?_⟩, fun _ _ _ => .inl trivial,
        fun _ _ => .inl trivial, fun _ ht => nomatch ht⟩
      exact hk.imp (fun ⟨r, hr, heq⟩ => mem_map.2 ⟨r, hr, heq⟩)
        fun ⟨w, hw, heq⟩ => mem_map.2 ⟨w, hw, heq⟩
    · exact h.proc hold
  · intro i₁ i₂ q q' k hii hq hq' hk hk'
    rcases update_eq_some.1 hq with ⟨-, hnew⟩ | ⟨-, hold⟩
    · cases hnew
      cases hk
    · rcases update_eq_some.1 hq' with ⟨-, hnew⟩ | ⟨-, hold'⟩
      · cases hnew
        cases hk'
      · exact h.mutex hii hold hold' hk hk'

/-- **Every step keeps the invariant**, whatever the other threads do. -/
theorem lockStep_inv {e : LockEvent n} (htxns : TellApart env txns)
    (ht : ∀ j txn i, e = .start j txn i → txn ∈ txns) (h : LockInv env txns c) :
    LockInv env txns (lockStep env c e) :=
  lockStep_keeps h (fun j txn i he hj => h.start hj (ht j txn i he))
    (fun _ _ _ _ hq hmoves => h.run htxns hq hmoves) fun _ he hidle => h.other htxns he hidle

theorem Loaded.lockInv {s₀ : State} (h : Loaded s₀) :
    LockInv (n := n) env txns { state := s₀ } := by
  refine ⟨(h.inv txns).prepared.settle fun _ hd => hd.elim, (fun hq => nomatch hq),
    (fun _ hq => nomatch hq), fun hp => ?_⟩
  rw [h.prepared] at hp
  cases hp

end Sintr.Mvtso
