import Sintr.Mvtso.Delayed

/-!
# Checks in parallel

With `parallel_CCC` several threads check transactions at the same time. Each locks the keys its
transaction reads and writes, and then goes through its checks and through `Prepare`, one access to
a shared index after the other; commits and aborts may come between any two accesses.

* `lockMachine`: the threads, one access at a time.
* `run_moves`: what one access can do; `lockStep_keeps`: what a step keeps.

Not locked are the policies a transaction is checked against, since they are in neither of its sets.
-/

namespace Sintr.Mvtso

open State List

/-! ## Locks -/

/-- The loop of `LockTxnKeys_scoped`. A key is skipped if the next one of its set is the same, and a
key of both sets is locked once. -/
def lockLoop : Nat → List Key → List Key → List Key
  | 0, _, _ => []
  | n + 1, reads, writes =>
    if reads.head? = reads[1]? ∧ reads ≠ [] then lockLoop n reads.tail writes
    else if writes.head? = writes[1]? ∧ writes ≠ [] then lockLoop n reads writes.tail
    else
      match reads, writes with
      | [], [] => []
      | [], w :: ws => w :: lockLoop n [] ws
      | r :: rs, [] => r :: lockLoop n rs []
      | r :: rs, w :: ws =>
        if r ≤ w then r :: lockLoop n rs (if r = w then ws else w :: ws)
        else w :: lockLoop n (r :: rs) ws

/-- `LockTxnKeys_scoped`: every round takes at least one key. -/
def lockTxnKeys (txn : Transaction) (readSet : List ReadMessage) : List Key :=
  lockLoop (readSet.length + txn.writeSet.length) (readSet.map (·.key)) (txn.writeSet.map (·.key))

variable {k : Key}

theorem mem_of_tail {l : List Key} (h : l.head? = l[1]?) (hk : k ∈ l) : k ∈ l.tail := by
  cases l with
  | nil => exact hk
  | cons a l =>
    cases l with
    | nil => cases h
    | cons b l =>
      obtain rfl : a = b := Option.some.inj h
      rcases mem_cons.1 hk with rfl | hk
      · exact mem_cons_self
      · exact hk

theorem mem_lockLoop {n : Nat} {reads writes : List Key} (hn : reads.length + writes.length ≤ n)
    (hk : k ∈ reads ∨ k ∈ writes) : k ∈ lockLoop n reads writes := by
  induction n generalizing reads writes with
  | zero =>
    obtain ⟨hr, hw⟩ : reads = [] ∧ writes = [] := by
      constructor <;> apply eq_nil_of_length_eq_zero <;> omega
    subst hr hw
    rcases hk with hk | hk <;> cases hk
  | succ n ih =>
    unfold lockLoop
    by_cases hr : reads.head? = reads[1]? ∧ reads ≠ []
    · rw [if_pos hr]
      have hpos := length_pos_iff.2 hr.2
      refine ih ?_ (hk.imp_left (mem_of_tail hr.1))
      rw [length_tail]
      omega
    rw [if_neg hr]
    by_cases hw : writes.head? = writes[1]? ∧ writes ≠ []
    · rw [if_pos hw]
      have hpos := length_pos_iff.2 hw.2
      refine ih ?_ (hk.imp_right (mem_of_tail hw.1))
      rw [length_tail]
      omega
    rw [if_neg hw]
    -- a key that is not locked in this round is among those left
    have hround {a : Key} {rs ws : List Key} (hlen : rs.length + ws.length ≤ n)
        (hrest : k ≠ a → k ∈ rs ∨ k ∈ ws) : k ∈ a :: lockLoop n rs ws := by
      by_cases hka : k = a
      · exact mem_cons.2 (.inl hka)
      · exact mem_cons_of_mem _ (ih hlen (hrest hka))
    have htail {a : Key} {l : List Key} (hka : k ≠ a) (h : k ∈ a :: l) : k ∈ l :=
      (mem_cons.1 h).resolve_left hka
    clear hr hw
    cases reads with
    | nil =>
      cases writes with
      | nil => rcases hk with hk | hk <;> cases hk
      | cons w ws =>
        apply hround
        · simp only [length_nil, length_cons] at hn ⊢
          omega
        · exact fun hkw => hk.imp_right (htail hkw)
    | cons r rs =>
      simp only [length_cons] at hn
      cases writes with
      | nil =>
        apply hround
        · simp only [length_nil] at hn ⊢
          omega
        · exact fun hkr => hk.imp_left (htail hkr)
      | cons w ws =>
        simp only [length_cons] at hn
        dsimp only
        split_ifs with hle heq
        · -- one lock for both
          subst heq
          exact hround (by omega) fun hkr => hk.imp (htail hkr) (htail hkr)
        · exact hround (by rw [length_cons]; omega) fun hkr => hk.imp_left (htail hkr)
        · exact hround (by rw [length_cons]; omega) fun hkw => hk.imp_right (htail hkw)

/-! ## One check -/

inductive Check where
  /-- The last committed write before the transaction. -/
  | read (r : ReadMessage)
  | readPrepared (r : ReadMessage)
  | write (w : WriteMessage)
  /-- The three lookups of `policyCheckHelper`. -/
  | policy (policyId : Bytes)
  | policyPrepared (policyId : Bytes) (committed : Option Timestamp)
  | policyUpper (policyId : Bytes) (committed : Option Timestamp)
  | committedReads (w : WriteMessage)
  | preparedReads (w : WriteMessage)
  | dep (d : Digest)
  deriving DecidableEq

inductive Insertion where
  | read (k : Key)
  | write (k : Key)
  deriving DecidableEq

inductive Phase where
  | locking (todo : List Key)
  | checking (todo : List Check)
  /-- A conflict with a committed transaction was found. -/
  | aborting
  | preparing (todo : List Insertion)
  deriving DecidableEq

/-- A thread in a check: the keys it holds and what is left to do. -/
structure Proc where
  txn : Transaction
  input : Input
  held : List Key := []
  policyReads : List (Bytes × Timestamp) := []
  phase : Phase

section
variable (env : Env)

namespace Proc

def digest (q : Proc) : Digest := env.digest q.txn

def readSet (q : Proc) : List ReadMessage := (mergedSets env q.txn).readSet

def next (q : Proc) (todo : List Check) : Proc := { q with phase := .checking todo }

def entry (q : Proc) : Prepared :=
  ⟨q.txn.timestamp, addPolicyReads q.txn q.policyReads, q.readSet env⟩

def checks (q : Proc) : List Check :=
  ((q.readSet env).filter (ownedRead env)).map .read ++
  (q.txn.writeSet.filter (ownedWrite env q.txn)).map .write ++
  if env.params.validateProofs && env.params.signedMessages && !env.params.verifyDeps then
    (ownDeps env (mergedSets env q.txn).deps).map .dep
  else []

def insertions (q : Proc) : List Insertion :=
  (preparedKeys env (q.readSet env) q.policyReads).map .read ++
  (q.txn.writeSet.filter (ownedWrite env q.txn)).map fun w => .write w.key

/-- One access of the checks; `todo` are those after it. The result is `none` if the thread returns
ABSTAIN. -/
def check (q : Proc) (s : State) (todo : List Check) : Check → Option Proc
  | .read r =>
    match (s.store r.key).latestLT q.txn.timestamp with
    | none => some (q.next (.readPrepared r :: todo))
    | some (w, v) =>
      if r.readtime = .zero ∧ v.val = deletion then some (q.next todo)
      else if r.readtime < w then some { q with phase := .aborting }
      else some (q.next (.readPrepared r :: todo))
  | .readPrepared r =>
    match s.preparedWriteConflict q.txn.timestamp r with
    | some _ => none
    | none => some (q.next todo)
  | .write w =>
    match policyOf env q.txn w with
    | none => some (q.next (.committedReads w :: todo))
    | some policyId =>
      if policyId ∈ q.policyReads.map (·.1) then some (q.next (.committedReads w :: todo))
      else some (q.next (.policy policyId :: .committedReads w :: todo))
  | .policy policyId =>
    let committed := ((s.policyStore policyId).latestLE q.txn.timestamp).map (·.1)
    some (q.next (.policyPrepared policyId committed :: todo))
  | .policyPrepared policyId committed =>
    if (s.findPreparedVersion policyId q.txn.timestamp committed).isSome then none
    else some (q.next (.policyUpper policyId committed :: todo))
  | .policyUpper policyId committed =>
    if ((s.policyStore policyId).firstGT q.txn.timestamp).isSome then none
    else
      some { q.next todo with policyReads := q.policyReads ++ [(policyId, committed.getD .zero)] }
  | .committedReads w =>
    match committedReadConflict env q.txn.timestamp w (s.committedReads w.key).entries.reverse with
    | some _ => some { q with phase := .aborting }
    | none => some (q.next (.preparedReads w :: todo))
  | .preparedReads w =>
    if s.preparedReadConflict q.txn.timestamp w || q.input.rts w.key then none
    else some (q.next todo)
  | .dep d =>
    if !s.aborted d && ((s.committed d).isSome || (s.prepared d).isSome) then some (q.next todo)
    else none

def insert (q : Proc) (s : State) : Insertion → State
  | .read k =>
    { s with
      preparedReads := Function.update s.preparedReads k
        (insertTxn (q.entry env).txn (s.preparedReads k)) }
  | .write k =>
    { s with
      preparedWrites := Function.update s.preparedWrites k
        ((s.preparedWrites k).insertNew q.txn.timestamp (q.entry env).txn) }

/-- The checks that need no index. -/
def admitted (q : Proc) : Bool :=
  !(q.input.highWatermark < q.txn.timestamp) &&
    !(env.params.useSemanticCC && !q.txn.writeSet.isEmpty && !q.input.monotonic)

end Proc

/-! ## Threads -/

/-- The store and the threads at work on it. -/
structure LockState (n : Nat) where
  state : State
  procs : Fin n → Option Proc := fun _ => none
  started : List Transaction := []

namespace LockState

variable {n : Nat} (c : LockState n)

def Locked (k : Key) : Prop := ∃ j, ∃ q ∈ c.procs j, k ∈ q.held
deriving Decidable

instance (ph : Phase) : Decidable (∃ todo, ph = .preparing todo) :=
  match ph with
  | .preparing todo => .isTrue ⟨todo, rfl⟩
  | .locking _ | .checking _ | .aborting => .isFalse fun ⟨_, h⟩ => nomatch h

/-- A thread is in `Prepare` and holds the entry of the transaction in `ongoing`. -/
def Preparing (d : Digest) : Prop :=
  ∃ j, ∃ q ∈ c.procs j, q.digest env = d ∧ ∃ todo, q.phase = .preparing todo
deriving Decidable

/-- The next access of thread `q`, and the thread after it: `none` if it returns and its locks are
released. -/
def run (q : Proc) : State × Option Proc :=
  let s := c.state
  match q.phase with
  | .locking (k :: todo) =>
    if c.Locked k then (s, some q)
    else (s, some { q with held := k :: q.held, phase := .locking todo })
  | .locking [] =>
    if (s.prepared (q.digest env)).isSome || !q.admitted env then (s, none)
    else (s, some (q.next (q.checks env)))
  | .checking (x :: todo) => (s, q.check env s todo x)
  | .checking [] =>
    if env.params.useSemanticCC && q.input.predicates != .commit || !q.input.ongoing ||
        (s.prepared (q.digest env)).isSome then (s, none)
    else
      ({ s with prepared := Function.update s.prepared (q.digest env) (some (q.entry env)) },
        some { q with phase := .preparing (q.insertions env) })
  | .aborting =>
    if c.Preparing env (q.digest env) then (s, some q) else (s.abort env (q.digest env), none)
  | .preparing (x :: todo) => (q.insert env s x, some { q with phase := .preparing todo })
  | .preparing [] => (s, none)

end LockState

def Event.cleans : Event → Option Digest
  | .check .. | .wakeCommitted .. => none
  | .commit txn .. => some (env.digest txn)
  | .commitWithProof proof => some (env.digest proof.txn)
  | .abort d => some d

inductive LockEvent (n : Nat) where
  | start (j : Fin n) (txn : Transaction) (i : Input)
  | run (j : Fin n)
  | other (e : Event) (h : e.isCheck = false)

def lockStep {n : Nat} (c : LockState n) (e : LockEvent n) : LockState n :=
  if c.state.crashed then c
  else
    match e with
    | .start j txn i =>
      match c.procs j with
      | some _ => c
      | none =>
        let phase := Phase.locking (lockTxnKeys txn (mergedSets env txn).readSet)
        { c with
          procs := Function.update c.procs j (some { txn := txn, input := i, phase := phase })
          started := txn :: c.started }
    | .run j =>
      match c.procs j with
      | none => c
      | some q =>
        let (state, q) := c.run env q
        { c with state := state, procs := Function.update c.procs j q }
    | .other e _ =>
      if ∃ d ∈ e.cleans env, c.Preparing env d then c else { c with state := step env c.state e }

def lockMachine (n : Nat) : Machine (LockState n) (LockEvent n) := ⟨lockStep env⟩

end

/-! ## What an access does -/

/-- What an access of thread `q` does, and what it needs. -/
inductive Moves (env : Env) {n : Nat} (c : LockState n) (q : Proc) : State → Option Proc → Prop
  | blocked : Moves env c q c.state (some q)
  | acquire {k : Key} {todo : List Key} (hphase : q.phase = .locking (k :: todo))
      (hfree : ¬ c.Locked k) :
      Moves env c q c.state (some { q with held := k :: q.held, phase := .locking todo })
  | begin (hphase : q.phase = .locking []) : Moves env c q c.state (some (q.next (q.checks env)))
  | check {x : Check} {todo : List Check} {q' : Proc} (hphase : q.phase = .checking (x :: todo))
      (hx : q.check env c.state todo x = some q') : Moves env c q c.state (some q')
  | enter (hphase : q.phase = .checking []) (hnew : c.state.prepared (q.digest env) = none) :
      Moves env c q
        { c.state with
          prepared := Function.update c.state.prepared (q.digest env) (some (q.entry env)) }
        (some { q with phase := .preparing (q.insertions env) })
  | insert {x : Insertion} {todo : List Insertion} (hphase : q.phase = .preparing (x :: todo)) :
      Moves env c q (q.insert env c.state x) (some { q with phase := .preparing todo })
  | abort (hphase : q.phase = .aborting) (hfree : ¬ c.Preparing env (q.digest env)) :
      Moves env c q (c.state.abort env (q.digest env)) none
  | stop (hphase : ∀ x todo, q.phase ≠ .preparing (x :: todo)) : Moves env c q c.state none

theorem run_moves (env : Env) {n : Nat} (c : LockState n) (q : Proc) :
    Moves env c q (c.run env q).1 (c.run env q).2 := by
  unfold LockState.run
  dsimp only
  split
  case h_1 k todo hphase =>
    split_ifs with hl
    · exact .blocked
    · exact .acquire hphase hl
  case h_2 hphase =>
    split_ifs
    · exact .stop (by simp [hphase])
    · exact .begin hphase
  case h_3 x todo hphase =>
    cases hx : q.check env c.state todo x with
    | none => exact .stop (by simp [hphase])
    | some q' => exact .check hphase hx
  case h_4 hphase =>
    split_ifs with hno
    · exact .stop (by simp [hphase])
    · rw [Bool.or_eq_true, not_or] at hno
      exact .enter hphase (Option.not_isSome_iff_eq_none.1 hno.2)
  case h_5 hphase =>
    split_ifs with hp
    · exact .blocked
    · exact .abort hphase hp
  case h_6 x todo hphase => exact .insert hphase
  case h_7 hphase => exact .stop (by simp [hphase])

/-- What a step keeps: look at a new thread, an access of a thread, and a commit or an abort of a
transaction that is not being prepared. -/
theorem lockStep_keeps {env : Env} {n : Nat} {c : LockState n} {e : LockEvent n}
    {I : LockState n → Prop} (h : I c)
    (hstart : ∀ j txn i, e = .start j txn i → c.procs j = none →
      I { c with
          procs := Function.update c.procs j (some
            { txn := txn, input := i
              phase := .locking (lockTxnKeys txn (mergedSets env txn).readSet) })
          started := txn :: c.started })
    (hrun : ∀ j q s q', c.procs j = some q → Moves env c q s q' →
      I { c with state := s, procs := Function.update c.procs j q' })
    (hother : ∀ e' : Event, e'.isCheck = false → (∀ d ∈ e'.cleans env, ¬ c.Preparing env d) →
      I { c with state := step env c.state e' }) : I (lockStep env c e) := by
  unfold lockStep
  split_ifs
  · exact h
  cases e with
  | start j txn i =>
    dsimp only
    cases hj : c.procs j with
    | some q => exact h
    | none => exact hstart j txn i rfl hj
  | run j =>
    dsimp only
    cases hq : c.procs j with
    | none => exact h
    | some q => exact hrun j q _ _ hq (run_moves env c q)
  | other e' he =>
    dsimp only
    split_ifs with hbusy
    · exact h
    · exact hother e' he fun d hd hp => hbusy ⟨d, hd, hp⟩

end Sintr.Mvtso
