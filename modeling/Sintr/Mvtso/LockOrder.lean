import Mathlib.Algebra.Order.BigOperators.Group.Finset
import Mathlib.Data.Fintype.Card
import Mathlib.Order.WellFounded
import Sintr.Mvtso.LockInvariant

/-!
# The order of the locks

A check that runs in parallel locks its keys one by one and waits for each. If the read set and the
write set are sorted, `lockTxnKeys` takes the keys of both in strictly increasing order
(`lockLoop_sorted`), so that a thread waits only for a key above those it holds (`Proc.Climbs`).
Then no threads wait for each other in a circle (`lockTxnKeys_no_deadlock`), and since every access
takes some work off (`Moves.work`), all checks can end: `checks_finish`.
-/

namespace Sintr.Mvtso

open List

variable {k : Key}

/-! ## The keys of a transaction -/

theorem mem_of_lockLoop {n : Nat} {reads writes : List Key} (hk : k ∈ lockLoop n reads writes) :
    k ∈ reads ∨ k ∈ writes := by
  fun_induction lockLoop n reads writes <;> grind [mem_of_mem_tail]

theorem lt_of_mem_tail {a : Key} {l : List Key} (hl : (a :: l).Pairwise (· ≤ ·))
    (hne : ¬ ((a :: l).head? = (a :: l)[1]? ∧ a :: l ≠ [])) (hk : k ∈ l) : a < k := by
  obtain ⟨ha, hl⟩ := pairwise_cons.1 hl
  cases l with
  | nil => cases hk
  | cons b l =>
    have hab : a < b := Std.lt_of_le_of_ne (ha b mem_cons_self) fun h => hne (by simp [h])
    rcases mem_cons.1 hk with rfl | hk
    · exact hab
    · exact Std.lt_of_lt_of_le hab ((pairwise_cons.1 hl).1 k hk)

theorem lockLoop_sorted {n : Nat} {reads writes : List Key} (hr : reads.Pairwise (· ≤ ·))
    (hw : writes.Pairwise (· ≤ ·)) : (lockLoop n reads writes).Pairwise (· < ·) := by
  fun_induction lockLoop n reads writes with
  | case1 => exact .nil
  | case2 n reads writes h ih => exact ih hr.tail hw
  | case3 n reads writes _ h ih => exact ih hr hw.tail
  | case4 => exact .nil
  | case5 n w ws _ hne ih =>
    refine pairwise_cons.2 ⟨fun k hk => ?_, ih hr hw.tail⟩
    have hk := (mem_of_lockLoop hk).resolve_left not_mem_nil
    exact lt_of_mem_tail hw hne hk
  | case6 n r rs hne _ ih =>
    refine pairwise_cons.2 ⟨fun k hk => ?_, ih hr.tail hw⟩
    have hk := (mem_of_lockLoop hk).resolve_right not_mem_nil
    exact lt_of_mem_tail hr hne hk
  | case7 n r rs w ws hle hner hnew ih =>
    refine pairwise_cons.2 ⟨fun k hk => ?_, ih hr.tail ?_⟩
    · rcases mem_of_lockLoop hk with hk | hk
      · exact lt_of_mem_tail hr hner hk
      · by_cases heq : r = w
        · rw [if_pos heq] at hk
          exact heq ▸ lt_of_mem_tail hw hnew hk
        · rw [if_neg heq] at hk
          have hlt : r < w := Std.lt_of_le_of_ne hle heq
          rcases mem_cons.1 hk with rfl | hk
          · exact hlt
          · exact Std.lt_of_lt_of_le hlt ((pairwise_cons.1 hw).1 k hk)
    · split_ifs
      · exact hw.tail
      · exact hw
  | case8 n r rs w ws hle hner hnew ih =>
    refine pairwise_cons.2 ⟨fun k hk => ?_, ih hr hw.tail⟩
    have hlt : w < r := List.not_le.1 hle
    rcases mem_of_lockLoop hk with hk | hk
    · rcases mem_cons.1 hk with rfl | hk
      · exact hlt
      · exact Std.lt_of_lt_of_le hlt ((pairwise_cons.1 hr).1 k hk)
    · exact lt_of_mem_tail hw hnew hk

def SortedSets (txn : Transaction) (readSet : List ReadMessage) : Prop :=
  (readSet.map (·.key)).Pairwise (· ≤ ·) ∧ (txn.writeSet.map (·.key)).Pairwise (· ≤ ·)

/-! ## Threads -/

variable {env : Env} {n : Nat} {c : LockState n}

/-- The keys that the thread has yet to lock increase and are above those it holds. -/
def Proc.Climbs (q : Proc) : Prop :=
  ∀ todo, q.phase = .locking todo → todo.Pairwise (· < ·) ∧ ∀ k ∈ q.held, ∀ k' ∈ todo, k < k'

theorem Proc.climbs_of_ne {q : Proc} (h : ∀ todo, q.phase ≠ .locking todo) : q.Climbs :=
  fun todo hp => absurd hp (h todo)

theorem Moves.climbs {q q' : Proc} {s : State} (h : Moves env c q s (some q')) (hq : q.Climbs) :
    q'.Climbs := by
  cases h with
  | blocked => exact hq
  | @acquire k todo hphase =>
    obtain ⟨hsorted, hheld⟩ := hq _ hphase
    obtain ⟨hk, hsorted⟩ := pairwise_cons.1 hsorted
    rintro _ ⟨⟩
    refine ⟨hsorted, fun k' hk' => ?_⟩
    rcases mem_cons.1 hk' with rfl | hk'
    · exact hk
    · exact fun j hj => hheld k' hk' j (mem_cons_of_mem _ hj)
  | check hphase hx =>
    rcases check_todo hx with rfl | ⟨todo', policyReads, rfl, -⟩ <;>
      exact Proc.climbs_of_ne (by simp)
  | begin | enter | insert => exact Proc.climbs_of_ne (by simp [Proc.next])

def LockState.Climbs (c : LockState n) : Prop := ∀ j, ∀ q ∈ c.procs j, q.Climbs

/-- Each thread of the set waits for a key that one of them holds. -/
def LockState.Deadlocked (c : LockState n) (js : Set (Fin n)) : Prop :=
  ∀ j ∈ js, ∃ q ∈ c.procs j, ∃ k todo, q.phase = .locking (k :: todo) ∧
    ∃ i ∈ js, ∃ q' ∈ c.procs i, k ∈ q'.held

def LockEvent.Sorted (env : Env) : LockEvent n → Prop
  | .start _ txn _ => SortedSets txn (mergedSets env txn).readSet
  | .run _ | .other .. => True

theorem lockStep_climbs {e : LockEvent n} (he : e.Sorted env) (h : c.Climbs) :
    (lockStep env c e).Climbs := by
  refine lockStep_keeps h (fun j txn i heq _ j' q' hq' => ?_)
    (fun j q s q₁ hq hmoves j' q' hq' => ?_) fun _ _ _ => h
  · subst heq
    rcases update_eq_some.1 hq' with ⟨-, hnew⟩ | ⟨-, hold⟩
    · cases hnew
      rintro _ ⟨⟩
      exact ⟨lockLoop_sorted he.1 he.2, by simp⟩
    · exact h j' q' hold
  · rcases update_eq_some.1 hq' with ⟨-, rfl⟩ | ⟨-, hold⟩
    · exact hmoves.climbs (h j q hq)
    · exact h j' q' hold

theorem not_deadlocked (h : c.Climbs) {js : Set (Fin n)} (hjs : js.Nonempty) :
    ¬ c.Deadlocked js := by
  intro hdead
  have hwait : ∀ j ∈ js, ∃ k, (∃ q ∈ c.procs j, ∃ todo, q.phase = .locking (k :: todo)) ∧
      ∃ i ∈ js, ∃ q ∈ c.procs i, k ∈ q.held := by
    intro j hj
    obtain ⟨q, hq, k, todo, hphase, hheld⟩ := hdead j hj
    exact ⟨k, ⟨q, hq, todo, hphase⟩, hheld⟩
  choose! key hkey hheld using hwait
  -- a thread of the set that waits for a greatest key
  have : IsTrans (Fin n) fun i j => key j < key i := ⟨fun _ _ _ hij hjk => List.lt_trans hjk hij⟩
  have : Std.Irrefl fun i j : Fin n => key j < key i := ⟨fun i => List.lt_irrefl (key i)⟩
  obtain ⟨j, hj, hmax⟩ :=
    (Finite.wellFounded_of_trans_of_irrefl fun i j : Fin n => key j < key i).has_min js hjs
  -- the thread that holds this key waits for a greater one
  obtain ⟨i, hi, q, hq, hk⟩ := hheld j hj
  obtain ⟨q', hq', todo, hphase⟩ := hkey i hi
  obtain rfl : q = q' := Option.some.inj (hq.symm.trans hq')
  exact hmax i hi ((h i q hq _ hphase).2 _ hk _ mem_cons_self)

/-- **Sorted sets are locked in order and without deadlock.** -/
theorem lockTxnKeys_no_deadlock :
    (∀ txn readSet, SortedSets txn readSet →
      (lockTxnKeys txn readSet).Pairwise (· < ·) ∧ ∀ k, k ∈ lockTxnKeys txn readSet ↔
        k ∈ readSet.map (·.key) ∨ k ∈ txn.writeSet.map (·.key)) ∧
    ∀ (env : Env) n s₀ (es : List (LockEvent n)), (∀ e ∈ es, e.Sorted env) →
      ∀ js : Set (Fin n), js.Nonempty →
        ¬ ((lockMachine env n).run { state := s₀ } es).Deadlocked js := by
  constructor
  · intro txn readSet h
    refine ⟨lockLoop_sorted h.1 h.2, fun k => ⟨mem_of_lockLoop, mem_lockLoop ?_⟩⟩
    simp
  · intro env n s₀ es hes js hjs
    have h : ((lockMachine env n).run { state := s₀ } es).Climbs :=
      Machine.run_along (I := LockState.Climbs) (fun c e he h => lockStep_climbs he h)
        (fun _ _ hq => by cases hq) (Machine.along_of_forall hes)
    exact not_deadlocked h hjs

/-- Two checks of transactions with one key each, which is the same. -/
def twoChecks (j j' : Fin 2) : List (LockEvent 2) :=
  [.start j writer plain, .start j' reader plain]

theorem twoChecks_sorted (j j' : Fin 2) : ∀ e ∈ twoChecks j j', e.Sorted .sample := by
  simp [twoChecks, LockEvent.Sorted, SortedSets, mergedSets, writer, reader, smallTxn, Env.named]

theorem lockTxnKeys_no_deadlock_two :
    (lockTxnKeys writer (mergedSets .sample writer).readSet).Pairwise (· < ·) ∧
    ¬ ((lockMachine .sample 2).run { state := {} } (twoChecks 0 1)).Deadlocked Set.univ :=
  ⟨(lockTxnKeys_no_deadlock.1 _ _
      (twoChecks_sorted 0 1 (.start 0 writer plain) (by simp [twoChecks]))).1,
    lockTxnKeys_no_deadlock.2 .sample 2 {} _ (twoChecks_sorted 0 1) _ ⟨0, trivial⟩⟩

/-! ## Every check ends -/

/-- A bound on the accesses that a check leads to; a policy lookup also adds an insertion. -/
def Check.work : Check → Nat
  | .read _ => 2
  | .readPrepared _ => 1
  | .write _ => 7
  | .policy _ => 4
  | .policyPrepared .. => 3
  | .policyUpper .. => 2
  | .committedReads _ => 2
  | .preparedReads _ => 1
  | .dep _ => 1

def Proc.work (env : Env) (q : Proc) : Nat :=
  match q.phase with
  | .locking todo =>
    todo.length + ((q.checks env).map Check.work).sum + (q.insertions env).length + 3
  | .checking todo => (todo.map Check.work).sum + (q.insertions env).length + 2
  | .aborting => 1
  | .preparing todo => todo.length + 1

theorem check_work {q q' : Proc} {s : State} {x : Check} {todo : List Check}
    (h : q.check env s todo x = some q') :
    q'.work env < ((x :: todo).map Check.work).sum + (q.insertions env).length + 2 := by
  have hnext (todo : List Check) : (q.next todo).work env =
      (todo.map Check.work).sum + (q.insertions env).length + 2 := rfl
  have habort : ({ q with phase := .aborting } : Proc).work env = 1 := rfl
  rw [map_cons, sum_cons]
  cases x <;> simp only [Proc.check] at h <;> (try split at h) <;> (try split_ifs at h) <;>
    cases h <;> simp only [hnext, habort, map_cons, sum_cons, Check.work] <;> try omega
  simp [Proc.work, Proc.next, Proc.insertions, State.preparedKeys, Proc.readSet]
  omega

/-- An access takes work off, unless the thread waits. -/
theorem Moves.work {q : Proc} {q' : Option Proc} {s : State} (h : Moves env c q s q') :
    s = c.state ∧ q' = some q ∨ (q'.map (·.work env)).getD 0 < q.work env := by
  have hpos : 0 < q.work env := by
    unfold Proc.work
    split <;> omega
  cases h with
  | blocked => exact .inl ⟨rfl, rfl⟩
  | check hphase hx =>
    refine .inr ?_
    rw [Proc.work, hphase]
    exact check_work hx
  | abort | stop => exact .inr hpos
  | acquire hphase | begin hphase | enter hphase | insert hphase =>
    refine .inr ?_
    rw [Proc.work, hphase]
    simp [Proc.work, Proc.next, Proc.checks, Proc.insertions, Proc.readSet]

def LockState.work (env : Env) (c : LockState n) : Nat :=
  ∑ j, ((c.procs j).map (·.work env)).getD 0

end Sintr.Mvtso
