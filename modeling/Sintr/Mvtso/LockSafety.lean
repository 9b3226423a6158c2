import Sintr.Mvtso.LockInvariant
import Sintr.Mvtso.Policies

/-!
# What parallel checks exclude

`ThreadPolicyInv` is the invariant for policies. It cannot rest on the locks: what a thread has
found about policies stays true because nobody changes them meanwhile.
-/

namespace Sintr.Mvtso

open State List

variable {env : Env} {n : Nat} {txns : List Transaction}

/-! ## Policies that threads have read -/

def Rules (env : Env) (g t : Transaction) : Prop :=
  g.policyType = .policyIdPolicy ∧ t.policyType = .none ∧ ∃ w ∈ g.writeSet, ∃ w' ∈ t.writeSet,
    ownedWrite env g w ∧ ownedWrite env t w' ∧ policyOf env t w' = some w.key
deriving Decidable

/-- A check starts without policy reads, overlaps with no check that it governs or is governed by,
and no transaction that it governs is prepared. -/
def PolicyApart (env : Env) (c : LockState n) : LockEvent n → Prop
  | .start _ txn _ => txn.implicitPolicyReads = [] ∧
      (∀ j, ∀ q ∈ c.procs j, ¬ Rules env txn q.txn ∧ ¬ Rules env q.txn txn) ∧
      ∀ t ∈ c.started, ∀ p ∈ c.state.prepared (env.digest t), ¬ Rules env txn p.txn
  | _ => True

instance : ∀ (c : LockState n) (e : LockEvent n), Decidable (PolicyApart env c e)
  | c, .start _ txn _ => inferInstanceAs (Decidable (txn.implicitPolicyReads = [] ∧
      (∀ j, ∀ q ∈ c.procs j, _) ∧ ∀ t ∈ c.started, ∀ p ∈ c.state.prepared (env.digest t), _))
  | _, .run _ => inferInstanceAs (Decidable True)
  | _, .other .. => inferInstanceAs (Decidable True)

def Governed (env : Env) (txn : Transaction) (policyId : Bytes) : Prop :=
  ∃ w, Writes env txn w ∧ policyOf env txn w = some policyId

/-- No policy that is prepared before `ts` is later than `v`. -/
def Latest (env : Env) (s : State) (ts : Timestamp) (policyId : Bytes) (v : Timestamp) : Prop :=
  ∀ d p w, s.prepared d = some p → p.txn.policyType = .policyIdPolicy → Writes env p.txn w →
    w.key = policyId → p.txn.timestamp < ts → p.txn.timestamp ≤ v

def PolicyTodo (env : Env) (s : State) (txn : Transaction) : Check → Prop
  | .write w => Writes env txn w
  | .policy policyId | .policyPrepared policyId _ => Governed env txn policyId
  | .policyUpper policyId v =>
    Governed env txn policyId ∧ Latest env s txn.timestamp policyId (v.getD .zero)
  | _ => True

structure PolicyProc (env : Env) (s : State) (q : Proc) : Prop where
  reads : ∀ e ∈ q.policyReads, Governed env q.txn e.1 ∧ Latest env s q.txn.timestamp e.1 e.2
  todo : ∀ todo, q.phase = .checking todo → ∀ x ∈ todo, PolicyTodo env s q.txn x

structure ThreadPolicyInv (env : Env) (c : LockState n) : Prop where
  fresh : ∀ {j q}, c.procs j = some q → q.txn ∈ c.started ∧ q.txn.implicitPolicyReads = []
  started : ∀ {d p}, c.state.prepared d = some p → ∃ t ∈ c.started, env.digest t = d
  apart : ∀ {i j q q'}, c.procs i = some q → c.procs j = some q' → ¬ Rules env q.txn q'.txn
  unseen : ∀ {j q d p}, c.procs j = some q → c.state.prepared d = some p →
    ¬ Rules env q.txn p.txn
  proc : ∀ {j q}, c.procs j = some q → q.txn.policyType = .none → PolicyProc env c.state q
  record : ∀ {d p r}, c.state.prepared d = some p → p.txn.policyType = .none →
    r ∈ p.txn.implicitPolicyReads →
    Governed env p.txn r.key ∧ Latest env c.state p.txn.timestamp r.key r.readtime

theorem Governed.rules {g t : Transaction} {w : WriteMessage} (h : Governed env t w.key)
    (ht : t.policyType = .none) (hg : g.policyType = .policyIdPolicy) (hw : Writes env g w) :
    Rules env g t := by
  obtain ⟨w', hw', hpol⟩ := h
  exact ⟨hg, ht, w, hw.1, w', hw'.1, hw.2, hw'.2, hpol⟩

theorem not_rules_self (t : Transaction) : ¬ Rules env t t := fun h =>
  absurd (h.1.symm.trans h.2.1) (by decide)

variable {policyId : Bytes} {s : State} {q : Proc} {c : LockState n} {j : Fin n} {q' : Option Proc}
  {es : List (LockEvent 2)} {todo : List Check} {ts v : Timestamp}

theorem Latest.mono {s' : State} (h : Latest env s ts policyId v) (hs : Settles s s') :
    Latest env s' ts policyId v :=
  fun d p w hp => h d p w (hs.prepared d p hp)

theorem PolicyProc.mono {s' : State} (h : PolicyProc env s q)
    (hs : ∀ {policyId ts v}, Governed env q.txn policyId → Latest env s ts policyId v →
      Latest env s' ts policyId v) : PolicyProc env s' q := by
  refine ⟨fun e he => ⟨(h.reads e he).1, hs (h.reads e he).1 (h.reads e he).2⟩,
    fun todo hphase x hx => ?_⟩
  have hx' := h.todo todo hphase x hx
  cases x with
  | policyUpper policyId v => exact ⟨hx'.1, hs hx'.1 hx'.2⟩
  | _ => exact hx'

/-- A policy lookup under no lock: nobody is preparing the policy, since that would be a check that
governs this one. -/
theorem ThreadPolicyInv.latest (hlock : LockInv env txns c) (h : ThreadPolicyInv env c)
    (hq : c.procs j = some q) (hreg : q.txn.policyType = .none) (hgov : Governed env q.txn policyId)
    {committed : Option Timestamp}
    (hnone : c.state.findPreparedVersion policyId q.txn.timestamp committed = none) :
    Latest env c.state q.txn.timestamp policyId (committed.getD .zero) := by
  intro d p w hp htype hw hkey hts
  subst hkey
  have hsettled : ¬ c.Preparing env d := by
    rintro ⟨i, q', hq', rfl, todo, hphase⟩
    have hentry := ((hlock.proc hq').entered todo hphase).prepared
    obtain rfl : p = q'.entry env := Option.some.inj (hp.symm.trans hentry)
    exact h.apart hq' hq (hgov.rules hreg htype hw)
  have hentry := (hlock.index.written hp hw).resolve_right hsettled
  rw [hlock.index.timestamp hp] at hentry
  exact findPreparedVersion_none hnone _ hentry hts.le htype

/-! ## Steps -/

theorem ThreadPolicyInv.check (hlock : LockInv env txns c) (h : ThreadPolicyInv env c) {q' : Proc}
    (hq : c.procs j = some q) (hreg : q.txn.policyType = .none) {x : Check}
    (hphase : q.phase = .checking (x :: todo)) (hx : q.check env c.state todo x = some q') :
    PolicyProc env c.state q' := by
  have hinv := h.proc hq hreg
  have hhead := hinv.todo _ hphase x mem_cons_self
  have htail : ∀ y ∈ todo, PolicyTodo env c.state q.txn y := fun y hy =>
    hinv.todo _ hphase y (mem_cons_of_mem _ hy)
  -- what is pushed in front of the rest is all that has to be looked at
  have hpush : ∀ l : List Check, (∀ y ∈ l, PolicyTodo env c.state q.txn y) →
      PolicyProc env c.state (q.next (l ++ todo)) := fun l hl => by
    refine ⟨hinv.reads, ?_⟩
    rintro _ ⟨⟩ y hy
    exact (mem_append.1 hy).elim (hl y) (htail y)
  cases checks_of_check hx with
  | aborts =>
    refine ⟨hinv.reads, ?_⟩
    intro todo' hphase'
    cases hphase'
  | read r => exact hpush [.readPrepared r] (by simp [PolicyTodo])
  | write w => exact hpush [.committedReads w] (by simp [PolicyTodo])
  | committedReads w => exact hpush [.preparedReads w] (by simp [PolicyTodo])
  | @governed w policyId hpol =>
    have hgov : Governed env q.txn policyId := ⟨w, hhead, hpol⟩
    apply hpush [.policy policyId, .committedReads w]
    simpa [PolicyTodo] using hgov
  | policy policyId committed =>
    apply hpush [.policyPrepared policyId committed]
    simpa [PolicyTodo] using hhead
  | @policyPrepared policyId committed hnone =>
    have hlatest := h.latest hlock hq hreg hhead hnone
    apply hpush [.policyUpper policyId committed]
    simpa [PolicyTodo] using And.intro hhead hlatest
  | policyUpper policyId committed =>
    refine ⟨fun e he => ?_, ?_⟩
    · rcases mem_append.1 he with he | he
      · exact hinv.reads e he
      · rw [mem_singleton.1 he]
        exact hhead
    · intro todo' hphase'
      cases hphase'
      exact htail
  | belowDeletion | readPrepared | preparedReads | dep => exact hpush [] (by simp)

theorem check_txn {q' : Proc} {x : Check} (h : q.check env s todo x = some q') :
    q'.txn = q.txn := by
  rcases check_todo h with rfl | ⟨todo', policyReads, rfl, -⟩
  · rfl
  · rfl

/-- A thread moves, and at most enters its transaction; what is known about other policies stays
true. -/
theorem ThreadPolicyInv.moved (h : ThreadPolicyInv env c) (hq : c.procs j = some q)
    (hnew : ∀ x ∈ q', x.txn = q.txn ∧
      (q.txn.policyType = .none → PolicyProc env s x))
    (hprep : ∀ {d p}, s.prepared d = some p →
      d = q.digest env ∧ q.entry env = p ∨ c.state.prepared d = some p)
    (hlatest : ∀ {t policyId ts v}, Latest env c.state ts policyId v → Governed env t policyId →
      t.policyType = .none → ¬ Rules env q.txn t → Latest env s ts policyId v) :
    ThreadPolicyInv env (c.moved j s q') := by
  -- every thread has a transaction that it had before
  have hold : ∀ {i x}, (c.moved j s q').procs i = some x →
      ∃ y, c.procs i = some y ∧ y.txn = x.txn := by
    intro i x hx
    rcases LockState.procs_moved.1 hx with ⟨rfl, hself⟩ | ⟨-, hother⟩
    · exact ⟨q, hq, (hnew x hself).1.symm⟩
    · exact ⟨x, hother, rfl⟩
  refine ⟨fun hx => ?_, fun hp => ?_, fun hx hx' => ?_, fun hx hp => ?_, fun hx hreg => ?_,
    fun {d p r} hp hreg hr => ?_⟩
  · obtain ⟨y, hy, heq⟩ := hold hx
    exact heq ▸ h.fresh hy
  · rcases hprep hp with ⟨rfl, -⟩ | hp
    · exact ⟨q.txn, (h.fresh hq).1, rfl⟩
    · exact h.started hp
  · obtain ⟨y, hy, heq⟩ := hold hx
    obtain ⟨y', hy', heq'⟩ := hold hx'
    exact heq ▸ heq' ▸ h.apart hy hy'
  · obtain ⟨y, hy, heq⟩ := hold hx
    rcases hprep hp with ⟨-, rfl⟩ | hp
    · exact heq ▸ h.apart hy hq
    · exact heq ▸ h.unseen hy hp
  · rcases LockState.procs_moved.1 hx with ⟨rfl, hx'⟩ | ⟨-, hother⟩
    · exact (hnew _ hx').2 ((hnew _ hx').1 ▸ hreg)
    · exact (h.proc hother hreg).mono fun hgov hl => hlatest hl hgov hreg (h.apart hq hother)
  · rcases hprep hp with ⟨-, rfl⟩ | hp
    · -- the record of the new transaction is what its check has read
      have hread : r ∈ q.txn.implicitPolicyReads ++
          q.policyReads.map fun p => { key := p.1, readtime := p.2 } := hr
      rw [(h.fresh hq).2, nil_append] at hread
      obtain ⟨e, he, rfl⟩ := mem_map.1 hread
      obtain ⟨hgov, hl⟩ := (h.proc hq hreg).reads e he
      exact ⟨hgov, hlatest hl hgov hreg (not_rules_self q.txn)⟩
    · obtain ⟨hgov, hl⟩ := h.record hp hreg hr
      exact ⟨hgov, hlatest hl hgov hreg (h.unseen hq hp)⟩

theorem ThreadPolicyInv.settled (h : ThreadPolicyInv env c) (hq : c.procs j = some q)
    (hs : Settles c.state s)
    (hnew : ∀ x ∈ q', x.txn = q.txn ∧ (q.txn.policyType = .none → PolicyProc env s x)) :
    ThreadPolicyInv env (c.moved j s q') :=
  h.moved hq hnew (fun hp => .inr (hs.prepared _ _ hp)) fun hl _ _ _ => hl.mono hs

theorem Latest.enter {t : Transaction} (h : Latest env s ts policyId v)
    (hgov : Governed env t policyId) (ht : t.policyType = .none) (hno : ¬ Rules env q.txn t) :
    Latest env (q.entered env s) ts policyId v := by
  intro d p w hp htype hw hkey
  rcases Proc.prepared_entered.1 hp with ⟨-, rfl⟩ | ⟨-, hp⟩
  · subst hkey
    exact absurd (hgov.rules ht htype ((Proc.entry_annotates q).writes.1 hw)) hno
  · exact h d p w hp htype hw hkey

theorem abort_settles (s : State) (d : Digest) : Settles s (s.abort env d) := by
  have hset : Settles s { s with aborted := Function.update s.aborted d true } :=
    ⟨fun _ _ h => h, fun _ _ h => h⟩
  exact hset.trans (clean_settles _ d)

theorem ThreadPolicyInv.run (hlock : LockInv env txns c) (h : ThreadPolicyInv env c)
    (hq : c.procs j = some q) (hm : Moves env c q s q') :
    ThreadPolicyInv env (c.moved j s q') := by
  cases hm with
  | blocked =>
    refine h.settled hq (.refl _) ?_
    rintro x ⟨⟩
    exact ⟨rfl, h.proc hq⟩
  | acquire hphase hfree =>
    refine h.settled hq (.refl _) ?_
    rintro x ⟨⟩
    exact ⟨rfl, fun hreg => ⟨(h.proc hq hreg).reads, fun _ hp => nomatch hp⟩⟩
  | begin hphase =>
    refine h.settled hq (.refl _) ?_
    rintro x ⟨⟩
    refine ⟨rfl, fun hreg => ⟨(h.proc hq hreg).reads, ?_⟩⟩
    rintro _ ⟨⟩ y hy
    simp only [Proc.checks, mem_append, mem_map, mem_filter] at hy
    rcases hy with (⟨r, -, rfl⟩ | ⟨w, hw, rfl⟩) | hy
    · trivial
    · exact hw
    · split_ifs at hy
      · obtain ⟨d, -, rfl⟩ := mem_map.1 hy
        trivial
      · cases hy
  | check hphase hx =>
    refine h.settled hq (.refl _) ?_
    rintro x ⟨⟩
    exact ⟨check_txn hx, fun hreg => h.check hlock hq hreg hphase hx⟩
  | enter hphase hnew =>
    refine h.moved hq ?_ (fun hp => (Proc.prepared_entered.1 hp).imp_right And.right) Latest.enter
    rintro x ⟨⟩
    refine ⟨rfl, fun hreg => ⟨fun e he => ?_, fun _ hp => nomatch hp⟩⟩
    obtain ⟨hgov, hl⟩ := (h.proc hq hreg).reads e he
    exact ⟨hgov, hl.enter hgov hreg (not_rules_self q.txn)⟩
  | insert hphase =>
    refine h.settled hq (Proc.insert_settles _ _ _) ?_
    rintro x ⟨⟩
    exact ⟨rfl, fun hreg => ⟨((h.proc hq hreg).mono fun _ hl =>
      hl.mono (Proc.insert_settles _ _ _)).reads, fun _ hp => nomatch hp⟩⟩
  | abort hphase hfree => exact h.settled hq (abort_settles _ _) fun _ hx => nomatch hx
  | stop hphase => exact h.settled hq (.refl _) fun _ hx => nomatch hx

theorem ThreadPolicyInv.start (h : ThreadPolicyInv env c) {txn : Transaction} {i : Input}
    {ph : Phase} (hph : ∀ todo, ph ≠ .checking todo) (hapart : PolicyApart env c (.start j txn i)) :
    ThreadPolicyInv env
      { c with
        procs := Function.update c.procs j (some { txn := txn, input := i, phase := ph })
        started := txn :: c.started } := by
  obtain ⟨hempty, hprocs, hprepared⟩ := hapart
  refine ⟨fun hx => ?_, fun hp => ?_, fun hx hx' => ?_, fun hx hp => ?_, fun hx hreg => ?_,
    h.record⟩
  · rcases update_eq_some.1 hx with ⟨-, hnew⟩ | ⟨-, hold⟩
    · cases hnew
      exact ⟨mem_cons_self, hempty⟩
    · exact ⟨mem_cons_of_mem _ (h.fresh hold).1, (h.fresh hold).2⟩
  · obtain ⟨t, ht, hdig⟩ := h.started hp
    exact ⟨t, mem_cons_of_mem _ ht, hdig⟩
  · rcases update_eq_some.1 hx with ⟨-, hnew⟩ | ⟨-, hold⟩
    · cases hnew
      rcases update_eq_some.1 hx' with ⟨-, hnew'⟩ | ⟨-, hold'⟩
      · cases hnew'
        exact not_rules_self txn
      · exact (hprocs _ _ hold').1
    · rcases update_eq_some.1 hx' with ⟨-, hnew'⟩ | ⟨-, hold'⟩
      · cases hnew'
        exact (hprocs _ _ hold).2
      · exact h.apart hold hold'
  · rcases update_eq_some.1 hx with ⟨-, hnew⟩ | ⟨-, hold⟩
    · cases hnew
      obtain ⟨t, ht, rfl⟩ := h.started hp
      exact hprepared t ht _ hp
    · exact h.unseen hold hp
  · rcases update_eq_some.1 hx with ⟨-, hnew⟩ | ⟨-, hold⟩
    · cases hnew
      exact ⟨(fun e he => nomatch he), fun todo hp => absurd hp (hph todo)⟩
    · exact h.proc hold hreg

theorem lockStep_policyInv {e : LockEvent n} (hlock : LockInv env txns c)
    (hapart : PolicyApart env c e) (h : ThreadPolicyInv env c) :
    ThreadPolicyInv env (lockStep env c e) := by
  refine lockStep_keeps h (fun j txn i he _ => ?_) (fun _ _ _ _ hq hmoves => h.run hlock hq hmoves)
    fun e' he' _ => ?_
  · subst he
    exact h.start (fun _ hp => nomatch hp) hapart
  · have hs := @step_settles env c.state e' he'
    refine ⟨h.fresh, fun hp => h.started (hs.prepared _ _ hp), h.apart,
      fun hx hp => h.unseen hx (hs.prepared _ _ hp),
      fun hx hreg => (h.proc hx hreg).mono fun _ hl => hl.mono hs, fun hp hreg hr => ?_⟩
    obtain ⟨hgov, hlatest⟩ := h.record (hs.prepared _ _ hp) hreg hr
    exact ⟨hgov, hlatest.mono hs⟩

/-! ## Runs -/

def startedTxns (es : List (LockEvent n)) : List Transaction :=
  es.filterMap fun
    | .start _ txn _ => some txn
    | _ => none

theorem Loaded.threadPolicyInv {s₀ : State} (h : Loaded s₀) :
    ThreadPolicyInv (n := n) env { state := s₀ } := by
  refine ⟨(fun hx => nomatch hx), fun hp => ?_, (fun hx => nomatch hx), (fun hx => nomatch hx),
    (fun hx => nomatch hx), fun hp => ?_⟩
  all_goals
    rw [h.prepared] at hp
    cases hp

/-- **Transactions that are prepared by parallel checks do not conflict.** Nor is a recorded policy
outdated, if governance transactions are not checked together with or after those they govern. -/
theorem prepared_locked {s₀ : State} (h₀ : Loaded s₀) {es : List (LockEvent n)}
    (hes : TellApart env (startedTxns es)) {d d' : Digest} {p p' : Prepared} (hd : d ≠ d')
    (hp : ((lockMachine env n).run { state := s₀ } es).state.prepared d = some p)
    (hp' : ((lockMachine env n).run { state := s₀ } es).state.prepared d' = some p') :
    ¬ Overlooked env ((lockMachine env n).run { state := s₀ } es).state p p'.txn ∧
    ((lockMachine env n).Along (PolicyApart env) { state := s₀ } es →
      ∀ r w, ¬ Outdated env p.txn r p'.txn w) := by
  have hmem : ∀ e ∈ es, ∀ j txn i, e = LockEvent.start j txn i → txn ∈ startedTxns es := by
    rintro e he j txn i rfl
    exact List.mem_filterMap.2 ⟨_, he, rfl⟩
  constructor
  · have hinv := Machine.run_along (M := lockMachine env n) (I := LockInv env (startedTxns es))
      (P := fun _ e => ∀ j txn i, e = LockEvent.start j txn i → txn ∈ startedTxns es)
      (fun c e he h => lockStep_inv hes he h) h₀.lockInv (Machine.along_of_forall hmem)
    exact hinv.pairwise hp hp' hd
  · intro hapart r w ho
    have hinv := Machine.run_along
      (I := fun c => LockInv env (startedTxns es) c ∧ ThreadPolicyInv env c)
      (fun c e he h => ⟨lockStep_inv hes he.2 h.1, lockStep_policyInv h.1 he.1 h.2⟩)
      ⟨h₀.lockInv, h₀.threadPolicyInv⟩ (hapart.and_forall hmem)
    obtain ⟨-, hlatest⟩ := hinv.2.record hp ho.regular ho.read
    have hlate := hlatest d' p' w hp' ho.governance ho.write ho.key ho.before
    exact absurd ho.older (not_lt.2 hlate)

/-! ## Runs that end in a conflict -/

def EndsInLockedConflict (env : Env) (es : List (LockEvent 2)) : Prop :=
  ∃ d d' p p', d ≠ d' ∧ ((lockMachine env 2).run { state := {} } es).state.prepared d = some p ∧
    ((lockMachine env 2).run { state := {} } es).state.prepared d' = some p' ∧
    (Conflicting p p' ∨ ∃ r w, Outdated env p.txn r p'.txn w)

theorem EndsInLockedConflict.of_rows {env : Env} (t t' : Transaction)
    (h : env.digest t ≠ env.digest t' ∧
      ((lockMachine env 2).run { state := {} } es).state.prepared (env.digest t) =
        some (smallEntry t) ∧
      ((lockMachine env 2).run { state := {} } es).state.prepared (env.digest t') =
        some (smallEntry t') ∧
      Conflicting (smallEntry t) (smallEntry t')) : EndsInLockedConflict env es :=
  ⟨_, _, _, _, h.1, h.2.1, h.2.2.1, .inl h.2.2.2⟩

theorem EndsInLockedConflict.of_policies {env : Env} (t t' : Transaction)
    (r : ReadMessage) (w : WriteMessage)
    (h : env.digest t ≠ env.digest t' ∧
      ((lockMachine env 2).run { state := {} } es).state.prepared (env.digest t) =
        some (smallEntry t) ∧
      ((lockMachine env 2).run { state := {} } es).state.prepared (env.digest t') =
        some (smallEntry t'))
    (ho : Outdated env t r t' w) : EndsInLockedConflict env es :=
  ⟨_, _, _, _, h.1, h.2.1, h.2.2, .inr ⟨r, w, ho⟩⟩

def accesses (j : Fin 2) (k : Nat) : List (LockEvent 2) := List.replicate k (.run j)

def wholeCheck (j : Fin 2) (txn : Transaction) : List (LockEvent 2) :=
  .start j txn plain :: accesses j 15

def lockEnv : Env := { Env.sample with params := { parallelCCC := true, policyCCC := true } }

def foreignLockEnv : Env := { lockEnv with keyOwned := fun _ => false }

def unruled (txn : Transaction) : Transaction := addPolicyReads txn [([], .zero)]

/-- **Parallel checks may end in a conflict.** The policy is changed while a transaction it governs
is between its policy check and `Prepare`, since policies are not locked; and even one check after
the other does not find the policy reads of prepared transactions. For rows it is as for checks one
at a time. -/
theorem prepared_locked_conflict :
    EndsInLockedConflict lockEnv (.start 0 governed plain :: accesses 0 6 ++
      wholeCheck 1 (governor [putPolicy [1]]) ++ accesses 0 9) ∧
    EndsInLockedConflict lockEnv (wholeCheck 0 governed ++
      wholeCheck 1 (governor [putPolicy [1]])) ∧
    EndsInLockedConflict foreignLockEnv (wholeCheck 0 blindReader ++ wholeCheck 1 writer) ∧
    EndsInLockedConflict lockEnv (wholeCheck 0 blindReader ++ wholeCheck 1 (eraser 20000)) ∧
    EndsInLockedConflict lockEnv (wholeCheck 0 queryReader ++ wholeCheck 1 writer) ∧
    EndsInLockedConflict lockEnv (wholeCheck 0 doubleReader ++ wholeCheck 1 writer) ∧
    EndsInLockedConflict lockEnv (.other (.commit (eraser 15000) (.p1 []) 0) rfl ::
      wholeCheck 0 writer ++ wholeCheck 1 blindReader) ∧
    EndsInLockedConflict lockEnv (wholeCheck 0 (twin 1) ++ wholeCheck 1 (twin 2) ++
      .other (.abort (lockEnv.digest (twin 1))) rfl :: wholeCheck 0 blindReader) := by
  refine ⟨.of_policies (unruled governed) (unruled (governor [putPolicy [1]]))
      { key := [], readtime := .zero } (putPolicy [1]) ?_ ?_,
    .of_policies (unruled governed) (unruled (governor [putPolicy [1]]))
      { key := [], readtime := .zero } (putPolicy [1]) ?_ ?_,
    .of_rows blindReader writer ?_, .of_rows blindReader (unruled (eraser 20000)) ?_,
    .of_rows queryReader (unruled writer) ?_, .of_rows doubleReader (unruled writer) ?_,
    .of_rows blindReader (unruled writer) ?_, .of_rows blindReader (unruled (twin 2)) ?_⟩
  case refine_2 | refine_4 => constructor <;> decide +kernel
  all_goals decide +kernel

/-- After a governance transaction with a late timestamp, two threads check a writer and the reader
of its row; the second has to wait for the lock. -/
def lockedRun : List (LockEvent 2) :=
  wholeCheck 0 { governor [putPolicy [1]] with timestamp := ⟨40000, 2⟩ } ++
    [.start 0 writer plain, .start 1 reader plain] ++ accesses 0 1 ++ accesses 1 2 ++
    accesses 0 14 ++ accesses 1 10

theorem prepared_locked_reader :
    ((lockMachine lockEnv 2).run { state := {} } lockedRun).state.prepared
      (lockEnv.digest reader) = some (smallEntry reader) ∧
    ¬ Overlooked lockEnv ((lockMachine lockEnv 2).run { state := {} } lockedRun).state
      (smallEntry reader) (unruled writer) ∧
    ∀ r w, ¬ Outdated lockEnv reader r (unruled writer) w := by
  have hreader : ((lockMachine lockEnv 2).run { state := {} } lockedRun).state.prepared
      (lockEnv.digest reader) = some (smallEntry reader) := by decide +kernel
  have hwriter : ((lockMachine lockEnv 2).run { state := {} } lockedRun).state.prepared
      (lockEnv.digest writer) = some (smallEntry (unruled writer)) := by decide +kernel
  obtain ⟨hrows, hpolicies⟩ := prepared_locked loaded_empty (by decide +kernel)
    (by decide +kernel) hreader hwriter
  exact ⟨hreader, hrows, hpolicies (by decide +kernel)⟩

end Sintr.Mvtso
