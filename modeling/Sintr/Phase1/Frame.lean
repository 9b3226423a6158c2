import Sintr.Phase1.Rules

/-!
# What the concurrency check leaves alone

`Frame s s'`: from `s` to `s'` no asynchronous check is touched and nothing is taken back from the
log. The functions that decide, store and announce votes are framed this way, up to `DoOCCCheck`
and `ExecP1`.
-/

namespace Sintr.Phase1

open State

/-- No asynchronous check is touched, and the log only grows. -/
structure Frame (s s' : State) : Prop where
  asyncChecks : s'.asyncChecks = s.asyncChecks
  log : s.log ⊆ s'.log

namespace Frame

variable {s s' s'' : State} {d : Digest} {txn : Transaction} {env : Env}

theorem refl (s : State) : Frame s s := ⟨rfl, List.Subset.refl _⟩

theorem trans (h : Frame s s') (h' : Frame s' s'') : Frame s s'' :=
  ⟨h'.asyncChecks.trans h.asyncChecks, List.Subset.trans h.log h'.log⟩

theorem ite {p : Prop} [Decidable p] (h : Frame s s') (h' : Frame s s'') :
    Frame s (if p then s' else s'') := by
  split
  · exact h
  · exact h'

theorem of_eq (ha : s'.asyncChecks = s.asyncChecks) (hl : s'.log = s.log) : Frame s s' :=
  ⟨ha, hl ▸ List.Subset.refl _⟩

theorem after (h : Frame s' s'') (ha : s'.asyncChecks = s.asyncChecks) (hl : s'.log = s.log) :
    Frame s s'' :=
  (of_eq ha hl).trans h

theorem record (s : State) (e : LogEntry) : Frame s (s.record e) :=
  ⟨rfl, List.subset_append_left _ _⟩

theorem rules : EndRules (fun _ => True) Frame fun _ _ _ _ => True where
  inv := fun _ => trivial
  refl := fun _ => refl _
  trans := trans
  ok_mono := fun _ _ => trivial
  ok_commit := fun _ _ => trivial
  stored := fun _ _ _ _ => trivial
  waiting := fun _ _ => trivial
  other := fun _ _ _ _ _ _ => of_eq rfl rfl
  announce := fun _ _ _ => record _ _
  store := fun _ _ => of_eq rfl rfl
  wait := fun _ _ _ => of_eq rfl rfl
  stopWaiting := fun _ => of_eq rfl rfl
  clean := fun _ _ => of_eq rfl rfl

theorem prepare (s : State) : Frame s (s.prepare d txn) := by
  unfold State.prepare
  split
  · exact (record _ _).after rfl rfl
  · exact refl s

theorem mvtsoPassed (s : State) (fb : Bool) : Frame s (s.mvtsoPassed env d txn fb).state := by
  have hprep : ∀ (p : Prop) [Decidable p], Frame s (if p then s.prepare d txn else s) :=
    fun p _ => ite (prepare s) (refl s)
  cases hdel : delaysPrepare env fb with
  | true => simpa only [State.mvtsoPassed, hdel, if_true] using hprep _
  | false =>
    simp only [State.mvtsoPassed, hdel, Bool.false_eq_true, if_false]
    exact (hprep _).trans (rules.dependencyCheck trivial trivial)

theorem doMVTSOOCCCheck (s : State) (i : CCInput) (fb : Bool) :
    Frame s (s.doMVTSOOCCCheck env i d txn fb).state := by
  unfold State.doMVTSOOCCCheck
  split
  · exact mvtsoPassed s fb
  · split
    · exact mvtsoPassed s fb
    · exact refl s
    · exact rules.mvtsoAborted trivial _

theorem setMerged (s : State) (m : Option ReadSet) : Frame s (s.setMerged d txn m) :=
  ite (of_eq rfl rfl) (refl s)

theorem doOCCCheck (s : State) (i : CCInput) (reqId : UInt64) (fb g : Bool) :
    Frame s (s.doOCCCheck env i reqId d txn fb g).state := by
  unfold State.doOCCCheck
  split
  · exact of_eq rfl rfl
  · have hrec := record s (.occCheck txn d)
    dsimp only
    split
    · exact hrec.trans (ite (refl _) (of_eq rfl rfl))
    · exact hrec
    · exact hrec
    · exact (hrec.trans (setMerged _ _)).trans (doMVTSOOCCCheck _ i fb)

end Frame

theorem execP1_logged (env : Env) (s : State) (i : CCInput) (reqId : UInt64) (d : Digest)
    (txn : Transaction) : .execP1 txn d ∈ (s.execP1 env i reqId d txn).log := by
  have hmem : .execP1 txn d ∈ (s.record (.execP1 txn d)).log :=
    List.mem_append_right _ (List.mem_singleton_self _)
  have hocc : Frame (s.record (.execP1 txn d))
      ((s.record (.execP1 txn d)).doOCCCheck env i reqId d txn true false).state :=
    .doOCCCheck _ i reqId true false
  have hall := Frame.rules.execP1 _ rfl hocc trivial fun _ => Frame.rules.clean trivial true
  exact hall.log hmem

end Sintr.Phase1
