import Mathlib.Data.Finset.Insert
import Sintr.Cert.Signatures
import Sintr.Lib.Machine

/-!
# The views a client collects

A client that has a fallback leader elected collects the current views of replicas. It keeps the
largest one of each replica, and for each view the set of replicas that are in it.
-/

namespace Sintr.Shard

inductive AttachedView where
  | signed (v : SignedView)
  | plain (view : UInt64) (digest : Digest) (replicaId : ProcessId)
  deriving DecidableEq

/-- The two tables of a pending fallback (`current_views`, `view_levels`). A level without replicas
is not in the map. -/
structure ViewTables where
  currentViews : ProcessId → Option (UInt64 × Option SignedView) := fun _ => none
  viewLevels : UInt64 → Finset ProcessId := fun _ => ∅

/-- A call; `storedView` and `setView` are what the two variables of that name hold before they are
assigned. -/
structure ViewCall where
  attached : AttachedView
  storedView : UInt64 := 0
  setView : UInt64 := 0

namespace ViewTables

def view (s : ViewTables) (r : ProcessId) : Option UInt64 := (s.currentViews r).map (·.1)

def move (s : ViewTables) (id : ProcessId) (old new : UInt64) : UInt64 → Finset ProcessId :=
  let erased := Function.update s.viewLevels old ((s.viewLevels old).erase id)
  Function.update erased new (insert id (erased new))

section
variable (env : Env) (group : GroupId)

/-- `UpdateViewStructure`. In signed mode the view is looked up by the signer and stored for the
named replica; otherwise the level is that of the outer `set_view`. -/
def updateViewStructure (s : ViewTables) (c : ViewCall) : ViewTables :=
  if env.params.validateProofs && env.params.signedMessages then
    match c.attached with
    | .plain .. => s
    | .signed v =>
      let id := v.signature.processId
      if (s.view id).any (v.view ≤ ·) then s
      else if !env.config.isReplicaInGroup id group then s
      else if !env.verify id (.currentView v.view v.digest v.replicaId) v.signature.signature then s
      else
        { currentViews := Function.update s.currentViews v.replicaId (some (v.view, some v))
          viewLevels := s.move id ((s.view id).getD c.storedView) v.view }
  else
    match c.attached with
    | .signed _ => s
    | .plain view _ id =>
      if (s.view id).any (view ≤ ·) then s
      else if !env.config.isReplicaInGroup id group then s
      else
        { currentViews :=
            Function.update s.currentViews id (some (view, (s.currentViews id).bind (·.2)))
          viewLevels := s.move id ((s.view id).getD c.storedView) c.setView }

def viewMachine : Machine ViewTables ViewCall := ⟨updateViewStructure env group⟩

/-- The call brings a report of a replica of the group, signed where it has to be: its sender, the
transaction it is about and the view. -/
def report (c : ViewCall) : Option (ProcessId × Digest × UInt64) :=
  match c.attached, env.params.validateProofs && env.params.signedMessages with
  | .signed v, true =>
    let id := v.signature.processId
    if env.config.isReplicaInGroup id group &&
        env.verify id (.currentView v.view v.digest v.replicaId) v.signature.signature then
      some (id, v.digest, v.view)
    else none
  | .plain view digest id, false =>
    if env.config.isReplicaInGroup id group then some (id, digest, view) else none
  | _, _ => none

def Reported (d : Digest) (cs : List ViewCall) (r : ProcessId) (v : UInt64) : Prop :=
  ∃ c ∈ cs, report env group c = some (r, d, v)

/-- A valid report names its signer, and is about `d`. -/
def Honest (d : Digest) (c : ViewCall) : Prop :=
  ∀ v, c.attached = .signed v → (report env group c).isSome = true →
    v.replicaId = v.signature.processId ∧ v.digest = d

end

/-- The tables after the calls `cs`: the largest view of each replica, and the level it is in. -/
structure Follows (env : Env) (group : GroupId) (d : Digest) (cs : List ViewCall)
    (s : ViewTables) : Prop where
  none : ∀ r, s.view r = none → ∀ v, ¬ Reported env group d cs r v
  largest : ∀ r v, s.view r = some v →
    Reported env group d cs r v ∧ ∀ w, Reported env group d cs r w → w ≤ v
  levels : ∀ r v, r ∈ s.viewLevels v ↔ s.view r = some v

variable {env : Env} {group : GroupId} {d : Digest} {cs : List ViewCall} {s : ViewTables}
  {c : ViewCall}

theorem mem_move {id r : ProcessId} {old new v : UInt64} :
    r ∈ s.move id old new v ↔
      r = id ∧ v = new ∨ r ∈ s.viewLevels v ∧ ¬ (r = id ∧ v = old) := by
  simp only [move, Function.update_apply]
  split_ifs <;> grind

theorem reported_append (r : ProcessId) (v : UInt64) : Reported env group d (cs ++ [c]) r v ↔
    Reported env group d cs r v ∨ report env group c = some (r, d, v) := by
  simp [Reported, or_and_right, exists_or]

theorem update_cases (hsigned : (env.params.validateProofs && env.params.signedMessages) = true)
    (hc : Honest env group d c) (s : ViewTables) :
    let s' := updateViewStructure env group s c
    report env group c = none ∧ s' = s ∨ ∃ id v, report env group c = some (id, d, v) ∧
      ((∃ w, s.view id = some w ∧ v ≤ w) ∧ s' = s ∨ (∀ w, s.view id = some w → w < v) ∧
        (∀ r, s'.view r = if r = id then some v else s.view r) ∧
        s'.viewLevels = s.move id ((s.view id).getD c.storedView) v) := by
  cases hatt : c.attached with
  | plain view digest id => exact .inl (by simp [report, updateViewStructure, hatt, hsigned])
  | signed v =>
    by_cases hvalid : (env.config.isReplicaInGroup v.signature.processId group &&
        env.verify v.signature.processId (.currentView v.view v.digest v.replicaId)
          v.signature.signature) = true
    · have hreport : report env group c = some (v.signature.processId, v.digest, v.view) := by
        simp only [report, hatt, hsigned]
        exact if_pos hvalid
      obtain ⟨hid, rfl⟩ := hc v hatt (by rw [hreport]; rfl)
      refine .inr ⟨_, _, hreport, ?_⟩
      unfold updateViewStructure
      rw [Bool.and_eq_true] at hvalid
      simp only [hsigned, hatt, if_true, hvalid, Bool.not_true, Bool.false_eq_true, if_false]
      split_ifs with hstored
      · refine .inl ⟨?_, rfl⟩
        simpa [Option.any_eq_true_iff_get, Option.eq_some_iff_get_eq] using hstored
      · refine .inr ⟨fun w hw => ?_, fun r => ?_, rfl⟩
        · simpa [hw] using hstored
        · simp only [view, Function.update_apply, hid]
          split_ifs <;> rfl
    · refine .inl ⟨by simp only [report, hatt, hsigned]; exact if_neg hvalid, ?_⟩
      unfold updateViewStructure
      simp only [hsigned, hatt, if_true]
      grind

theorem Follows.step (h : Follows env group d cs s)
    (hsigned : (env.params.validateProofs && env.params.signedMessages) = true)
    (hc : Honest env group d c) :
    Follows env group d (cs ++ [c]) (updateViewStructure env group s c) := by
  obtain ⟨hnone, hlargest, hlevels⟩ := h
  obtain ⟨hrep, heq⟩ | ⟨id, v, hrep, ⟨⟨w, hw, hle⟩, heq⟩ | ⟨hlt, hview, hmove⟩⟩ :=
    update_cases hsigned hc s
  · constructor <;> simpa [reported_append, hrep, heq]
  · constructor <;> simp only [reported_append, hrep, heq]
    · grind
    · grind
    · exact hlevels
  · constructor <;> simp only [reported_append, hrep, hview, hmove, mem_move]
    · grind
    · intro r u hu
      split_ifs at hu with hr
      · obtain rfl := Option.some.inj hu
        refine ⟨.inr (by rw [hr]), fun u hu => ?_⟩
        cases hold : s.view r with
        | none => grind
        | some w =>
          have hwv : w < v := hlt w (hr ▸ hold)
          have huw : u ≤ w ∨ u = v := by grind
          grind [UInt64.le_iff_toNat_le, UInt64.lt_iff_toNat_lt]
      · grind
    · grind

/-- In every run of valid and invalid reports, in signed mode, the tables hold the largest view that
each replica has reported, if valid reports name their signer and transaction. -/
theorem views_run (env : Env) (group : GroupId) (d : Digest)
    (hsigned : (env.params.validateProofs && env.params.signedMessages) = true)
    (cs : List ViewCall) (hcs : ∀ c ∈ cs, Honest env group d c) :
    Follows env group d cs ((viewMachine env group).run {} cs) :=
  Machine.run_history (P := fun _ c => Honest env group d c)
    ⟨by simp [Reported], by simp [view], by simp [view]⟩
    (fun _ _ h hc => h.step hsigned hc) (Machine.along_of_forall hcs)

def signedView (view : UInt64) (digest : Digest) (replicaId : ProcessId) : ViewCall :=
  ⟨.signed ⟨view, digest, replicaId, ⟨1, [1]⟩⟩, 0, 0⟩

/-- A report of view 3 without signatures, while `set_view` holds 5; in the name of replica 2; and
for another transaction. -/
theorem views_confused :
    let unsigned : Env := { Env.sample with params := { signedMessages := false } }
    let run (env : Env) (c : ViewCall) := (viewMachine env 0).run {} [c]
    ¬ Follows unsigned 0 [7] [⟨.plain 3 [7] 1, 0, 5⟩] (run unsigned ⟨.plain 3 [7] 1, 0, 5⟩) ∧
    ¬ Follows .sample 0 [7] [signedView 3 [7] 2] (run .sample (signedView 3 [7] 2)) ∧
    ¬ Follows .sample 0 [7] [signedView 3 [8] 1] (run .sample (signedView 3 [8] 1)) := by
  refine ⟨fun h => ?_, fun h => ?_, fun h => ?_⟩
  · exact absurd ((h.levels 1 3).2 (by decide +kernel)) (by decide +kernel)
  · exact absurd ((h.levels 1 3).1 (by decide +kernel)) (by decide +kernel)
  · obtain ⟨c, hc, hreport⟩ := (h.largest 1 3 (by decide +kernel)).1
    obtain rfl := List.mem_singleton.1 hc
    revert hreport
    decide +kernel

theorem views_run_two :
    let s := (viewMachine .sample 0).run {} [signedView 3 [7] 1, signedView 2 [7] 1]
    s.view 1 = some 3 ∧ ∀ v, 1 ∈ s.viewLevels v ↔ s.view 1 = some v := by
  intro s
  have h := views_run .sample 0 [7] rfl [signedView 3 [7] 1, signedView 2 [7] 1] (by
    simp only [List.forall_mem_cons, List.not_mem_nil, IsEmpty.forall_iff, implies_true, and_true]
    constructor <;> rintro v ⟨⟩ - <;> exact ⟨rfl, rfl⟩)
  exact ⟨by decide +kernel, h.levels 1⟩

end ViewTables

end Sintr.Shard
