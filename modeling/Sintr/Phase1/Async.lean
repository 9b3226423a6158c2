import Sintr.Lib.History
import Sintr.Phase1.Paths

/-!
# The join of endorsement validations and concurrency check

`AsyncValidatePrepare` is shared by the threads that validate the endorsements of a transaction and
the one that runs its concurrency check; each calls it once, under its lock, in any order.

* `Waiting.call`: the last call ends the check, every other one leaves it waiting.
-/

namespace Sintr.Phase1.AsyncValidatePrepare

/-! ## Calls -/

inductive Call where
  | addCompletedValidation (valid : Bool) (endorserId : ProcessId)
  | setCCResult (result : CCResult) (delayed : Bool)
  | setPolicyLeak

namespace Call

def isValidation : Call → Bool
  | addCompletedValidation .. => true
  | _ => false

def isCCResult : Call → Bool
  | setCCResult .. => true
  | _ => false

def isPolicyLeak : Call → Bool
  | setPolicyLeak => true
  | _ => false

def endorser : Call → Option ProcessId
  | addCompletedValidation true id => some id
  | _ => none

theorem isValidation_of_endorser {c : Call} {id : ProcessId} (h : c.endorser = some id) :
    c.isValidation = true := by
  cases c <;> first | rfl | cases h

end Call

def call (a : AsyncValidatePrepare) : Call → AsyncValidatePrepare × AsyncAction
  | .addCompletedValidation valid endorserId => a.addCompletedValidation valid endorserId
  | .setCCResult result delayed => a.setCCResult result delayed
  | .setPolicyLeak => a.setPolicyLeak

def Asserts (a : AsyncValidatePrepare) : Call → Prop
  | .addCompletedValidation .. => a.policyLeak = false
  | .setCCResult .. => a.policyLeak = true → a.cbDone = true
  | .setPolicyLeak => a.ccDone = false → a.cbDone = false

def machine : Machine AsyncValidatePrepare Call := ⟨fun a c => (a.call c).1⟩

def outcomes : AsyncValidatePrepare → List Call → List (AsyncAction × Bool)
  | _, [] => []
  | a, c :: cs => ((a.call c).2, (a.call c).1.done) :: outcomes (a.call c).1 cs

end AsyncValidatePrepare

namespace AsyncAction

def reports : AsyncAction → Bool
  | none => false
  | _ => true

def prepares : AsyncAction → Bool
  | delayedPrepare => true
  | _ => false

def passes : AsyncAction → Bool
  | delayedPrepare => true
  | report .commit _ => true
  | report .wait _ => true
  | _ => false

theorem reports_of_prepares {x : AsyncAction} (h : x.prepares = true) : x.reports = true := by
  cases x <;> first | rfl | cases h

theorem passes_of_harmless {x : AsyncAction} (h : AsyncValidatePrepare.Harmless x) :
    x.passes = false := by
  rcases h with rfl | ⟨fail, rfl | rfl⟩ <;> rfl

end AsyncAction

namespace AsyncValidatePrepare

/-! ## What one call does -/

section
variable {a : AsyncValidatePrepare}

theorem finish_spec (a : AsyncValidatePrepare) :
    a.finish.1.done = true ∧ a.finish.1.cbDone = true ∧
      a.finish.2.reports.toNat + a.cbDone.toNat = 1 := by
  unfold finish
  split
  · rename_i hcb
    exact ⟨rfl, hcb, by rw [hcb]; rfl⟩
  · rename_i hcb
    rw [Bool.not_eq_true] at hcb
    rw [hcb]
    split
    · refine ⟨rfl, rfl, ?_⟩
      dsimp only
      split <;> rfl
    · exact ⟨rfl, rfl, rfl⟩

theorem call_counts (a : AsyncValidatePrepare) (c : Call) :
    (a.call c).1.completedValidations = a.completedValidations + c.isValidation.toNat ∧
      (a.call c).1.totalValidations = a.totalValidations ∧
      (a.call c).1.policyClient = a.policyClient ∧
      (a.call c).1.endorsers = c.endorser.elim a.endorsers (insert · a.endorsers) := by
  cases c with
  | addCompletedValidation valid id =>
    have hacts := a.addCompletedValidation_acts valid id
    refine ⟨?_, ?_, hacts.policyClient, hacts.endorsers.trans ?_⟩
    · simp only [call, addCompletedValidation, finish]
      split_ifs <;> rfl
    · simp only [call, addCompletedValidation, finish]
      split_ifs <;> rfl
    · cases valid <;> rfl
  | setCCResult r delayed =>
    have hacts := a.setCCResult_acts r delayed
    refine ⟨?_, ?_, hacts.policyClient, hacts.endorsers⟩
    · simp only [call, setCCResult, finish]
      split_ifs <;> rfl
    · simp only [call, setCCResult, finish]
      split_ifs <;> rfl
  | setPolicyLeak => exact ⟨rfl, rfl, rfl, rfl⟩

theorem completed_of_passes {c : Call} (h : (a.call c).2.passes = true) :
    (a.call c).1.completedValidations = a.totalValidations ∧
      0 ≤ a.policyClient.isSatisfiedInt (a.call c).1.endorsers := by
  cases c with
  | addCompletedValidation valid id =>
    have hacts := a.addCompletedValidation_acts valid id
    have hverdict := hacts.action.resolve_left fun hx => by
      rw [call, AsyncAction.passes_of_harmless hx] at h
      cases h
    refine ⟨?_, ?_⟩
    · rw [(a.call_counts _).1]
      by_contra hne
      have hne' : ((a.addEndorser valid id).completedValidations ==
          (a.addEndorser valid id).totalValidations) = false := beq_false_of_ne hne
      simp [call, addCompletedValidation, hne', AsyncAction.passes] at h
    · exact hacts.endorsers ▸ hverdict.2
  | setCCResult r delayed =>
    have hacts := a.setCCResult_acts r delayed
    have hverdict := hacts.action.resolve_left fun hx => by
      rw [call, AsyncAction.passes_of_harmless hx] at h
      cases h
    refine ⟨?_, ?_⟩
    · rw [(a.call_counts _).1]
      by_contra hne
      have hne' : (a.completedValidations == a.totalValidations) = false := beq_false_of_ne hne
      simp only [call, setCCResult, hne', Bool.false_eq_true, if_false] at h
      split_ifs at h with _ hr
      · cases h
      · rcases hr with rfl | rfl <;> cases h
      · cases h
    · exact hacts.endorsers ▸ hverdict.2
  | setPolicyLeak =>
    simp only [call, setPolicyLeak] at h
    split_ifs at h <;> cases h

end

/-! ## The calls still to come -/

structure Awaits (a : AsyncValidatePrepare) (cs : List Call) : Prop where
  policyLeak : a.policyLeak = false
  validations : a.completedValidations + cs.countP Call.isValidation = a.totalValidations
  ccResults : a.ccDone.toNat + cs.countP Call.isCCResult = 1
  leaks : ∀ c ∈ cs, c.isPolicyLeak = false

structure Waiting (a : AsyncValidatePrepare) (cs : List Call) : Prop extends Awaits a cs where
  done : a.done = false
  early : a.cbDone = true → a.ccDone = true ∨
    a.completedValidations = a.totalValidations ∧ a.policyClient.isSatisfiedInt a.endorsers < 0

section
variable {a : AsyncValidatePrepare} {cs : List Call} {c : Call}

theorem Awaits.nil_iff (h : Awaits a cs) :
    cs = [] ↔ a.ccDone = true ∧ a.completedValidations = a.totalValidations := by
  have hval := h.validations
  have hcc := h.ccResults
  constructor
  · rintro rfl
    simp only [List.countP_nil, Nat.add_zero] at hval hcc
    exact ⟨by cases hx : a.ccDone <;> simp_all, hval⟩
  · rintro ⟨hdone, hall⟩
    rw [hdone] at hcc
    rw [List.eq_nil_iff_forall_not_mem]
    intro c hc
    have hval0 : cs.countP Call.isValidation = 0 := by omega
    have hcc0 : cs.countP Call.isCCResult = 0 := Nat.add_left_cancel hcc
    have hv := List.countP_eq_zero.1 hval0 c hc
    have hr := List.countP_eq_zero.1 hcc0 c hc
    have hl := h.leaks c hc
    cases c with
    | addCompletedValidation valid id => exact hv rfl
    | setCCResult r delayed => exact hr rfl
    | setPolicyLeak => cases hl

structure Ends (a : AsyncValidatePrepare) (c : Call) (cs : List Call) : Prop where
  asserts : Asserts a c
  reported : (a.call c).2.reports.toNat + a.cbDone.toNat = (a.call c).1.cbDone.toNat
  done : (a.call c).1.done = true ↔ cs = []
  last : cs = [] → (a.call c).1.cbDone = true
  waiting : cs ≠ [] → Waiting (a.call c).1 cs

theorem ends_of_finish {b : AsyncValidatePrepare} (hasserts : Asserts a c)
    (hcall : a.call c = b.finish) (hcb : b.cbDone = a.cbDone) (hnil : cs = []) : Ends a c cs := by
  obtain ⟨hdone, hcbDone, hreports⟩ := b.finish_spec
  rw [hcb] at hreports
  refine ⟨hasserts, ?_, ?_, ?_, fun hne => absurd hnil hne⟩
  · rw [hcall, hcbDone]
    exact hreports
  · rw [hcall]
    exact ⟨fun _ => hnil, fun _ => hdone⟩
  · intro _
    rw [hcall]
    exact hcbDone

theorem ends_of_waiting (hasserts : Asserts a c)
    (hreported : (a.call c).2.reports.toNat + a.cbDone.toNat = (a.call c).1.cbDone.toNat)
    (hwait : Waiting (a.call c).1 cs) (hne : cs ≠ []) : Ends a c cs :=
  ⟨hasserts, hreported, by simp [hwait.done, hne], fun hnil => absurd hnil hne, fun _ => hwait⟩

theorem Waiting.addCompletedValidation {valid : Bool} {id : ProcessId}
    (h : Waiting a (.addCompletedValidation valid id :: cs)) :
    Ends a (.addCompletedValidation valid id) cs := by
  have hval := h.validations
  rw [List.countP_cons_of_pos rfl] at hval
  have hlt : a.completedValidations < a.totalValidations := by omega
  have hawait : Awaits (a.addEndorser valid id) cs := by
    refine ⟨h.policyLeak, ?_, h.ccResults, fun c hc => h.leaks c (List.mem_cons_of_mem _ hc)⟩
    show a.completedValidations + 1 + cs.countP Call.isValidation = a.totalValidations
    omega
  have hearly : a.cbDone = true → a.ccDone = true := fun hcb => by
    rcases h.early hcb with hcc | ⟨hall, -⟩
    · exact hcc
    · omega
  have hnil := hawait.nil_iff
  have hcall : a.call (.addCompletedValidation valid id) =
      if a.ccDone = true ∧ a.completedValidations + 1 = a.totalValidations then
        (a.addEndorser valid id).finish
      else if a.completedValidations + 1 = a.totalValidations ∧
          a.policyClient.isSatisfiedInt (a.addEndorser valid id).endorsers < 0 then
        ({ a.addEndorser valid id with cbDone := true }, .report .abstain true)
      else (a.addEndorser valid id, .none) := by
    simp only [call, AsyncValidatePrepare.addCompletedValidation, Bool.and_eq_true, beq_iff_eq,
      decide_eq_true_eq]
    rfl
  split_ifs at hcall with hend hunsat
  · exact ends_of_finish h.policyLeak hcall rfl (hnil.2 hend)
  · -- The early report: the concurrency check is not done, so nothing was reported before.
    have hcc : a.ccDone = false := Bool.eq_false_iff.2 fun hcc => hend ⟨hcc, hunsat.1⟩
    have hcb : a.cbDone = false := Bool.eq_false_iff.2 fun hcb => by simp [hearly hcb] at hcc
    refine ends_of_waiting h.policyLeak ?_ ?_ (mt hnil.1 hend)
    · rw [hcall, hcb]
      rfl
    · rw [hcall]
      exact ⟨⟨hawait.1, hawait.2, hawait.3, hawait.4⟩, h.done, fun _ => .inr hunsat⟩
  · refine ends_of_waiting h.policyLeak ?_ ?_ (mt hnil.1 hend)
    · rw [hcall]
      exact Nat.zero_add _
    · rw [hcall]
      exact ⟨hawait, h.done, fun hcb => .inl (hearly hcb)⟩

theorem Waiting.setCCResult {r : CCResult} {delayed : Bool}
    (h : Waiting a (.setCCResult r delayed :: cs)) : Ends a (.setCCResult r delayed) cs := by
  have hcount := h.ccResults
  rw [List.countP_cons_of_pos rfl] at hcount
  have hcc : a.ccDone = false := by
    cases hx : a.ccDone with
    | false => rfl
    | true => simp [hx] at hcount
  have hasserts : Asserts a (.setCCResult r delayed) := fun hleak => by
    rw [h.policyLeak] at hleak
    cases hleak
  let b := { a with ccDone := true, result := r, delayed := delayed }
  have hawait : Awaits b cs := by
    refine ⟨h.policyLeak, ?_, ?_, fun c hc => h.leaks c (List.mem_cons_of_mem _ hc)⟩
    · have hval := h.validations
      rwa [List.countP_cons_of_neg (by simp [Call.isValidation])] at hval
    · rw [hcc] at hcount
      show 1 + cs.countP Call.isCCResult = 1
      simp only [Bool.toNat_false] at hcount
      omega
  have hnil := hawait.nil_iff
  have hcall : a.call (.setCCResult r delayed) =
      if a.completedValidations = a.totalValidations then b.finish
      else if r = .abstain ∨ r = .abort then ({ b with cbDone := true }, .report r false)
      else (b, .none) := by
    simp [call, AsyncValidatePrepare.setCCResult, h.policyLeak, b]
  split_ifs at hcall with hall hearly
  · exact ends_of_finish hasserts hcall rfl (hnil.2 ⟨rfl, hall⟩)
  · -- The early report: validations are missing, so nothing was reported before.
    have hcb : a.cbDone = false := Bool.eq_false_iff.2 fun hcb => by
      rcases h.early hcb with hx | hx
      · simp [hcc] at hx
      · exact hall hx.1
    refine ends_of_waiting hasserts ?_ ?_ fun hx => hall (hnil.1 hx).2
    · rw [hcall, hcb]
      rfl
    · rw [hcall]
      exact ⟨⟨hawait.1, hawait.2, hawait.3, hawait.4⟩, h.done, fun _ => .inl rfl⟩
  · refine ends_of_waiting hasserts ?_ ?_ fun hx => hall (hnil.1 hx).2
    · rw [hcall]
      exact Nat.zero_add _
    · rw [hcall]
      exact ⟨hawait, h.done, fun _ => .inl rfl⟩

theorem Waiting.call (h : Waiting a (c :: cs)) : Ends a c cs := by
  cases c with
  | addCompletedValidation valid id => exact h.addCompletedValidation
  | setCCResult r delayed => exact h.setCCResult
  | setPolicyLeak => exact absurd (h.leaks _ List.mem_cons_self) (by simp [Call.isPolicyLeak])

/-! ## Whole runs -/

theorem Waiting.asserts (h : Waiting a cs) : machine.Along Asserts a cs := by
  induction cs generalizing a with
  | nil => trivial
  | cons c cs ih =>
    refine ⟨h.call.asserts, ?_⟩
    by_cases hcs : cs = []
    · subst hcs
      trivial
    · exact ih (h.call.waiting hcs)

theorem Waiting.run {before after : List Call} (h : Waiting a (before ++ after))
    (hne : after ≠ []) : Waiting (machine.run a before) after := by
  induction before generalizing a with
  | nil => exact h
  | cons c before ih => exact ih (h.call.waiting (by simp [hne]))

theorem Waiting.returned (h : Waiting a cs) (hne : cs ≠ []) :
    (outcomes a cs).map (·.2) = List.replicate (cs.length - 1) false ++ [true] := by
  induction cs generalizing a with
  | nil => exact absurd rfl hne
  | cons c cs ih =>
    by_cases hcs : cs = []
    · subst hcs
      simp [outcomes, h.call.done.2 rfl]
    · have hdone : (a.call c).1.done = false := Bool.eq_false_iff.2 (mt h.call.done.1 hcs)
      have hlen : (c :: cs).length - 1 = cs.length - 1 + 1 := by
        have := List.length_pos_iff.2 hcs
        simp only [List.length_cons]
        omega
      rw [outcomes, List.map_cons, ih (h.call.waiting hcs) hcs, hdone, hlen, List.replicate_succ]
      rfl

theorem Waiting.reported (h : Waiting a cs) (hne : cs ≠ []) :
    (outcomes a cs).countP (·.1.reports) + a.cbDone.toNat = 1 := by
  induction cs generalizing a with
  | nil => exact absurd rfl hne
  | cons c cs ih =>
    have hcall := h.call.reported
    have hcount : (outcomes a (c :: cs)).countP (·.1.reports) =
        (outcomes (a.call c).1 cs).countP (·.1.reports) + (a.call c).2.reports.toNat := by
      rw [outcomes, List.countP_cons]
      cases (a.call c).2.reports <;> rfl
    by_cases hcs : cs = []
    · subst hcs
      rw [hcount, Nat.add_assoc, hcall, h.call.last rfl]
      rfl
    · rw [hcount, Nat.add_assoc, hcall]
      exact ih (h.call.waiting hcs) hcs

end

def counted (client : ProcessId) (cs : List Call) : Endorsers :=
  insert client (cs.filterMap Call.endorser).toFinset

theorem run_counts (a : AsyncValidatePrepare) (cs : List Call) :
    (machine.run a cs).completedValidations =
        a.completedValidations + cs.countP Call.isValidation ∧
      (machine.run a cs).totalValidations = a.totalValidations ∧
      (machine.run a cs).policyClient = a.policyClient ∧
      (machine.run a cs).endorsers = a.endorsers ∪ (cs.filterMap Call.endorser).toFinset := by
  induction cs generalizing a with
  | nil => simp
  | cons c cs ih =>
    obtain ⟨hcompleted, htotal, hpolicy, hendorsers⟩ := a.call_counts c
    obtain ⟨ihcompleted, ihtotal, ihpolicy, ihendorsers⟩ := ih (a.call c).1
    refine ⟨?_, ihtotal.trans htotal, ihpolicy.trans hpolicy, ?_⟩
    · refine ihcompleted.trans ?_
      have hc : (if c.isValidation = true then 1 else 0) = c.isValidation.toNat := by
        cases c.isValidation <;> rfl
      rw [hcompleted, List.countP_cons, hc]
      omega
    · refine ihendorsers.trans ?_
      rw [hendorsers, List.filterMap_cons]
      cases c.endorser with
      | none => rfl
      | some id => simp [Finset.insert_union, Finset.union_insert]

/-! ## Every interleaving -/

def validationCalls (vs : List (Bool × ProcessId)) : List Call :=
  vs.map fun v => .addCompletedValidation v.1 v.2

theorem countP_validationCalls (vs : List (Bool × ProcessId)) :
    (validationCalls vs).countP Call.isValidation = vs.length := by
  rw [validationCalls, List.countP_map]
  simp [Function.comp_def, Call.isValidation]

/-- The calls on the object of a transaction with endorsements `vs`. The client counts as an
endorser once `ExtractPolicy` succeeded; if it fails no validation is started. -/
inductive Schedule (client : ProcessId) (policyClient : PolicyClient) (vs : List (Bool × ProcessId))
    (result : CCResult) (delayed : Bool) : AsyncValidatePrepare → List Call → Prop
  | interleaved {cs : List Call}
      (h : cs.Perm (validationCalls vs ++ [.setCCResult result delayed])) :
    Schedule client policyClient vs result delayed
      { totalValidations := vs.length, policyClient, endorsers := {client} } cs
  | leaked : Schedule client policyClient vs result delayed
      { totalValidations := vs.length, policyClient } [.setPolicyLeak, .setCCResult result delayed]

/-- No assertion fails, there is one report and at most one delayed prepare, only the last call
returns true, and the transaction passes only after all validations and with the policy satisfied.
-/
structure JoinsOnce (client : ProcessId) (a : AsyncValidatePrepare) (cs : List Call) : Prop where
  asserts : machine.Along Asserts a cs
  reported : (outcomes a cs).countP (·.1.reports) = 1
  prepared : (outcomes a cs).countP (·.1.prepares) ≤ 1
  returned : (outcomes a cs).map (·.2) = List.replicate (cs.length - 1) false ++ [true]
  passed : EachAfter (fun before c => ((machine.run a before).call c).2.passes = true →
    (before ++ [c]).countP Call.isValidation = a.totalValidations ∧
      a.policyClient.isSatisfied (counted client (before ++ [c])) = true) cs

section
variable {client : ProcessId} {pc : PolicyClient} {vs : List (Bool × ProcessId)} {r : CCResult}
  {delayed : Bool} {a : AsyncValidatePrepare} {cs : List Call} {before after : List Call}

theorem prepared_le (h : (outcomes a cs).countP (·.1.reports) = 1) :
    (outcomes a cs).countP (·.1.prepares) ≤ 1 :=
  h ▸ List.countP_mono_left fun _ _ hx => AsyncAction.reports_of_prepares hx

theorem waiting_interleaved (h : cs.Perm (validationCalls vs ++ [.setCCResult r delayed])) :
    Waiting { totalValidations := vs.length, policyClient := pc, endorsers := {client} } cs := by
  refine ⟨⟨rfl, ?_, ?_, fun c hc => ?_⟩, rfl, nofun⟩
  · rw [h.countP_eq, List.countP_append, countP_validationCalls]
    exact Nat.zero_add _
  · rw [h.countP_eq, List.countP_append, validationCalls, List.countP_map]
    simp [Function.comp_def, Call.isCCResult]
  · have hc' := h.mem_iff.1 hc
    simp only [validationCalls, List.mem_append, List.mem_map, List.mem_singleton] at hc'
    rcases hc' with ⟨v, -, rfl⟩ | rfl <;> rfl

theorem run_carries (hcs : ∀ c ∈ cs, ∀ r' d', c = .setCCResult r' d' → r' = r ∧ d' = delayed)
    (ha : a.ccDone = true → a.result = r ∧ a.delayed = delayed) :
    (machine.run a cs).ccDone = true →
      (machine.run a cs).result = r ∧ (machine.run a cs).delayed = delayed := by
  induction cs generalizing a with
  | nil => exact ha
  | cons c cs ih =>
    refine ih (fun c' hc' => hcs c' (List.mem_cons_of_mem _ hc')) ?_
    cases c with
    | addCompletedValidation valid id =>
      obtain ⟨hcc, hresult, hdelayed, -⟩ := a.addCompletedValidation_reports valid id
      intro hdone
      obtain ⟨hr, hd⟩ := ha (hcc.symm.trans hdone)
      exact ⟨hresult.trans hr, hdelayed.trans hd⟩
    | setCCResult r' d' =>
      obtain ⟨rfl, rfl⟩ := hcs _ List.mem_cons_self r' d' rfl
      obtain ⟨-, hresult, hdelayed, -⟩ := a.setCCResult_reports r' d'
      exact fun _ => ⟨hresult, hdelayed⟩
    | setPolicyLeak => exact ha

theorem passing_of_passes {c : Call}
    (hc : ∀ r' d', c = .setCCResult r' d' → r' = r ∧ d' = delayed)
    (ha : a.ccDone = true → a.result = r ∧ a.delayed = delayed)
    (h : (a.call c).2.passes = true) : delayed = true ∨ r = .commit ∨ r = .wait := by
  have hpass : (if delayed then AsyncAction.delayedPrepare else .report r false).passes = true := by
    cases c with
    | addCompletedValidation valid id =>
      obtain ⟨-, -, -, hx | ⟨hcc, -, heq⟩⟩ := a.addCompletedValidation_reports valid id
      · rw [call, AsyncAction.passes_of_harmless hx] at h
        cases h
      · rw [(ha hcc).1, (ha hcc).2] at heq
        rwa [call, heq] at h
    | setCCResult r' d' =>
      obtain ⟨rfl, rfl⟩ := hc r' d' rfl
      obtain ⟨-, -, -, hx | ⟨-, -, heq⟩⟩ := a.setCCResult_reports r' d'
      · rw [call, AsyncAction.passes_of_harmless hx] at h
        cases h
      · rwa [call, heq] at h
    | setPolicyLeak =>
      simp only [call, setPolicyLeak] at h
      split_ifs at h <;> cases h
  cases delayed with
  | true => exact .inl rfl
  | false => cases r <;> simp_all [AsyncAction.passes]

theorem counted_of_complete
    (h : (before ++ after).Perm (validationCalls vs ++ [.setCCResult r delayed]))
    (hall : before.countP Call.isValidation = vs.length) :
    counted client before = counted client (validationCalls vs) := by
  have hafter : after.countP Call.isValidation = 0 := by
    have hcount := h.countP_eq Call.isValidation
    rw [List.countP_append, List.countP_append, hall, countP_validationCalls] at hcount
    exact Nat.add_left_cancel hcount
  have hmem (id : ProcessId) : (∃ c ∈ before, c.endorser = some id) ↔
      ∃ c ∈ validationCalls vs, c.endorser = some id := by
    constructor
    · rintro ⟨c, hc, hid⟩
      rcases List.mem_append.1 (h.mem_iff.1 (List.mem_append_left after hc)) with hc' | hc'
      · exact ⟨c, hc', hid⟩
      · rw [List.mem_singleton.1 hc'] at hid
        cases hid
    · rintro ⟨c, hc, hid⟩
      rcases List.mem_append.1 (h.mem_iff.2 (List.mem_append_left _ hc)) with hc' | hc'
      · exact ⟨c, hc', hid⟩
      · exact absurd (Call.isValidation_of_endorser hid) (List.countP_eq_zero.1 hafter c hc')
  unfold counted
  congr 1
  ext id
  simp only [List.mem_toFinset, List.mem_filterMap]
  exact hmem id

def Sound (client : ProcessId) (pc : PolicyClient) (vs : List (Bool × ProcessId)) (r : CCResult)
    (delayed : Bool) : Prop :=
  (0 ≤ pc.isSatisfiedInt (counted client (validationCalls vs)) →
      pc.isSatisfied (counted client (validationCalls vs)) = true) ∨
    delayed = false ∧ r ≠ .commit ∧ r ≠ .wait

theorem passed_interleaved (h : cs.Perm (validationCalls vs ++ [.setCCResult r delayed]))
    (hsound : Sound client pc vs r delayed) {c : Call} (hcs : cs = before ++ c :: after)
    {a : AsyncValidatePrepare}
    (ha : a = { totalValidations := vs.length, policyClient := pc, endorsers := {client} })
    (hpass : ((machine.run a before).call c).2.passes = true) :
    (before ++ [c]).countP Call.isValidation = vs.length ∧
      pc.isSatisfied (counted client (before ++ [c])) = true := by
  have hcarries : ∀ c' ∈ before ++ [c], ∀ r' d', c' = .setCCResult r' d' →
      r' = r ∧ d' = delayed := by
    rintro c' hc' r' d' rfl
    have hmem : Call.setCCResult r' d' ∈ cs := by
      rw [hcs, List.append_cons]
      exact List.mem_append_left after hc'
    have hmem' := h.mem_iff.1 hmem
    simp only [validationCalls, List.mem_append, List.mem_map, List.mem_singleton, reduceCtorEq,
      and_false, exists_false, false_or, Call.setCCResult.injEq] at hmem'
    exact hmem'
  have hpassing : delayed = true ∨ r = .commit ∨ r = .wait := by
    refine passing_of_passes (hcarries c (by simp)) (run_carries ?_ ?_) hpass
    · exact fun c' hc' => hcarries c' (List.mem_append_left _ hc')
    · subst ha
      nofun
  obtain ⟨hcompleted, hverdict⟩ := completed_of_passes hpass
  have hrun : ((machine.run a before).call c).1 = machine.run a (before ++ [c]) :=
    (machine.run_append a before [c]).symm
  obtain ⟨-, htotal, hpolicy, -⟩ := run_counts a before
  obtain ⟨hcount, -, -, hendorsers⟩ := run_counts a (before ++ [c])
  rw [hrun, htotal, hcount] at hcompleted
  rw [hrun, hpolicy, hendorsers] at hverdict
  subst ha
  have hall : (before ++ [c]).countP Call.isValidation = vs.length := by simpa using hcompleted
  rw [hcs, List.append_cons] at h
  refine ⟨hall, ?_⟩
  rw [counted_of_complete h hall]
  rcases hsound with hright | ⟨hd, hcommit, hwait⟩
  · refine hright ?_
    rw [← counted_of_complete h hall]
    exact hverdict
  · rcases hpassing with hx | hx | hx
    · simp [hd] at hx
    · exact absurd hx hcommit
    · exact absurd hx hwait

theorem joinsOnce_leaked (client : ProcessId) (pc : PolicyClient) (n : Nat) (r : CCResult)
    (delayed : Bool) :
    JoinsOnce client { totalValidations := n, policyClient := pc }
      [.setPolicyLeak, .setCCResult r delayed] := by
  refine ⟨⟨fun _ => rfl, fun _ => rfl, trivial⟩, rfl, Nat.zero_le _, rfl, ?_⟩
  exact (eachAfter_nil.snoc nofun).snoc nofun

theorem joinsOnce_interleaved (h : cs.Perm (validationCalls vs ++ [.setCCResult r delayed]))
    (hsound : Sound client pc vs r delayed) :
    JoinsOnce client { totalValidations := vs.length, policyClient := pc, endorsers := {client} }
      cs := by
  have hwait : Waiting { totalValidations := vs.length, policyClient := pc, endorsers := {client} }
    cs := waiting_interleaved h
  have hne : cs ≠ [] := by
    rintro rfl
    simpa using h.length_eq
  have hreported := hwait.reported hne
  exact ⟨hwait.asserts, hreported, prepared_le hreported, hwait.returned hne,
    fun before c after hcs hpass => passed_interleaved h hsound hcs rfl hpass⟩

theorem passes_of_verdict (hverdict : 0 ≤ pc.isSatisfiedInt (counted client (validationCalls vs)))
    (hpassing : delayed = true ∨ r = .commit ∨ r = .wait) {a : AsyncValidatePrepare}
    (ha : a = { totalValidations := vs.length, policyClient := pc, endorsers := {client} }) :
    ((machine.run a (validationCalls vs)).call (.setCCResult r delayed)).2.passes = true := by
  have hwait : Waiting (machine.run a (validationCalls vs)) [.setCCResult r delayed] := by
    subst ha
    exact (waiting_interleaved (.refl _)).run (List.cons_ne_nil _ _)
  obtain ⟨-, -, hpolicy, hendorsers⟩ := run_counts a (validationCalls vs)
  generalize machine.run a (validationCalls vs) = b at hwait hpolicy hendorsers ⊢
  have hE : b.endorsers = counted client (validationCalls vs) := by
    rw [hendorsers, ha]
    rfl
  have hpc : b.policyClient = pc := by rw [hpolicy, ha]
  have hcc : b.ccDone = false := by
    have hcount := hwait.ccResults
    cases hx : b.ccDone with
    | false => rfl
    | true => simp [hx, Call.isCCResult] at hcount
  -- An early report would have needed an unfavourable verdict.
  have hcb : b.cbDone = false := Bool.eq_false_iff.2 fun hcb => by
    rcases hwait.early hcb with hx | ⟨-, hneg⟩
    · simp [hcc] at hx
    · rw [hpc, hE] at hneg
      omega
  have hall : b.completedValidations = b.totalValidations := hwait.validations
  rw [← hpc, ← hE] at hverdict
  have hact : (b.call (.setCCResult r delayed)).2 =
      if delayed then .delayedPrepare else .report r false := by
    simp [call, setCCResult, finish, hwait.policyLeak, hall, hcb, hverdict]
  rw [hact]
  rcases hpassing with rfl | rfl | rfl
  · rfl
  all_goals cases delayed <;> rfl

end

/-- **The join.** All interleavings of the validations of the endorsements `vs` with the concurrency
check behave, exactly if the verdict on the valid endorsers and the client is right, or the
concurrency check passes nothing. -/
theorem joinsOnce_iff (client : ProcessId) (pc : PolicyClient) (vs : List (Bool × ProcessId))
    (r : CCResult) (delayed : Bool) :
    (∀ a cs, Schedule client pc vs r delayed a cs → JoinsOnce client a cs) ↔
      Sound client pc vs r delayed := by
  constructor
  · intro h
    by_cases hpassing : delayed = true ∨ r = .commit ∨ r = .wait
    · refine .inl fun hverdict => ?_
      have hjoin := h _ _ (.interleaved (.refl _))
      have hpassed := hjoin.passed (validationCalls vs) _ [] rfl
        (passes_of_verdict hverdict hpassing rfl)
      have hcounted : counted client (validationCalls vs ++ [.setCCResult r delayed]) =
          counted client (validationCalls vs) := by
        rw [counted, List.filterMap_append]
        exact congrArg (fun ids => insert client (List.toFinset ids)) (List.append_nil _)
      exact hcounted ▸ hpassed.2
    · simp only [not_or, Bool.not_eq_true] at hpassing
      exact .inr hpassing
  · rintro hsound a cs (hperm | _)
    · exact joinsOnce_interleaved hperm hsound
    · exact joinsOnce_leaked client pc vs.length r delayed

/-- A policy that asks for 2 ^ 31 + 2 endorsers is met by the client alone: the transaction is
prepared. -/
theorem not_joinsOnce : ¬ ∀ a cs, Schedule 1 (some (.weight 2147483650)) [] .commit true a cs →
    JoinsOnce 1 a cs := by
  intro h
  have hpassed := (h _ _ (.interleaved (.refl _))).passed [] _ [] rfl (by decide +kernel)
  exact absurd hpassed.2 (by decide +kernel)

theorem joinsOnce_twoEndorsers :
    ∀ a cs, Schedule 1 (some (.weight 2)) [(true, 2), (false, 3)] .commit true a cs →
      JoinsOnce 1 a cs := by
  have hfits : PolicyClient.FitsInt (some (.weight 2)) := show (2 : UInt64).toNat ≤ 2 ^ 31 by decide
  exact (joinsOnce_iff 1 (some (.weight 2)) [(true, 2), (false, 3)] .commit true).2
    (.inl (PolicyClient.isSatisfiedInt_sound hfits))

end Sintr.Phase1.AsyncValidatePrepare
