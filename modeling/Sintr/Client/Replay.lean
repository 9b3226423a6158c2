import Sintr.Client.Forwarding
import Sintr.Client.Integrity

/-!
# Validation of an honest client

A program runs at one client, which forwards what it reads, and once more at a validating client
that gets these messages in order. The second client may be ahead of the messages or behind them.

* `Replayable`: the programs for which the validation completes.
-/

namespace Sintr.Client

open Quorum Marks Sorting Validation List

/-! ## The validating client at work -/

structure Replay where
  val : Validation
  handled : Nat := 0
  made : Nat := 0

inductive ReplayEvent where
  | arrive
  | handle
  | check (i : Nat)
  | call
  | expire
  deriving DecidableEq

section
variable (venv : ValidationEnv) (sent : List ForwardReadResultMessage)
  (calls : List (ProgramCall venv.config.groups))

def ProgramCall.perform (c : ProgramCall venv.config.groups) (s : Validation) : Validation :=
  match c.op with
  | .put key value _ => s.put venv key value c.validatorGroup
  | .get key _ => s.get key c.validatorGroup

def Replay.step (s : Replay) (e : ReplayEvent) : Replay :=
  if s.val.crashed then s
  else
    match e with
    | .arrive =>
      match sent[s.val.arrivals.length]? with
      | some msg => { s with val := s.val.receive venv msg }
      | none => s
    | .handle =>
      if s.handled < s.val.arrivals.length then
        { s with val := s.val.handle venv s.handled, handled := s.handled + 1 }
      else s
    | .check i => { s with val := s.val.check venv i }
    | .call =>
      if s.val.runnable then
        match calls[s.made]? with
        | some c => { s with val := c.perform venv s.val, made := s.made + 1 }
        | none => { s with val := s.val.commit venv }
      else s
    | .expire => if s.val.pendingGet.isSome then { s with val := s.val.panic } else s

def replay : Machine Replay ReplayEvent := ⟨Replay.step venv sent calls⟩

def Timely (e : ReplayEvent) : Prop := e ≠ .expire
deriving Decidable

end

def Replay.init (start : TxnStart) : Replay := { val := { policyType := start.policyType } }

def gotten (trace : List Call) : List (Key × Bytes) :=
  trace.filterMap fun
    | .put .. => none
    | .got key value _ => some (key, value)

/-- **Validation is complete**: unless the timer of a `Get` expires, the validating client does not
panic, its `Get`s return what the other client got, and it can go on until it is told COMMITTED with
the expected digest. -/
def Replays (venv : ValidationEnv) (sort : KeySort Key) (start : TxnStart)
    (calls : List (ProgramCall venv.config.groups)) (ini : Initiator venv.config.groups) : Prop :=
  ∀ es, (∀ e ∈ es, Timely e) →
    let M := replay venv ini.sent calls
    let s := M.run (Replay.init start) es
    s.val.crashed = false ∧ gotten s.val.trace <+: ini.returned ∧
      (s.val.committed = true → gotten s.val.trace = ini.returned ∧
        ∀ H : HashFn,
          { venv.toEnv with H }.endorsedDigest (s.val.transaction venv.toEnv sort start) =
            { venv.toEnv with H }.endorsedDigest (ini.transaction venv.toEnv sort start)) ∧
      (M.Quiescent Timely s → s.val.committed = true) ∧
      ∃ es', (∀ e ∈ es', Timely e) ∧ M.Quiescent Timely (M.run s es')

/-! ## The condition on programs -/

def newValues (rs : List ProgramRead) : List (Key × Bytes) :=
  (rs.filter (·.new)).map (·.result)

/-- The values that did not, and differ from the last one of their key that did. -/
def ignoredReads (rs : List ProgramRead) : List (Key × Bytes) :=
  flatMapAfter (fun before r =>
    if !r.new && decide (lastOf r.key (newValues before) ≠ some r.answer.value) then [r.result]
    else []) rs

def FirstNew (rs : List ProgramRead) : Prop :=
  EachAfter (fun before r => r.key ∉ before.map (·.key) → r.new = true) rs

structure Replayable (venv : ValidationEnv) (t : TxnPolicyType)
    (calls : List (ProgramCall venv.config.groups)) : Prop where
  plain : ∀ c ∈ calls, c.pulls t = false
  first : FirstNew (reads t calls)
  /-- The values of other `Get`s are, unless they were just read, among those put. -/
  written : ∀ k, (valuesOf k (ignoredReads (reads t calls))).Sublist
    (valuesOf k (puts (calls.map (·.op))))
  evidence : venv.clientCheckEvidence = true → ∀ r ∈ reads t calls, r.new = true →
    readSigHelper venv (r.message venv.toEnv) = .accept
  /-- Where it is not, no other thread is to check it. -/
  counted : venv.parallelQuerySigsCheck = true → venv.clientCheckEvidence = false →
    gets calls = []
  /-- The partitioner chooses the same participants at both clients. -/
  groups : venv.params.hashDigest = true →
    sortedGroups ((participants t (·.validatorGroup) calls).map (·.val)) =
      sortedGroups ((participants t (·.op.group) calls).map (·.val))

/-! ## Every run comes to an end -/

section
variable {venv : ValidationEnv} {sent : List ForwardReadResultMessage}
  {calls : List (ProgramCall venv.config.groups)}

def Replay.work (sent : List ForwardReadResultMessage)
    (calls : List (ProgramCall venv.config.groups)) (s : Replay) : Nat :=
  (!s.val.crashed).toNat + (!s.val.finished).toNat + 3 * (sent.length - s.val.arrivals.length) +
    (s.val.arrivals.length - s.handled) + (s.val.arrivals.countP fun x => !x.checked) +
    (calls.length - s.made)

@[simp] theorem processed_arrivals (s : Validation) (r : ForwardReadResult) :
    (processed venv s r).arrivals = s.arrivals := by
  unfold processed
  split <;> rfl

@[simp] theorem processed_finished (s : Validation) (r : ForwardReadResult) :
    (processed venv s r).finished = s.finished := by
  unfold processed
  split <;> rfl

@[simp] theorem processed_crashed (s : Validation) (r : ForwardReadResult) :
    (processed venv s r).crashed = s.crashed := by
  unfold processed
  split <;> rfl

variable {k : Key} {e : ReplayEvent} {s s' : Replay} {c : ProgramCall venv.config.groups}
  {g : Fin venv.config.groups}

theorem perform_put {v : Bytes} (h : c.op = .put k v g) (s : Validation) :
    c.perform venv s = s.put venv k v c.validatorGroup := by
  rw [ProgramCall.perform, h]

theorem perform_get (h : c.op = .get k g) (s : Validation) :
    c.perform venv s = s.get k c.validatorGroup := by
  rw [ProgramCall.perform, h]

theorem perform_frame (c : ProgramCall venv.config.groups) (s : Validation) :
    (c.perform venv s).arrivals = s.arrivals ∧ (c.perform venv s).crashed = s.crashed ∧
      (c.perform venv s).finished = s.finished ∧ (c.perform venv s).commitWait = s.commitWait ∧
      (c.perform venv s).committed = s.committed := by
  cases hop : c.op with
  | put k v g =>
    rw [perform_put hop, put_eq]
    exact ⟨rfl, rfl, rfl, rfl, rfl⟩
  | get k g =>
    rw [perform_get hop, get_frame]
    exact ⟨rfl, rfl, rfl, rfl, rfl⟩

theorem commit_cases (venv : ValidationEnv) (s : Validation) :
    s.commit venv = s.panic ∨ (s.commit venv).finished = true ∧
      (s.commit venv).crashed = s.crashed ∧ (s.commit venv).arrivals = s.arrivals := by
  unfold commit
  split
  · exact .inl rfl
  · split <;> exact .inr ⟨rfl, rfl, rfl⟩

theorem countP_set_processed {xs : List Arrival} {i : Nat} {x : Arrival} (hx : xs[i]? = some x) :
    ((xs.set i { x with processed := true }).countP fun x => !x.checked) =
      xs.countP fun x => !x.checked := by
  obtain ⟨as, bs, hs, hset⟩ := exists_set_split hx { x with processed := true }
  rw [hset, hs]
  simp [countP_cons]

inductive Replay.Moves (venv : ValidationEnv) (sent : List ForwardReadResultMessage)
    (calls : List (ProgramCall venv.config.groups)) (s : Replay) : ReplayEvent → Replay → Prop
  | arrive {msg : ForwardReadResultMessage} (h : sent[s.val.arrivals.length]? = some msg) :
    s.Moves venv sent calls .arrive { s with val := s.val.receive venv msg }
  | handle (h : s.handled < s.val.arrivals.length) :
    s.Moves venv sent calls .handle
      { s with val := s.val.handle venv s.handled, handled := s.handled + 1 }
  | check {i : Nat} {x : Arrival} (hx : s.val.arrivals[i]? = some x) (h : Unchecked venv x) :
    s.Moves venv sent calls (.check i) { s with val := s.val.check venv i }
  | perform {c : ProgramCall venv.config.groups} (hrun : s.val.runnable = true)
    (h : calls[s.made]? = some c) :
    s.Moves venv sent calls .call { s with val := c.perform venv s.val, made := s.made + 1 }
  | commit (hrun : s.val.runnable = true) (h : calls.length ≤ s.made) :
    s.Moves venv sent calls .call { s with val := s.val.commit venv }
  | expire (h : s.val.pendingGet.isSome = true) :
    s.Moves venv sent calls .expire { s with val := s.val.panic }

theorem step_cases (s : Replay) (e : ReplayEvent) :
    (replay venv sent calls).step s e = s ∨ s.val.crashed = false ∧
      s.Moves venv sent calls e ((replay venv sent calls).step s e) := by
  show Replay.step venv sent calls s e = s ∨
    _ ∧ s.Moves venv sent calls e (Replay.step venv sent calls s e)
  unfold Replay.step
  by_cases hcrash : s.val.crashed = true
  · exact .inl (if_pos hcrash)
  rw [if_neg hcrash]
  rw [Bool.not_eq_true] at hcrash
  cases e with
  | arrive =>
    cases hmsg : sent[s.val.arrivals.length]? with
    | none => exact .inl rfl
    | some msg => exact .inr ⟨hcrash, .arrive hmsg⟩
  | handle =>
    dsimp only
    split
    · rename_i hlt
      exact .inr ⟨hcrash, .handle hlt⟩
    · exact .inl rfl
  | check i =>
    rcases check_cases venv s.val i with ⟨hsame, -⟩ | ⟨x, hx, hun, -⟩
    · left
      dsimp only
      rw [hsame]
    · exact .inr ⟨hcrash, .check hx hun⟩
  | call =>
    dsimp only
    split
    · rename_i hrun
      cases hc : calls[s.made]? with
      | some c => exact .inr ⟨hcrash, .perform hrun hc⟩
      | none => exact .inr ⟨hcrash, .commit hrun (getElem?_eq_none_iff.1 hc)⟩
    · exact .inl rfl
  | expire =>
    dsimp only
    split
    · rename_i hwait
      exact .inr ⟨hcrash, .expire hwait⟩
    · exact .inl rfl

theorem Replay.Moves.step_eq (h : s.Moves venv sent calls e s') (halive : s.val.crashed = false) :
    (replay venv sent calls).step s e = s' := by
  show Replay.step venv sent calls s e = s'
  unfold Replay.step
  rw [if_neg (by simp [halive])]
  cases h with
  | arrive hmsg => simp [hmsg]
  | handle hlt => simp [hlt]
  | check hx hun => rfl
  | perform hrun hc => simp [hrun, hc]
  | commit hrun hc => simp [hrun, hc]
  | expire hwait => simp [hwait]

theorem Replay.Moves.work_lt (h : s.Moves venv sent calls e s') (halive : s.val.crashed = false) :
    s'.work sent calls < s.work sent calls := by
  cases h with
  | arrive hmsg =>
    have hlt := (List.getElem?_eq_some_iff.1 hmsg).1
    rw [receive_eq]
    split
    · simp [Replay.work, Validation.panic, halive]
    · simp only [Replay.work, length_append, length_singleton, countP_append,
        countP_singleton]
      split <;> omega
  | handle hlt =>
    have hx := getElem?_eq_getElem hlt
    by_cases hproc : (s.val.arrivals[s.handled]).processed = true
    · have hsame : s.val.handle venv s.handled = s.val := by
        simp [Validation.handle, hx, hproc]
      rw [hsame]
      simp only [Replay.work]
      omega
    · rw [Bool.not_eq_true] at hproc
      rw [handle_eq hx hproc, process_eq]
      have hcount := countP_set_processed hx
      split <;> simp only [Replay.work, Validation.panic, processed_arrivals, processed_finished,
        processed_crashed, processing, length_set, hcount, halive, Bool.not_true,
        Bool.toNat_false, Bool.not_false, Bool.toNat_true] <;> omega
  | @check i x hx hun =>
    rcases check_cases venv s.val i with ⟨-, hno⟩ | ⟨y, hy, -, hcheck⟩
    · exact absurd hun (hno x hx)
    · rw [hcheck]
      obtain rfl : x = y := Option.some.inj (hx.symm.trans hy)
      split
      · obtain ⟨harr, hcr, hfin⟩ := accepted_arrivals s.val i x
        obtain ⟨as, bs, hs, hset⟩ := exists_set_split hx { x with checked := true }
        simp only [Replay.work, harr, hcr, hfin, length_set]
        rw [hset]
        have hcount : (s.val.arrivals.countP fun x => !x.checked) =
            ((as ++ { x with checked := true } :: bs).countP fun x => !x.checked) + 1 := by
          rw [hs]
          simp [hun.1]
          omega
        omega
      · simp [Replay.work, Validation.panic, halive]
  | @perform c hrun hc =>
    have hlt := (List.getElem?_eq_some_iff.1 hc).1
    obtain ⟨harr, hcr, hfin, -⟩ := perform_frame c s.val
    simp only [Replay.work, harr, hcr, hfin]
    omega
  | commit hrun hc =>
    simp only [runnable, Bool.and_eq_true, Bool.not_eq_true'] at hrun
    rcases commit_cases venv s.val with hpanic | ⟨hfin, hcr, harr⟩
    · simp [hpanic, Replay.work, Validation.panic, halive]
    · simp [Replay.work, hfin, hcr, harr, hrun.2]
  | expire hwait => simp [Replay.work, Validation.panic, halive]

theorem not_moves_of_quiescent {A : ReplayEvent → Prop}
    (hq : (replay venv sent calls).Quiescent A s) (he : A e) (halive : s.val.crashed = false) :
    ¬ s.Moves venv sent calls e s' := by
  intro h
  have hsame : s' = s := (h.step_eq halive).symm.trans (hq e he)
  have hlt := h.work_lt halive
  rw [hsame] at hlt
  omega

theorem exists_end (sent : List ForwardReadResultMessage)
    (calls : List (ProgramCall venv.config.groups)) (A : ReplayEvent → Prop) (s : Replay) :
    ∃ es, (∀ e ∈ es, A e) ∧
      (replay venv sent calls).Quiescent A ((replay venv sent calls).run s es) :=
  Machine.exists_quiescent (fun s e _ => (step_cases s e).imp_right fun h => h.2.work_lt h.1) s

end

end Sintr.Client
