import Sintr.Phase1.Pipeline

/-!
# The stored vote

Several callers report a result for one transaction: the check for the original client or for a
gossiped message, the check for a fallback client, and the wake-up when the last dependency has
finished. `BufferP1Result` stores the first result that is not WAIT, and every caller is to answer
with what is stored.

* `bufferEntry`: what a call does to the entry of a transaction; `bufferP1Result_entry` says that
  this is all `bufferP1Result` does to it.
* `answerCall`: the call together with the votes that its caller then sends. The result comes back
  from the call. The conflict does not, since the pointer is passed by value.
-/

namespace Sintr.Phase1

open List Option Function

open State (Caller mergeResult subscribe)

/-! ## Calls -/

/-- A call of `BufferP1Result` with what its caller brings. -/
structure P1Call where
  caller : Caller
  isGossip : Bool := false
  reqId : UInt64 := 0
  result : CCResult
  conflict : Option CommittedProof := none
  /-- Fallback clients are interested and there is no certificate to send them instead. -/
  interested : Bool := false
  wakeUp : caller = .dependency → conflict = none

/-- What `BufferP1Result` makes of the entry of a transaction and hands back. -/
structure BufferedEntry where
  entry : Option P1MetaData
  result : CCResult
  subOriginal : Option UInt64 := none
  wakeFallbacks : Bool := false

def bufferEntry (entry : Option P1MetaData) (c : P1Call) : BufferedEntry :=
  if c.result = .ignore then ⟨none, .ignore, none, false⟩
  else
    let r := mergeResult (entry.getD {}) c.result c.conflict
    let m := subscribe r.1 r.2 c.reqId c.isGossip c.caller
    if r.2 = .wait then ⟨some m, r.2, none, false⟩
    else ⟨some { m with subOriginal := none, fallbacksInterested := false }, r.2, m.subOriginal,
      m.fallbacksInterested⟩

theorem bufferP1Result_entry (s : State) (txn : Option Transaction) (d : Digest) (c : P1Call) :
    let b := s.bufferP1Result c.result c.conflict txn d c.reqId c.isGossip c.caller
    let e := bufferEntry (s.p1MetaData d) c
    b.state.p1MetaData d = e.entry ∧ b.result = e.result ∧ b.subOriginal = e.subOriginal ∧
      b.wakeFallbacks = e.wakeFallbacks := by
  dsimp only
  unfold State.bufferP1Result bufferEntry
  dsimp only
  split_ifs with hignore hwait
  · exact ⟨update_self _ _ _, rfl, rfl, rfl⟩
  · exact ⟨update_self _ _ _, rfl, rfl, rfl⟩
  · exact ⟨update_self _ _ _, rfl, rfl, rfl⟩

/-! ## Answers -/

/-- A vote that was sent to a client. -/
structure SentVote where
  toOriginal : Bool
  reqId : UInt64
  result : CCResult
  conflict : Option CommittedProof

/-- The entry of one transaction and the votes sent about it. -/
structure VoteState where
  entry : Option P1MetaData := none
  sent : List SentVote := []
  crashed : Bool := false

/-- `SendPhase1Reply` and `SetP1`: an ABORT vote shows its conflict, if proofs are validated.
Without one the first asserts and the second follows a null pointer. -/
def VoteState.send (env : Env) (s : VoteState) (toOriginal : Bool) (reqId : UInt64)
    (result : CCResult) (conflict : Option CommittedProof) : VoteState :=
  if s.crashed then s
  else if env.params.validateProofs ∧ result = .abort then
    if conflict.isNone then { s with crashed := true }
    else { s with sent := s.sent ++ [⟨toOriginal, reqId, result, conflict⟩] }
  else { s with sent := s.sent ++ [⟨toOriginal, reqId, result, none⟩] }

/-- `HandlePhase1CB`. The reply carries the request of the caller and the conflict that it came
with. -/
def answerOriginal (env : Env) (s : VoteState) (c : P1Call) : VoteState :=
  if c.result = .ignore then s
  else
    let b := bufferEntry s.entry c
    let s := { s with entry := b.entry }
    let s := if (b.result ≠ .wait ∧ !c.isGossip) ∨ b.subOriginal.isSome then
      s.send env true c.reqId b.result c.conflict else s
    if b.wakeFallbacks && c.interested then s.send env false 0 b.result c.conflict else s

def answerFallback (env : Env) (s : VoteState) (c : P1Call) : VoteState :=
  let b := bufferEntry s.entry c
  let s := { s with entry := b.entry }
  let s := match b.subOriginal with
    | some reqId => s.send env true reqId b.result c.conflict
    | none => s
  if b.result = .ignore ∨ b.result = .wait then s
  else s.send env false c.reqId b.result c.conflict

def answerDependency (env : Env) (s : VoteState) (c : P1Call) : VoteState :=
  let b := bufferEntry s.entry c
  let s := { s with entry := b.entry }
  let s := match b.subOriginal with
    | some reqId => s.send env true reqId b.result none
    | none => s
  if c.interested then s.send env false 0 b.result none else s

def answerBy (env : Env) (s : VoteState) (c : P1Call) : Caller → VoteState
  | .original => answerOriginal env s c
  | .fallback => answerFallback env s c
  | .dependency => answerDependency env s c

def answerCall (env : Env) (s : VoteState) (c : P1Call) : VoteState :=
  if s.crashed then s else answerBy env s c c.caller

def voteMachine (env : Env) : Machine VoteState P1Call where
  step := answerCall env

/-! ## What is stored -/

def entryPair (entry : Option P1MetaData) : Option (CCResult × Option CommittedProof) :=
  (entry.filter (·.hasP1)).map fun m => (m.result, m.conflict)

def VoteState.stored (s : VoteState) : Option (CCResult × Option CommittedProof) :=
  entryPair s.entry

def P1Call.pair (c : P1Call) : CCResult × Option CommittedProof := (c.result, c.conflict)

def VoteState.returned (s : VoteState) (c : P1Call) : CCResult := (bufferEntry s.entry c).result

/-- The pair that is stored after a call: the one before if that is final or the call brings WAIT,
and else the one that the call brings. -/
def storedAfter (before : Option (CCResult × Option CommittedProof))
    (new : CCResult × Option CommittedProof) : CCResult × Option CommittedProof :=
  match before with
  | none => new
  | some old => if old.1 ≠ .wait ∨ new.1 = .wait then old else new

section Entry
variable (entry : Option P1MetaData) {c : P1Call}

theorem subscribe_pair (m : P1MetaData) (r : CCResult) (reqId : UInt64) (g : Bool)
    (caller : Caller) :
    (subscribe m r reqId g caller).hasP1 = m.hasP1 ∧
      (subscribe m r reqId g caller).result = m.result ∧
      (subscribe m r reqId g caller).conflict = m.conflict := by
  unfold subscribe
  split_ifs
  · cases caller <;> exact ⟨rfl, rfl, rfl⟩
  · exact ⟨rfl, rfl, rfl⟩

theorem mergeResult_pair (m : P1MetaData) (r : CCResult) (conflict : Option CommittedProof) :
    (mergeResult m r conflict).1.hasP1 = true ∧
      ((mergeResult m r conflict).1.result, (mergeResult m r conflict).1.conflict) =
        storedAfter (if m.hasP1 then some (m.result, m.conflict) else none) (r, conflict) := by
  unfold mergeResult storedAfter
  cases hp : m.hasP1 with
  | false => exact ⟨rfl, rfl⟩
  | true =>
    by_cases hr : r = .wait
    · simp [hr, hp]
    · by_cases hm : m.result = .wait
      · simp [hr, hm]
      · simp [hr, hm, hp]

theorem mergeResult_returned (m : P1MetaData) {r : CCResult} (conflict : Option CommittedProof)
    (hr : r ≠ .wait) :
    (mergeResult m r conflict).2 = (mergeResult m r conflict).1.result ∧
      (mergeResult m r conflict).2 ≠ .wait := by
  unfold mergeResult
  split_ifs with hp hm
  · exact ⟨rfl, hr⟩
  · exact ⟨rfl, hm⟩
  · exact ⟨rfl, hr⟩

theorem bufferEntry_entry (h : c.result ≠ .ignore) :
    ∃ m, (bufferEntry entry c).entry = some m ∧ m.hasP1 = true ∧
      m.result = (mergeResult (entry.getD {}) c.result c.conflict).1.result ∧
      m.conflict = (mergeResult (entry.getD {}) c.result c.conflict).1.conflict ∧
      (bufferEntry entry c).result = (mergeResult (entry.getD {}) c.result c.conflict).2 := by
  unfold bufferEntry
  rw [if_neg h]
  extract_lets r m
  obtain ⟨hp, hresult, hconflict⟩ := subscribe_pair r.1 r.2 c.reqId c.isGossip c.caller
  have hp1 := (mergeResult_pair (entry.getD {}) c.result c.conflict).1
  split_ifs
  · exact ⟨_, rfl, hp.trans hp1, hresult, hconflict, rfl⟩
  · exact ⟨_, rfl, hp.trans hp1, hresult, hconflict, rfl⟩

theorem entryPair_getD :
    entryPair entry =
      if (entry.getD {}).hasP1 then some ((entry.getD {}).result, (entry.getD {}).conflict)
      else none := by
  cases entry with
  | none => rfl
  | some m => cases hp : m.hasP1 <;> simp [entryPair, Option.filter, hp]

theorem bufferEntry_pair (h : c.result ≠ .ignore) :
    entryPair (bufferEntry entry c).entry =
      some (storedAfter (entryPair entry) c.pair) := by
  obtain ⟨m, hm, hp, hresult, hconflict, -⟩ := bufferEntry_entry entry h
  rw [hm, entryPair_getD (some m), getD_some, hp, if_pos rfl, hresult, hconflict,
    (mergeResult_pair (entry.getD {}) c.result c.conflict).2, entryPair_getD entry]
  rfl

theorem bufferEntry_returned (h : c.result ≠ .ignore) (hwait : c.result ≠ .wait) :
    (bufferEntry entry c).result ≠ .wait ∧
      (entryPair (bufferEntry entry c).entry).map (·.1) = some (bufferEntry entry c).result := by
  obtain ⟨m, hm, hp, hresult, -, hreturned⟩ := bufferEntry_entry entry h
  obtain ⟨heq, hfinal⟩ := mergeResult_returned (entry.getD {}) c.conflict hwait
  rw [hreturned, hm, entryPair_getD (some m), getD_some, hp, if_pos rfl]
  exact ⟨hfinal, congrArg some (hresult.trans heq.symm)⟩

end Entry

/-! ## What a call does -/

inductive Sends (env : Env) (s : VoteState) : VoteState → Prop where
  | refl : Sends env s s
  | send {s' : VoteState} (h : Sends env s s') (toOriginal : Bool) (reqId : UInt64)
      (r : CCResult) (conflict : Option CommittedProof) :
      Sends env s (s'.send env toOriginal reqId r conflict)

section Step
variable {env : Env} {s s' : VoteState} {c : P1Call}

theorem Sends.ite {p : Prop} [Decidable p] (h : Sends env s s') (toOriginal : Bool)
    (reqId : UInt64) (r : CCResult) (conflict : Option CommittedProof) :
    Sends env s (if p then s'.send env toOriginal reqId r conflict else s') := by
  split_ifs
  · exact h.send _ _ _ _
  · exact h

theorem Sends.sub (h : Sends env s s') (sub : Option UInt64) (r : CCResult)
    (conflict : Option CommittedProof) :
    Sends env s (match sub with
      | some reqId => s'.send env true reqId r conflict
      | none => s') := by
  cases sub with
  | none => exact h
  | some reqId => exact h.send _ _ _ _

theorem answerCall_sends (hrun : s.crashed = false) :
    Sends env
      { s with entry :=
          if c.caller = .original ∧ c.result = .ignore then s.entry
          else (bufferEntry s.entry c).entry }
      (answerCall env s c) := by
  have hanswer : answerCall env s c = answerBy env s c c.caller := if_neg (by simp [hrun])
  rw [hanswer]
  cases c.caller with
  | original =>
    show Sends env _ (answerOriginal env s c)
    unfold answerOriginal
    by_cases h : c.result = .ignore
    · rw [if_pos h, if_pos ⟨rfl, h⟩]
      exact .refl
    · rw [if_neg h, if_neg fun h' => h h'.2]
      exact (Sends.refl.ite _ _ _ _).ite _ _ _ _
  | fallback =>
    show Sends env _ (answerFallback env s c)
    unfold answerFallback
    rw [if_neg fun h => Caller.noConfusion h.1]
    extract_lets b s₁ s₂
    have hs₂ : Sends env s₁ s₂ := Sends.refl.sub _ _ _
    split_ifs
    · exact hs₂
    · exact hs₂.send _ _ _ _
  | dependency =>
    show Sends env _ (answerDependency env s c)
    unfold answerDependency
    rw [if_neg fun h => Caller.noConfusion h.1]
    exact (Sends.refl.sub _ _ _).ite _ _ _ _

theorem Sends.entry_eq (h : Sends env s s') : s'.entry = s.entry := by
  induction h with
  | refl => rfl
  | send h toOriginal reqId r conflict ih =>
    rw [← ih]
    unfold VoteState.send
    split_ifs <;> rfl

theorem answerCall_entry (hrun : s.crashed = false) (h : c.result ≠ .ignore) :
    (answerCall env s c).entry = (bufferEntry s.entry c).entry := by
  rw [(answerCall_sends hrun).entry_eq, if_neg fun h' => h h'.2]

theorem answerCall_stored (hrun : s.crashed = false) (h : c.result ≠ .ignore) :
    (answerCall env s c).stored = some (storedAfter s.stored c.pair) := by
  unfold VoteState.stored
  rw [answerCall_entry hrun h]
  exact bufferEntry_pair s.entry h

theorem answerCall_final {pair : CCResult × Option CommittedProof} (hs : s.stored = some pair)
    (hfinal : pair.1 ≠ .wait) (h : c.result ≠ .ignore) :
    (answerCall env s c).stored = some pair := by
  cases hrun : s.crashed with
  | true =>
    unfold answerCall
    rw [if_pos hrun]
    exact hs
  | false => rw [answerCall_stored hrun h, hs, storedAfter, if_pos (.inl hfinal)]

def VoteState.Shown (env : Env) (s : VoteState) : Prop :=
  ∀ v ∈ s.sent, env.params.validateProofs = true → v.result = .abort → v.conflict.isSome = true

theorem VoteState.Shown.send (h : s.Shown env) (toOriginal : Bool) (reqId : UInt64)
    (r : CCResult) (conflict : Option CommittedProof) :
    (s.send env toOriginal reqId r conflict).Shown env := by
  unfold VoteState.send
  split_ifs with hcrashed habort hnone
  · exact h
  · exact h
  · intro v hv
    rcases mem_append.1 hv with hv | hv
    · exact h v hv
    · rw [mem_singleton.1 hv]
      intro _ _
      simpa [isSome_iff_ne_none] using hnone
  · intro v hv
    rcases mem_append.1 hv with hv | hv
    · exact h v hv
    · rw [mem_singleton.1 hv]
      exact fun hproofs hvote => absurd ⟨hproofs, hvote⟩ habort

theorem Sends.shown (h : Sends env s s') (hs : s.Shown env) : s'.Shown env := by
  induction h with
  | refl => exact hs
  | send h toOriginal reqId r conflict ih => exact ih.send _ _ _ _

theorem answerCall_shown (h : s.Shown env) : (answerCall env s c).Shown env := by
  cases hrun : s.crashed with
  | true =>
    unfold answerCall
    rwa [if_pos hrun]
  | false => exact (answerCall_sends hrun).shown h

end Step

/-! ## The replica -/

/-- A vote about `d` in the log of a replica: to the request of the original client, or to the
fallback clients. -/
def voteFor (d : Digest) : LogEntry → Option (Option UInt64 × CCResult)
  | .reply _ d' result reqId => if d' = d then some (some reqId, result) else none
  | .fbReply d' result => if d' = d then some (none, result) else none
  | _ => none

def SentVote.logged (v : SentVote) : Option UInt64 × CCResult :=
  (if v.toOriginal then some v.reqId else none, v.result)

/-- Until it stops, the vote machine has the entry of `d` at the replica and the votes about `d` in
its log. -/
def Follows (d : Digest) (s : State) (v : VoteState) : Prop :=
  v.crashed = false → s.crashed = false ∧ s.p1MetaData d = v.entry ∧
    s.log.filterMap (voteFor d) = v.sent.map SentVote.logged

/-- Fallback clients are interested in `d` and there is no certificate for them. -/
def State.awaited (s : State) (d : Digest) : Bool :=
  !(s.interestedClients d).isEmpty && !s.hasWriteback d

section Replica
variable {env : Env} {d : Digest} {s : State} {v : VoteState} {txn : Option Transaction}

theorem VoteState.send_crashed (h : v.crashed = true) (toOriginal : Bool) (reqId : UInt64)
    (r : CCResult) (conflict : Option CommittedProof) :
    (v.send env toOriginal reqId r conflict).crashed = true := by
  unfold VoteState.send
  rwa [if_pos h]

/-- A vote that does not stop the machine is sent as it is, and an ABORT has its conflict. -/
theorem VoteState.send_sent {toOriginal : Bool} {reqId : UInt64} {r : CCResult}
    {conflict : Option CommittedProof}
    (h : (v.send env toOriginal reqId r conflict).crashed = false) :
    v.crashed = false ∧ (v.send env toOriginal reqId r conflict).entry = v.entry ∧
      (v.send env toOriginal reqId r conflict).sent.map SentVote.logged =
        v.sent.map SentVote.logged ++ [(if toOriginal then some reqId else none, r)] ∧
      ¬ (env.params.validateProofs ∧ r = .abort ∧ conflict.isNone) := by
  have hrun : v.crashed = false := by
    by_contra hcrashed
    rw [VoteState.send_crashed (eq_true_of_ne_false hcrashed)] at h
    exact Bool.noConfusion h
  unfold VoteState.send at h ⊢
  rw [hrun] at h ⊢
  by_cases habort : env.params.validateProofs ∧ r = .abort
  · by_cases hnone : conflict.isNone
    · simp [habort, hnone] at h
    · simp [habort, hnone, SentVote.logged]
  · simp only [habort, Bool.false_eq_true, if_false]
    exact ⟨trivial, trivial, by simp [SentVote.logged], fun h' => habort ⟨h'.1, h'.2.1⟩⟩

theorem Follows.sendPhase1Reply (h : Follows d s v) (reqId : UInt64) (r : CCResult)
    (conflict : Option CommittedProof) :
    Follows d (s.sendPhase1Reply env reqId r conflict txn d)
      (v.send env true reqId r conflict) := by
  intro hv
  obtain ⟨hrun, hentry, hsent, hshown⟩ := VoteState.send_sent hv
  obtain ⟨hs, hmeta, hlog⟩ := h hrun
  unfold State.sendPhase1Reply
  rw [if_neg hshown, hentry, hsent]
  refine ⟨hs, hmeta, ?_⟩
  simp [State.record, filterMap_append, voteFor, hlog]

theorem Follows.fbReply (h : Follows d s v) (reqId : UInt64) (r : CCResult)
    (conflict : Option CommittedProof) :
    Follows d (s.record (.fbReply d r)) (v.send env false reqId r conflict) := by
  intro hv
  obtain ⟨hrun, hentry, hsent, -⟩ := VoteState.send_sent hv
  obtain ⟨hs, hmeta, hlog⟩ := h hrun
  rw [hentry, hsent]
  refine ⟨hs, hmeta, ?_⟩
  simp [State.record, filterMap_append, voteFor, hlog]

theorem Follows.stopped (h : v.crashed = true) : Follows d s v := fun hv => by simp [h] at hv

theorem Follows.wakeAllInterestedFallbacks (h : Follows d s v) (r : CCResult)
    (conflict : Option CommittedProof) :
    Follows d (s.wakeAllInterestedFallbacks d r)
      (if s.awaited d then v.send env false 0 r conflict else v) := by
  unfold State.wakeAllInterestedFallbacks State.awaited
  by_cases hnone : s.interestedClients d = []
  · simpa [hnone] using h
  · cases hwb : s.hasWriteback d with
    | true =>
      have hcleared : Follows d { s with
        interestedClients := update s.interestedClients d [] } v := h
      simpa [hnone] using hcleared
    | false => simpa [hnone] using h.fbReply 0 r conflict

/-- What a call leaves alone besides the entry. -/
theorem bufferP1Result_rest (s : State) (txn : Option Transaction) (d : Digest) (c : P1Call) :
    let b := s.bufferP1Result c.result c.conflict txn d c.reqId c.isGossip c.caller
    b.state.crashed = s.crashed ∧ b.state.log.filterMap (voteFor d) = s.log.filterMap (voteFor d) ∧
      (c.result ≠ .ignore → b.state.awaited d = s.awaited d) := by
  dsimp only
  unfold State.bufferP1Result
  dsimp only
  split_ifs with hignore hwait
  · exact ⟨rfl, rfl, fun h => absurd hignore h⟩
  · exact ⟨rfl, by simp [State.record, State.setP1MetaData, voteFor], fun _ => rfl⟩
  · exact ⟨rfl, by simp [State.record, State.setP1MetaData, voteFor], fun _ => rfl⟩

theorem Follows.bufferP1Result (h : Follows d s v) (txn : Option Transaction) (c : P1Call) :
    Follows d (s.bufferP1Result c.result c.conflict txn d c.reqId c.isGossip c.caller).state
      { v with entry := (bufferEntry v.entry c).entry } := by
  intro hv
  obtain ⟨hs, hmeta, hlog⟩ := h hv
  obtain ⟨hrun, hvotes, -⟩ := bufferP1Result_rest s txn d c
  refine ⟨hrun.trans hs, ?_, hvotes.trans hlog⟩
  rw [(bufferP1Result_entry s txn d c).1, hmeta]

theorem Follows.sub (h : Follows d s v) (sub : Option UInt64) (r : CCResult)
    (conflict : Option CommittedProof) :
    Follows d
      (match sub with
        | some reqId => s.sendPhase1Reply env reqId r conflict txn d
        | none => s)
      (match sub with
        | some reqId => v.send env true reqId r conflict
        | none => v) := by
  cases sub with
  | none => exact h
  | some reqId => exact h.sendPhase1Reply reqId r conflict

theorem sendPhase1Reply_awaited (reqId : UInt64) (r : CCResult)
    (conflict : Option CommittedProof) :
    (s.sendPhase1Reply env reqId r conflict txn d).awaited d = s.awaited d := by
  unfold State.sendPhase1Reply
  split_ifs <;> rfl

theorem Follows.crashed (h : Follows d s v) (hs : s.crashed = true) : v.crashed = true := by
  by_contra hv
  simp [(h (eq_false_of_ne_true hv)).1] at hs

/-- The fallback clients get the vote, unless the replica has stopped at the reply before. -/
theorem Follows.wake (h : Follows d s v) (r : CCResult) (conflict : Option CommittedProof) :
    Follows d (if s.crashed = false then s.wakeAllInterestedFallbacks d r else s)
      (if s.awaited d then v.send env false 0 r conflict else v) := by
  by_cases hs : s.crashed = false
  · rw [if_pos hs]
    exact h.wakeAllInterestedFallbacks r conflict
  · have hv := h.crashed (eq_true_of_ne_false hs)
    rw [if_neg hs]
    split_ifs
    · exact .stopped (VoteState.send_crashed hv _ _ _ _)
    · exact .stopped hv

theorem Follows.answer (h : Follows d s v) (reqId : UInt64) (r : CCResult)
    (conflict : Option CommittedProof) :
    Follows d (if s.crashed ∨ r = .ignore ∨ r = .wait then s else s.record (.fbReply d r))
      (if r = .ignore ∨ r = .wait then v else v.send env false reqId r conflict) := by
  by_cases hwait : r = .ignore ∨ r = .wait
  · rwa [if_pos (.inr hwait), if_pos hwait]
  rw [if_neg hwait]
  by_cases hcrashed : s.crashed
  · rw [if_pos (.inl hcrashed)]
    exact .stopped (VoteState.send_crashed (h.crashed hcrashed) _ _ _ _)
  · rw [if_neg fun h => h.elim hcrashed hwait]
    exact h.fbReply _ _ _

/-- `HandlePhase1CB` at the replica is `answerOriginal`. -/
theorem handlePhase1CB_follows (txn : Transaction) {c : P1Call} (h : Follows d s v)
    (hrun : v.crashed = false) (hcaller : c.caller = .original)
    (hawaited : c.interested = s.awaited d) :
    Follows d (s.handlePhase1CB env c.reqId c.result c.conflict d txn c.isGossip)
      (answerOriginal env v c) := by
  unfold State.handlePhase1CB answerOriginal
  by_cases hignore : c.result = .ignore
  · rwa [if_pos hignore, if_pos hignore]
  rw [if_neg hignore, if_neg hignore, ← hcaller]
  obtain ⟨-, hmeta, -⟩ := h hrun
  obtain ⟨-, hresult, hsub, hwake⟩ := bufferP1Result_entry s (some txn) d c
  have hbuf := h.bufferP1Result (some txn) c
  have hkeep := (bufferP1Result_rest s (some txn) d c).2.2 hignore
  rw [hmeta] at hresult hsub hwake
  dsimp only
  rw [hresult, hsub, hwake, hawaited, ← hkeep]
  generalize (s.bufferP1Result _ _ _ _ _ _ _).state = s₁ at hbuf hkeep ⊢
  generalize bufferEntry v.entry c = e at hbuf ⊢
  have hreply : ∀ (p : Prop) [Decidable p],
      Follows d (if p then s₁.sendPhase1Reply env c.reqId e.result c.conflict (some txn) d else s₁)
        (if p then VoteState.send env { v with entry := e.entry } true c.reqId e.result c.conflict
          else { v with entry := e.entry }) ∧
      (if p then s₁.sendPhase1Reply env c.reqId e.result c.conflict (some txn) d else s₁).awaited d
        = s₁.awaited d := by
    intro p _
    split_ifs
    · exact ⟨hbuf.sendPhase1Reply _ _ _, sendPhase1Reply_awaited _ _ _⟩
    · exact ⟨hbuf, rfl⟩
  obtain ⟨hs₂, haw⟩ := hreply ((e.result ≠ .wait ∧ !c.isGossip) ∨ e.subOriginal.isSome)
  rw [← haw]
  cases e.wakeFallbacks with
  | false => simpa using hs₂
  | true => simpa using hs₂.wake e.result c.conflict

/-- `ExecP1` at the replica ends with `answerFallback`. -/
theorem execP1_follows (i : CCInput) (reqId : UInt64) (txn : Transaction) {c : P1Call}
    (h : let r := (s.record (.execP1 txn d)).doOCCCheck env i reqId d txn true false
      Follows d r.state v ∧ c.result = r.result ∧ c.conflict = r.conflict)
    (hrun : v.crashed = false) (hcaller : c.caller = .fallback) (hreq : c.reqId = 0)
    (hgossip : c.isGossip = false) :
    Follows d (s.execP1 env i reqId d txn) (answerFallback env v c) := by
  unfold State.execP1 answerFallback
  dsimp only at h ⊢
  generalize (s.record (.execP1 txn d)).doOCCCheck env i reqId d txn true false = r at h ⊢
  obtain ⟨h, hresult, hconflict⟩ := h
  obtain ⟨hs, hmeta, -⟩ := h hrun
  have hcall : r.state.bufferP1Result r.result r.conflict (some txn) d 0 false .fallback =
      r.state.bufferP1Result c.result c.conflict (some txn) d c.reqId c.isGossip c.caller := by
    rw [hresult, hconflict, hcaller, hreq, hgossip]
  obtain ⟨-, hres, hsub, -⟩ := bufferP1Result_entry r.state (some txn) d c
  rw [hmeta] at hres hsub
  rw [if_neg (by simp [hs]), hcall, ← hconflict, hres, hsub]
  exact ((h.bufferP1Result (some txn) c).sub _ _ _).answer _ _ _

theorem checkDependenciesOf_ne_ignore {r : CCResult} (h : s.checkDependenciesOf env d = some r) :
    r ≠ .ignore := by
  rintro rfl
  unfold State.checkDependenciesOf State.checkDependencies at h
  grind

/-- The wake-up at the replica is `answerDependency`. -/
theorem wakeDependent_follows {c : P1Call} (h : Follows d s v) (hrun : v.crashed = false)
    (hcaller : c.caller = .dependency) (hresult : s.checkDependenciesOf env d = some c.result)
    (hreq : c.reqId = 0) (hgossip : c.isGossip = false) (hawaited : c.interested = s.awaited d) :
    Follows d (s.wakeDependent env d) (answerDependency env v c) := by
  have hignore : c.result ≠ .ignore := checkDependenciesOf_ne_ignore hresult
  have hcall : s.bufferP1Result c.result none none d 0 false .dependency =
      s.bufferP1Result c.result c.conflict none d c.reqId c.isGossip c.caller := by
    rw [c.wakeUp hcaller, hcaller, hreq, hgossip]
  obtain ⟨-, hmeta, -⟩ := h hrun
  obtain ⟨-, hres, hsub, -⟩ := bufferP1Result_entry s none d c
  have hkeep := (bufferP1Result_rest s none d c).2.2 hignore
  rw [hmeta] at hres hsub
  have hbuf := h.bufferP1Result none c
  unfold State.wakeDependent answerDependency
  rw [hresult, hawaited]
  dsimp only
  rw [hcall, hres, hsub, ← hkeep]
  generalize (s.bufferP1Result _ _ _ _ _ _ _).state = s₁ at hbuf ⊢
  have hend : ∀ {s₂ : State} {v₂ : VoteState} (r : CCResult), Follows d s₂ v₂ →
      s₂.awaited d = s₁.awaited d →
      Follows d (if s₂.crashed then s₂ else s₂.wakeAllInterestedFallbacks d r)
        (if s₁.awaited d then v₂.send env false 0 r none else v₂) := by
    intro s₂ v₂ r hs₂ haw
    rw [← haw]
    simpa only [← Bool.not_eq_true, ite_not] using hs₂.wake r none
  cases (bufferEntry v.entry c).subOriginal with
  | none => exact hend _ hbuf rfl
  | some reqId => exact hend _ (hbuf.sendPhase1Reply _ _ _) (sendPhase1Reply_awaited _ _ _)

end Replica

/-! ## Runs -/

/-- A final result stays stored with its conflict unless a call with IGNORE comes. A call with a
final result finds it stored, with its own conflict if it was the first. And no ABORT vote is sent
without a conflict, where proofs are validated. -/
theorem stored_votes (env : Env) (before : List P1Call) :
    let s := (voteMachine env).run {} before
    (∀ pair, s.stored = some pair → pair.1 ≠ .wait →
      ∀ after : List P1Call, (∀ c ∈ after, c.result ≠ .ignore) →
        ((voteMachine env).run s after).stored = some pair) ∧
    (∀ c : P1Call, s.crashed = false → c.result ≠ .ignore → c.result ≠ .wait →
      ((voteMachine env).step s c).stored = some (storedAfter s.stored c.pair) ∧
      (storedAfter s.stored c.pair).1 = s.returned c ∧ s.returned c ≠ .wait) ∧
    (env.params.validateProofs = true →
      ∀ v ∈ s.sent, v.result = .abort → v.conflict.isSome = true) := by
  intro s
  refine ⟨fun pair hs hfinal after hafter => ?_, fun c hrun hignore hwait => ?_, ?_⟩
  · exact Machine.run_along (P := fun _ c => c.result ≠ .ignore)
      (I := fun s : VoteState => s.stored = some pair)
      (fun _ c hc hs => answerCall_final hs hfinal hc) hs (Machine.along_of_forall hafter)
  · have hstored : (answerCall env s c).stored = _ := answerCall_stored hrun hignore
    obtain ⟨hfinal, hreturned⟩ := bufferEntry_returned s.entry hignore hwait
    refine ⟨hstored, ?_, hfinal⟩
    rw [bufferEntry_pair s.entry hignore] at hreturned
    exact Option.some.inj hreturned
  · have hshown : s.Shown env :=
      Machine.run_induct (I := VoteState.Shown env) (fun _ _ h => answerCall_shown h)
        (fun v hv => absurd hv List.not_mem_nil) before
    exact fun hproofs v hv => hshown v hv hproofs

/-! ## Callers that disagree -/

def conflictProof : CommittedProof := { txn := { clientId := 1, clientSeqNum := 1 } }

def abortCall : P1Call where
  caller := .fallback
  result := .abort
  conflict := some conflictProof
  wakeUp := by simp

def originalCall (result : CCResult) : P1Call where
  caller := .original
  reqId := 7
  result
  wakeUp := by simp

def fallbackCall (result : CCResult) : P1Call where
  caller := .fallback
  result
  wakeUp := by simp

theorem stored_votes_abort :
    ((voteMachine Env.sample).run ((voteMachine Env.sample).run {} [abortCall])
      [fallbackCall .commit]).stored = some (.abort, some conflictProof) :=
  (stored_votes Env.sample [abortCall]).1 (.abort, some conflictProof) rfl (by simp)
    [fallbackCall .commit] (by simp [fallbackCall])

/-- A stored COMMIT is gone after a call with IGNORE. Without proofs an ABORT vote shows no
conflict. A caller that adopts a stored ABORT does not get its conflict. -/
theorem stored_votes_lost :
    (((voteMachine Env.sample).run {} [originalCall .commit]).stored.map (·.1) = some .commit ∧
      ((voteMachine Env.sample).run {} [originalCall .commit, fallbackCall .ignore,
        fallbackCall .abstain]).stored.map (·.1) = some .abstain) ∧
    ((voteMachine { Env.sample with params := { validateProofs := false } }).run {}
      [abortCall]).sent.map (fun v => (v.result, v.conflict.isSome)) = [(.abort, false)] ∧
    ((voteMachine Env.sample).run {} [abortCall]).crashed = false ∧
    ((voteMachine Env.sample).run {} [abortCall, originalCall .abstain]).crashed = true := by
  decide +kernel

end Sintr.Phase1
