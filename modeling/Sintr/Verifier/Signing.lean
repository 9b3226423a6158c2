import Mathlib.Data.List.Basic
import Sintr.Lib.Machine

/-!
# Signing in batches

`LocalBatchSigner` collects messages until a batch is full, a caller finishes it or its timer
expires. A timer that is cancelled after its callback has started still runs it, and then finds
another batch or none. So a batch may be signed by the timer of an earlier one, and its own timer
stays behind, scheduled but no longer known.

* `SignerInv`: a timer is known exactly while messages wait, and what was signed or waits are all
  messages in their order. `step_inv`: every step keeps it.
* `run_signedOnce`: every callback is called once and behind its signature, and messages never wait
  without a timer.
-/

namespace Sintr.Signer

open List

/-- Messages are numbered in the order in which they come, and so are their `SignedMessage` and
their callback. -/
inductive Effect where
  | sign (msg signedMessage : Nat)
  | call (cb : Nat)
  deriving DecidableEq

structure State where
  batchSize : Nat
  batchTimerRunning : Bool := false
  batchTimerId : Nat := 0
  pendingBatchMessages : List Nat := []
  pendingBatchSignedMessages : List Nat := []
  pendingBatchCallbacks : List Nat := []
  /-- The timers of the transport, and those whose callbacks have started and wait for the mutex. -/
  timers : List Nat := []
  started : List Nat := []
  lastTimerId : Nat := 0
  requests : Nat := 0
  log : List Effect := []

inductive Event where
  | messageToSign (finishBatch : Bool)
  | expire (id : Nat)
  /-- A callback that has started gets the mutex. -/
  | callback (id : Nat)
  | adjustBatchSize (size : Nat)

def State.signBatch (s : State) : State :=
  { s with
    log := s.log ++
      (s.pendingBatchMessages.zip s.pendingBatchSignedMessages).map (fun x => .sign x.1 x.2) ++
      s.pendingBatchCallbacks.map .call
    pendingBatchMessages := []
    pendingBatchSignedMessages := []
    pendingBatchCallbacks := [] }

def State.cancelTimer (s : State) (id : Nat) : State := { s with timers := s.timers.erase id }

def State.messageToSign (initialBatchSize : Nat) (s : State) (finishBatch : Bool) : State :=
  let id := s.requests
  let s := { s with requests := id + 1 }
  if initialBatchSize = 1 then { s with log := s.log ++ [.sign id id, .call id] }
  else
    let s := { s with
      pendingBatchMessages := s.pendingBatchMessages ++ [id]
      pendingBatchSignedMessages := s.pendingBatchSignedMessages ++ [id]
      pendingBatchCallbacks := s.pendingBatchCallbacks ++ [id] }
    if finishBatch = true ∨ s.batchSize ≤ s.pendingBatchMessages.length then
      let s := if s.batchTimerRunning then
        { s.cancelTimer s.batchTimerId with batchTimerRunning := false } else s
      s.signBatch
    else if s.batchTimerRunning = false then
      { s with
        batchTimerRunning := true
        batchTimerId := s.lastTimerId + 1
        lastTimerId := s.lastTimerId + 1
        timers := s.timers ++ [s.lastTimerId + 1] }
    else s

def State.timeout (s : State) : State :=
  if s.pendingBatchMessages.length = 0 then s
  else { s with batchTimerRunning := false }.signBatch

def machine (initialBatchSize : Nat) : Machine State Event where
  step s
    | .messageToSign finishBatch => s.messageToSign initialBatchSize finishBatch
    | .expire id =>
      if id ∈ s.timers then { s.cancelTimer id with started := s.started ++ [id] } else s
    | .callback id =>
      if id ∈ s.started then { s with started := s.started.erase id }.timeout else s
    | .adjustBatchSize size => { s with batchSize := size }

/-! ## What is kept -/

def called (log : List Effect) : List Nat :=
  log.filterMap fun
    | .call cb => some cb
    | .sign .. => none

/-- The messages that the events hand to the signer. -/
def asked (es : List Event) : Nat :=
  es.countP fun
    | .messageToSign _ => true
    | _ => false

/-- A callback is called behind the signature of its message. -/
def SignedFirst (log : List Effect) : Prop :=
  ∀ l cb, l ++ [.call cb] <+: log → .sign cb cb ∈ l

structure SignerInv (s : State) : Prop where
  signedMessages : s.pendingBatchSignedMessages = s.pendingBatchMessages
  callbacks : s.pendingBatchCallbacks = s.pendingBatchMessages
  running : s.batchTimerRunning = true ↔ s.pendingBatchMessages ≠ []
  timer : s.batchTimerRunning = true → s.batchTimerId ∈ s.timers ∨ s.batchTimerId ∈ s.started
  all : called s.log ++ s.pendingBatchMessages = List.range s.requests
  signedFirst : SignedFirst s.log

variable {s : State} {log effects : List Effect}

theorem SignedFirst.append (h : SignedFirst log)
    (hcall : ∀ cb, .call cb ∈ effects → .sign cb cb ∈ log) : SignedFirst (log ++ effects) := by
  intro l cb hl
  rcases prefix_or_prefix_of_prefix hl (prefix_append log effects) with hin | hout
  · exact h l cb hin
  rcases prefix_concat_iff.1 hout with heq | ⟨l', rfl⟩
  · exact h l cb (heq ▸ prefix_rfl)
  · rw [append_assoc, prefix_append_right_inj] at hl
    exact mem_append_left _ (hcall cb (hl.subset (by simp)))

/-- Signing leaves nothing pending, and with it no timer is needed. -/
theorem inv_signBatch (hslots : s.pendingBatchSignedMessages = s.pendingBatchMessages)
    (hcallbacks : s.pendingBatchCallbacks = s.pendingBatchMessages)
    (hrunning : s.batchTimerRunning = false)
    (hall : called s.log ++ s.pendingBatchMessages = List.range s.requests)
    (hfirst : SignedFirst s.log) : SignerInv s.signBatch where
  signedMessages := rfl
  callbacks := rfl
  running := by simp [State.signBatch, hrunning]
  timer := by simp [State.signBatch, hrunning]
  all := by
    have hcalled : called s.signBatch.log = called s.log ++ s.pendingBatchMessages := by
      simp [State.signBatch, called, hcallbacks, filterMap_map]
    rw [hcalled]
    exact (append_nil _).trans hall
  signedFirst := by
    have hsigned : SignedFirst (s.log ++
        (s.pendingBatchMessages.zip s.pendingBatchSignedMessages).map fun x => .sign x.1 x.2) :=
      hfirst.append (by simp)
    refine hsigned.append fun cb hcb => ?_
    have hmem : cb ∈ s.pendingBatchMessages := by simpa [hcallbacks] using hcb
    simp only [hslots, mem_append, mem_map]
    exact .inr ⟨(cb, cb), by simpa [zip, zipWith_self] using hmem, rfl⟩

theorem inv_messageToSign {initialBatchSize : Nat} (hsize : 1 < initialBatchSize) (h : SignerInv s)
    (finishBatch : Bool) : SignerInv (s.messageToSign initialBatchSize finishBatch) := by
  obtain ⟨hslots, hcallbacks, hrunning, htimer, hall, hfirst⟩ := h
  have hall' : called s.log ++ (s.pendingBatchMessages ++ [s.requests]) =
      List.range (s.requests + 1) := by
    rw [← append_assoc, hall, range_succ]
  unfold State.messageToSign
  rw [if_neg (by omega)]
  dsimp only
  split_ifs with hfull hrun hidle
  · exact inv_signBatch (by simp [hslots, State.cancelTimer])
      (by simp [hcallbacks, State.cancelTimer]) rfl hall' hfirst
  · exact inv_signBatch (by simp [hslots]) (by simp [hcallbacks]) (by simpa using hrun) hall' hfirst
  · exact ⟨by simp [hslots], by simp [hcallbacks], by simp, by simp, hall', hfirst⟩
  · exact ⟨by simp [hslots], by simp [hcallbacks], by simpa using hidle, htimer, hall', hfirst⟩

theorem step_inv {initialBatchSize : Nat} (hsize : 1 < initialBatchSize) (s : State) (e : Event)
    (h : SignerInv s) : SignerInv ((machine initialBatchSize).step s e) := by
  cases e with
  | messageToSign finishBatch => exact inv_messageToSign hsize h finishBatch
  | expire id =>
    simp only [machine]
    split_ifs
    · refine { h with timer := fun hrun => ?_ }
      rcases h.timer hrun with hin | hstart
      · by_cases heq : s.batchTimerId = id
        · exact .inr (mem_append_right _ (mem_singleton.2 heq))
        · exact .inl ((mem_erase_of_ne heq).2 hin)
      · exact .inr (mem_append_left _ hstart)
    · exact h
  | callback id =>
    simp only [machine]
    split_ifs with hid
    · unfold State.timeout
      dsimp only
      split_ifs with hnone
      · have hstop : s.batchTimerRunning ≠ true :=
          fun hrun => h.running.1 hrun (by simpa using hnone)
        exact { h with timer := fun hrun => absurd hrun hstop }
      · exact inv_signBatch h.signedMessages h.callbacks rfl h.all h.signedFirst
    · exact h
  | adjustBatchSize size => exact { h with }

theorem step_requests (initialBatchSize : Nat) (s : State) (e : Event) :
    ((machine initialBatchSize).step s e).requests = s.requests + asked [e] := by
  cases e with
  | messageToSign finishBatch =>
    simp only [machine, State.messageToSign, State.signBatch, State.cancelTimer, asked]
    split_ifs <;> simp
  | expire id =>
    simp only [machine, State.cancelTimer, asked]
    split_ifs <;> simp
  | callback id =>
    simp only [machine, State.timeout, State.signBatch, asked]
    split_ifs <;> simp
  | adjustBatchSize size => simp [machine, asked]

theorem run_requests (initialBatchSize : Nat) (s : State) (es : List Event) :
    ((machine initialBatchSize).run s es).requests = s.requests + asked es := by
  induction es generalizing s with
  | nil => simp [asked]
  | cons e es ih =>
    have hcount : asked ([e] ++ es) = asked [e] + asked es := countP_append
    rw [singleton_append] at hcount
    rw [Machine.run_cons, ih, step_requests, hcount]
    omega

/-- The callbacks called and pending are those of the `n` messages, each once, none before its
message is signed. If messages are pending and no callback of a timer has started, the batch timer
is scheduled, and all will have been called when it has run. -/
structure SignedOnce (initialBatchSize n : Nat) (s : State) : Prop where
  once : called s.log ++ s.pendingBatchCallbacks = List.range n
  signedFirst : SignedFirst s.log
  scheduled : s.pendingBatchMessages ≠ [] → s.started = [] → s.batchTimerId ∈ s.timers ∧
    called ((machine initialBatchSize).run s
      [.expire s.batchTimerId, .callback s.batchTimerId]).log = List.range n

theorem run_signedOnce {initialBatchSize : Nat} (hsize : 1 < initialBatchSize) (es : List Event) :
    SignedOnce initialBatchSize (asked es)
      ((machine initialBatchSize).run { batchSize := initialBatchSize } es) := by
  have hinit : SignerInv { batchSize := initialBatchSize } :=
    ⟨rfl, rfl, by simp, by simp, rfl, fun l cb hl => by simp at hl⟩
  have h := Machine.run_induct (step_inv hsize) hinit es
  have hasked := run_requests initialBatchSize { batchSize := initialBatchSize } es
  rw [Nat.zero_add] at hasked
  rw [← hasked]
  generalize (machine initialBatchSize).run { batchSize := initialBatchSize } es = s at h ⊢
  refine ⟨h.callbacks ▸ h.all, h.signedFirst, fun hpending hstarted => ?_⟩
  have htimer : s.batchTimerId ∈ s.timers := by
    simpa [hstarted] using h.timer (h.running.2 hpending)
  refine ⟨htimer, ?_⟩
  have hend := Machine.run_induct (step_inv hsize) h
    [.expire s.batchTimerId, .callback s.batchTimerId]
  simpa [machine, htimer, hstarted, State.timeout, hpending, State.cancelTimer, State.signBatch]
    using hend.all

theorem run_signedOnce_two :
    SignedOnce 2 2 ((machine 2).run { batchSize := 2 }
      [.messageToSign false, .messageToSign true]) :=
  @run_signedOnce 2 (by decide) [.messageToSign false, .messageToSign true]

end Sintr.Signer
