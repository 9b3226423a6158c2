import Sintr.Client.Evidence
import Sintr.Lib.Machine

/-!
# A validating client

A validating client runs the program of another client's transaction on the reads that the other
client forwards (`ValidationClient`, and the handler of `Client2Client` for forwarded reads). It is
a state machine for one transaction in key-value mode: messages arrive, their evidence is checked,
at once or by another thread, they are handed to the program, and the program calls `Get`, `Put` and
`Commit`.

* `get`, `put`, `commit`: the program's calls.
* `step`: all events, in any interleaving.
-/

namespace Sintr.Client

open Quorum

/-! ## State -/

structure Arrival where
  msg : ForwardReadResultMessage
  processed : Bool := false
  checked : Bool := false
  deriving DecidableEq

/-- A read that no `Get` has asked for yet. -/
structure ForwardedRead where
  key : Key
  value : Bytes
  timestamp : Timestamp
  /-- It was put on the list of values that the write set has to explain. -/
  ignored : Bool
  deriving DecidableEq

/-- What the program has done and seen. -/
inductive Call where
  | put (key : Key) (value : Bytes)
  | got (key : Key) (value : Bytes) (ignored : Bool)
  deriving DecidableEq

/-- A transaction of a peer that is being validated. -/
structure Validation where
  policyType : TxnPolicyType
  involvedGroups : List Nat := []
  readSet : List ReadMessage := []
  writeSet : List WriteMessage := []
  deps : List ForwardedDep := []
  seenReads : Finset Key := ∅
  readValues : Key → Option Bytes := fun _ => none
  writeValues : List (Key × Bytes) := []
  ignoreReadsetKv : List (Key × Bytes) := []
  pendingForwardedRead : List ForwardedRead := []
  pendingGet : Option Key := none
  numPendingReads : Nat := 0
  numValidReads : Nat := 0
  commitWait : Bool := false
  finished : Bool := false
  committed : Bool := false
  crashed : Bool := false
  arrivals : List Arrival := []
  trace : List Call := []

def valuesOf (k : Key) (l : List (Key × Bytes)) : List Bytes :=
  (l.filter fun p => decide (p.1 = k)).map (·.2)

def addNew {α : Type*} [DecidableEq α] (l : List α) (a : α) : List α :=
  if a ∈ l then l else l ++ [a]

namespace Validation

section
variable (venv : ValidationEnv)

def panic (s : Validation) : Validation := { s with crashed := true }

def deliver (s : Validation) (r : ForwardedRead) : Validation :=
  { s with trace := s.trace ++ [.got r.key r.value r.ignored] }

def participate (s : Validation) (group : Nat) : Validation :=
  if group ∈ s.involvedGroups then s
  else { s with involvedGroups := s.involvedGroups ++ [group] }

/-! ## Forwarded reads -/

/-- The entry of the read set for a forwarded read (`AddReadset`). -/
def readMessage (r : ForwardReadResult) : ReadMessage :=
  if venv.params.hideTimestamps then
    { key := r.key, hashedReadtime := some ((Version.hashed? r.ts).getD []) }
  else { key := r.key, readtime := (Version.timestamp? r.ts).getD Timestamp.zero }

def readtime (r : ForwardReadResult) : Timestamp :=
  if venv.params.hideTimestamps then Timestamp.zero
  else (Version.timestamp? r.ts).getD Timestamp.zero

/-- Whether a read that is not to be added differs from the one that was added for its key. -/
def ignores (s : Validation) (r : ForwardReadResult) : Bool :=
  !r.addReadset && decide (s.readValues r.key ≠ some r.value)

def toForwarded (s : Validation) (r : ForwardReadResult) : ForwardedRead :=
  ⟨r.key, r.value, readtime venv r, s.ignores r⟩

/-- `editTxnStateCB`: `none` is a Panic, at a read that is not to be added before any was added. -/
def edit (s : Validation) (r : ForwardReadResult) : Option Validation :=
  let s := { s with deps := s.deps ++ r.dep.toList }
  if r.addReadset then
    some { s with
      numPendingReads := s.numPendingReads + 1
      readSet := s.readSet ++ [readMessage venv r]
      readValues := Function.update s.readValues r.key (some r.value) }
  else
    match s.readValues r.key with
    | none => none
    | some value =>
      if value = r.value then some s
      else some { s with ignoreReadsetKv := s.ignoreReadsetKv ++ [(r.key, r.value)] }

/-- `ProcessForwardReadResult`: the value goes to the `Get` that waits for it, or is kept. -/
def process (s : Validation) (r : ForwardReadResult) : Validation :=
  match s.edit venv r with
  | none => s.panic
  | some s' =>
    if s.pendingGet = some r.key then
      { s'.deliver (s.toForwarded venv r) with pendingGet := none }
    else
      { s' with pendingForwardedRead := s'.pendingForwardedRead ++ [s.toForwarded venv r] }

/-- The first half of `HandleForwardReadResultMessage`: the evidence of a read that is added is
checked here, unless another thread does it. -/
def receive (s : Validation) (msg : ForwardReadResultMessage) : Validation :=
  if msg.result.addReadset && venv.clientCheckEvidence && !venv.parallelQuerySigsCheck then
    if readSigHelper venv msg = .accept then
      { s with arrivals := s.arrivals ++ [{ msg, checked := true }] }
    else s.panic
  else { s with arrivals := s.arrivals ++ [{ msg }] }

/-- The second half, for the message at position `i`. -/
def handle (s : Validation) (i : Nat) : Validation :=
  match s.arrivals[i]? with
  | none => s
  | some x =>
    if x.processed then s
    else { s with arrivals := s.arrivals.set i { x with processed := true } }.process venv
      x.msg.result

/-- The evidence check of another thread, and `NotifyForwardReadResultValid`. -/
def check (s : Validation) (i : Nat) : Validation :=
  match s.arrivals[i]? with
  | none => s
  | some x =>
    if x.checked || !(x.msg.result.addReadset && venv.clientCheckEvidence &&
        venv.parallelQuerySigsCheck) then s
    else if readSigHelper venv x.msg = .accept then
      let s := { s with
        numValidReads := s.numValidReads + 1
        arrivals := s.arrivals.set i { x with checked := true } }
      if s.commitWait && s.numPendingReads == s.numValidReads then
        { s with commitWait := false, committed := true }
      else s
    else s.panic

/-! ## Calls of the program -/

/-- `Get`: an earlier result for the key is used up, else the program waits. -/
def get (s : Validation) (key : Key) (group : Nat) : Validation :=
  let s := s.participate group
  let s := { s with seenReads := insert key s.seenReads }
  match s.pendingForwardedRead.find? fun r => decide (r.key = key) with
  | some r =>
    { s.deliver r with
      pendingForwardedRead := s.pendingForwardedRead.eraseP fun r => decide (r.key = key) }
  | none => { s with pendingGet := some key }

def put (s : Validation) (key : Key) (value : Bytes) (group : Nat) : Validation :=
  let w : WriteMessage := { key, value := some value }
  let s : Validation := { s with
    writeSet := s.writeSet ++ [w]
    writeValues := s.writeValues ++ [(key, value)]
    trace := s.trace ++ [.put key value] }
  match s.policyType with
  | .none => s.participate group
  | .policyIdPolicy => (List.range venv.config.groups).foldl participate s

/-- The keys of the read set against those the program has read. -/
def readsMatch (s : Validation) : Bool :=
  let readsInReadset := (s.readSet.map (·.key)).toFinset
  if !venv.params.cacheReadSet && venv.params.mergeActiveAtClient then
    decide (s.seenReads ⊆ readsInReadset)
  else decide (readsInReadset = s.seenReads)

/-- The values that were not to be added appear, key by key and in order, among those put. -/
def ignoredWritten (s : Validation) : Bool :=
  s.ignoreReadsetKv.all fun p =>
    (valuesOf p.1 s.ignoreReadsetKv).isSublist (valuesOf p.1 s.writeValues)

def commit (s : Validation) : Validation :=
  if !s.pendingForwardedRead.isEmpty || !s.readsMatch venv || !s.ignoredWritten then s.panic
  else if venv.parallelQuerySigsCheck && decide (s.numValidReads < s.numPendingReads) then
    { s with finished := true, commitWait := true }
  else { s with finished := true, committed := true }

end

end Validation

/-! ## Events -/

inductive ValidationEvent where
  | receive (msg : ForwardReadResultMessage)
  | handle (i : Nat)
  | check (i : Nat)
  | get (key : Key) (group : Nat)
  | put (key : Key) (value : Bytes) (group : Nat)
  | commit

def Validation.runnable (s : Validation) : Bool := s.pendingGet.isNone && !s.finished

def Validation.step (venv : ValidationEnv) (s : Validation) (e : ValidationEvent) : Validation :=
  if s.crashed then s
  else
    match e with
    | .receive msg => s.receive venv msg
    | .handle i => s.handle venv i
    | .check i => s.check venv i
    | .get key group => if s.runnable then s.get key group else s
    | .put key value group => if s.runnable then s.put venv key value group else s
    | .commit => if s.runnable then s.commit venv else s

def validationMachine (venv : ValidationEnv) : Machine Validation ValidationEvent :=
  ⟨Validation.step venv⟩

end Sintr.Client
