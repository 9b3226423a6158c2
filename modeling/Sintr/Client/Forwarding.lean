import Sintr.Client.OwnWrites
import Sintr.Client.Validation

/-!
# The reads a client forwards

The client that runs a transaction forwards the answer of every `Get` to the clients that validate
it (`Client::Get`, `SendForwardReadResultMessage`). At `Commit` it computes the digest that it
expects them to sign.
-/

namespace Sintr.Client

open Sorting List Option

/-! ## Forwarding a read -/

structure ReadReply extends Reply where
  dep : Option ForwardedDep := none
  proof : Option CommittedProof := none
  signedWrite : Option SignedMessage := none

def timestampDigest (H : HashFn) (ts : Timestamp) : Bytes := H (timestampBytes ts)

/-- The message for an answer to a read. Only an answer of the replicas comes with evidence: the
dependency, or a commit proof and the signed write. -/
def forwardReadResult (env : Env) (key : Key) (a : Answer) (reply : ReadReply) :
    ForwardReadResultMessage :=
  if a.addReadSet then
    { result :=
        { key, value := a.value, dep := reply.dep, addReadset := true
          ts := some (if env.params.hideTimestamps then .hashed (timestampDigest env.H a.timestamp)
            else .timestamp a.timestamp) }
      proof := if reply.dep.isNone && env.params.validateProofs then reply.proof else none
      write :=
        if reply.dep.isNone && env.params.signedMessages && !a.value.isEmpty then
          reply.signedWrite.map .inr
        else some (.inl {}) }
  else
    { result :=
        { key, value := a.value
          ts := if env.params.hideTimestamps then none else some (.timestamp a.timestamp) } }

/-- The assertions on the way: a value that is not empty needs a dependency or a proof. -/
def forwardable (params : Params) (a : Answer) (reply : ReadReply) : Bool :=
  !a.addReadSet || reply.dep.isSome || a.value.isEmpty ||
    params.signedMessages && (!params.validateProofs || reply.proof.isSome)

/-! ## The client -/

structure Initiator (n : Nat) where
  client : State n
  deps : List ForwardedDep := []
  returned : List (Key × Bytes) := []
  sent : List ForwardReadResultMessage := []

/-- A call of the program, with the replies of the replicas and the groups that the partitioner
chooses at the two clients. A `Put` that pulls a policy reads its key with the reply `pull`. -/
structure ProgramCall (n : Nat) where
  op : Op n
  reply : ReadReply := { value := [], timestamp := Timestamp.zero }
  pull : Option (Fin n × ReadReply) := none
  validatorGroup : Fin n

namespace Initiator

variable {n : Nat} (env : Env)

/-- A read, which is forwarded; `none` stops the client. -/
def read (s : Initiator n) (key : Key) (group : Fin n) (reply : ReadReply) :
    Option (Initiator n × Answer) :=
  let r := s.client.get key group reply.toReply
  if forwardable env.params r.2 reply then
    some ({ s with
      client := r.1
      deps := s.deps ++ if r.2.addReadSet then reply.dep.toList else []
      sent := s.sent ++ [forwardReadResult env key r.2 reply] }, r.2)
  else none

def get (s : Initiator n) (key : Key) (group : Fin n) (reply : ReadReply) : Option (Initiator n) :=
  (s.read env key group reply).map fun r =>
    { r.1 with returned := r.1.returned ++ [(key, r.2.value)] }

/-- `Put`. A policy is pulled by a read, unless policies are what is written: then the answer comes
from the write just buffered and is not forwarded. -/
def put (s : Initiator n) (key : Key) (value : Bytes) (group : Fin n)
    (pull : Option (Fin n × ReadReply)) : Option (Initiator n) :=
  let s := { s with client := s.client.put key value group }
  match pull with
  | some (g, reply) =>
    if s.client.policyType = .none then (s.read env key g reply).map (·.1) else some s
  | none => some s

def call (s : Initiator n) (c : ProgramCall n) : Option (Initiator n) :=
  match c.op with
  | .put key value group => s.put env key value group c.pull
  | .get key group => s.get env key group c.reply

end Initiator

def initiate {n : Nat} (env : Env) (s : Initiator n) (calls : List (ProgramCall n)) :
    Option (Initiator n) :=
  calls.foldlM (Initiator.call env) s

/-! ## Digests -/

/-- What a client is told at the start of a transaction, and tells those who validate it. -/
structure TxnStart where
  clientId : UInt64
  clientSeqNum : UInt64
  timestamp : Timestamp
  policyType : TxnPolicyType

def ForwardedDep.toDependency (d : ForwardedDep) : Dependency where
  preparedTxnDigest := d.write.preparedTxnDigest.getD []
  preparedTimestamp := (Version.timestamp? d.write.preparedTs).getD Timestamp.zero
  involvedGroup := d.involvedGroup

def sortedGroups (gs : List Nat) : List GroupId := (gs.insertionSort (· ≤ ·)).map UInt64.ofNat

/-- Both clients sort the participants, and with `parallelCCC` the read set and the write set. -/
def sortTransaction (params : Params) (sort : KeySort Key) (txn : Transaction) (gs : List Nat) :
    Transaction :=
  { txn with
    involvedGroups := sortedGroups gs
    readSet := if params.parallelCCC then sort.apply (·.key) txn.readSet else txn.readSet
    writeSet := if params.parallelCCC then sort.apply (·.key) txn.writeSet else txn.writeSet }

/-- An entry of the client's read set; a digest that is empty is not set. -/
def recordedRead (env : Env) (r : ReadMessage) : ReadMessage :=
  { r with
    hashedReadtime :=
      if env.params.hideTimestamps && !(timestampDigest env.H r.readtime).isEmpty then
        some (timestampDigest env.H r.readtime)
      else none }

def Initiator.transaction {n : Nat} (env : Env) (sort : KeySort Key) (start : TxnStart)
    (s : Initiator n) : Transaction :=
  sortTransaction env.params sort
    { clientId := start.clientId
      clientSeqNum := start.clientSeqNum
      readSet := s.client.readSet.map (recordedRead env)
      writeSet := s.client.writeSet
      deps := s.deps.map (·.toDependency)
      timestamp := start.timestamp
      hashedTimestamp :=
        if env.params.hideTimestamps then timestampDigest env.H start.timestamp else []
      policyType := start.policyType }
    (s.client.involvedGroups.map (·.val))

def Validation.transaction (env : Env) (sort : KeySort Key) (start : TxnStart) (s : Validation) :
    Transaction :=
  sortTransaction env.params sort
    { clientId := start.clientId
      clientSeqNum := start.clientSeqNum
      readSet := s.readSet
      writeSet := s.writeSet
      deps := s.deps.map (·.toDependency)
      timestamp := if env.params.hideTimestamps then Timestamp.zero else start.timestamp
      hashedTimestamp :=
        if env.params.hideTimestamps then timestampDigest env.H start.timestamp else []
      policyType := s.policyType }
    s.involvedGroups

/-! ## What a program reads -/

section
variable {n : Nat}

def Op.group : Op n → Fin n
  | .put _ _ group => group
  | .get _ group => group

def Op.read? : Op n → Option Key
  | .put .. => none
  | .get key _ => some key

def Op.isGet (k : Key) (g : Fin n) : Op n → Bool
  | .put .. => false
  | .get key group => decide (key = k) && decide (group = g)

def gets (calls : List (ProgramCall n)) : List Key := calls.filterMap fun c => c.op.read?

def ProgramCall.pulls (t : TxnPolicyType) (c : ProgramCall n) : Bool :=
  match c.op with
  | .put .. => c.pull.isSome && decide (t = .none)
  | .get .. => false

/-- What a `Get` of `k` at group `g` returns after `before`: the first write of `k` there, else the
reply to the first `Get` of `k` there, else a new one. -/
def answer (t : TxnPolicyType) (before : List (ProgramCall n)) (k : Key) (g : Fin n)
    (reply : Reply) : Answer :=
  match firstOf k (putsAt t g (before.map (·.op))) with
  | some v => ⟨v, Timestamp.zero, false⟩
  | none =>
    match before.find? fun c => c.op.isGet k g with
    | some c => ⟨c.reply.value, c.reply.timestamp, false⟩
    | none => ⟨reply.value, reply.timestamp, true⟩

/-- A `Get` with its answer, and the reply it got if the answer is new. -/
structure ProgramRead where
  key : Key
  answer : Answer
  reply : ReadReply

namespace ProgramRead

def new (r : ProgramRead) : Bool := r.answer.addReadSet

def message (env : Env) (r : ProgramRead) : ForwardReadResultMessage :=
  forwardReadResult env r.key r.answer r.reply

def result (r : ProgramRead) : Key × Bytes := (r.key, r.answer.value)

end ProgramRead

def reads (t : TxnPolicyType) (calls : List (ProgramCall n)) : List ProgramRead :=
  flatMapAfter (fun before c =>
    match c.op with
    | .put .. => []
    | .get k g => [⟨k, answer t before k g c.reply.toReply, c.reply⟩]) calls

/-- The groups that a call adds, if the partitioner chooses `own`. -/
def ProgramCall.touched (t : TxnPolicyType) (c : ProgramCall n) (own : Fin n) : List (Fin n) :=
  match t, c.op with
  | .policyIdPolicy, .put .. => List.finRange n
  | _, _ => [own]

def participants (t : TxnPolicyType) (own : ProgramCall n → Fin n) (calls : List (ProgramCall n)) :
    List (Fin n) :=
  (calls.flatMap fun c => c.touched t (own c)).foldl addNew []

theorem reads_snoc (t : TxnPolicyType) (calls : List (ProgramCall n)) (c : ProgramCall n) :
    reads t (calls ++ [c]) = reads t calls ++
      match c.op with
      | .put .. => []
      | .get k g => [⟨k, answer t calls k g c.reply.toReply, c.reply⟩] :=
  flatMapAfter_snoc

theorem gets_snoc (calls : List (ProgramCall n)) (c : ProgramCall n) :
    gets (calls ++ [c]) = gets calls ++ c.op.read?.toList := by
  cases h : c.op.read? <;> simp [gets, h]

theorem participants_snoc (t : TxnPolicyType) (own : ProgramCall n → Fin n)
    (calls : List (ProgramCall n)) (c : ProgramCall n) :
    participants t own (calls ++ [c]) =
      (c.touched t (own c)).foldl addNew (participants t own calls) := by
  simp [participants]

theorem reads_keys (t : TxnPolicyType) (calls : List (ProgramCall n)) :
    (reads t calls).map (·.key) = gets calls := by
  induction calls using reverseRecOn with
  | nil => rfl
  | append_singleton calls c ih =>
    rw [reads_snoc, gets_snoc, map_append, ih]
    cases hop : c.op <;> simp [Op.read?]

end

/-! ## The buffers of a program -/

section
variable {n : Nat} {t : TxnPolicyType} {d : List (ProgramCall n)} {c : ProgramCall n} {g : Fin n}
  {sc : ShardClient}

/-- The shard client of `g` has the writes of the calls `d` that went there, and of the keys it has
no write of the first reads. -/
structure Remembers (t : TxnPolicyType) (d : List (ProgramCall n)) (g : Fin n) (sc : ShardClient) :
    Prop where
  writeSet : sc.writeSet = (putsAt t g (d.map (·.op))).map toWrite
  readValues : ∀ k, firstOf k (putsAt t g (d.map (·.op))) = none →
    sc.readValues k = (d.find? fun c => c.op.isGet k g).map (·.reply.value)
  readSet : ∀ k, firstOf k (putsAt t g (d.map (·.op))) = none →
    (sc.readSet.find? fun r => decide (r.key = k)).map (·.readtime) =
      (d.find? fun c => c.op.isGet k g).map (·.reply.timestamp)

theorem Remembers.get_answer (h : Remembers t d g sc) (k : Key) (reply : Reply) :
    (sc.get k reply).2 = answer t d k g reply := by
  have hfirst := find?_toWrite k (putsAt t g (d.map (·.op)))
  rw [← h.writeSet] at hfirst
  unfold ShardClient.get ShardClient.bufferGet answer
  rw [← hfirst]
  cases hw : sc.writeSet.find? fun w => decide (w.key = k) with
  | some w => rfl
  | none =>
    rw [hw, map_none] at hfirst
    have hvalues := h.readValues k hfirst.symm
    have hreads := h.readSet k hfirst.symm
    cases hfind : d.find? fun c => c.op.isGet k g with
    | some c' =>
      rw [hfind] at hvalues hreads
      obtain ⟨r, hr, htime⟩ := map_eq_some_iff.1 hreads
      simp only [map_none, hr, hvalues, map_some, getD_some, htime]
    | none =>
      rw [hfind] at hvalues hreads
      rw [map_none] at hvalues hreads
      simp only [map_none, map_eq_none_iff.1 hreads, hvalues]

theorem putsAt_snoc_none (h : c.op.writtenAt t g = none) :
    putsAt t g ((d ++ [c]).map (·.op)) = putsAt t g (d.map (·.op)) := by
  simp [putsAt, h]

/-- A call that is no read at the shard client, and writes `l` there. -/
theorem Remembers.keep {l : List (Key × Bytes)} (h : Remembers t d g sc)
    (hget : ∀ k, c.op.isGet k g = false)
    (hputs : putsAt t g ((d ++ [c]).map (·.op)) = putsAt t g (d.map (·.op)) ++ l) :
    Remembers t (d ++ [c]) g { sc with writeSet := sc.writeSet ++ l.map toWrite } := by
  have hfind (k : Key) : ((d ++ [c]).find? fun c => c.op.isGet k g) =
      d.find? fun c => c.op.isGet k g := by
    simp [find?_append, hget]
  have hnone {k : Key} (hk : firstOf k (putsAt t g ((d ++ [c]).map (·.op))) = none) :
      firstOf k (putsAt t g (d.map (·.op))) = none := by
    rw [hputs] at hk
    simp only [firstOf, find?_append, map_eq_none_iff, or_eq_none_iff] at hk ⊢
    exact hk.1
  refine ⟨by rw [hputs, map_append, ← h.writeSet], fun k hk => ?_, fun k hk => ?_⟩
  · rw [hfind]
    exact h.readValues k (hnone hk)
  · rw [hfind]
    exact h.readSet k (hnone hk)

theorem Remembers.other (h : Remembers t d g sc) (hput : c.op.writtenAt t g = none)
    (hget : ∀ k, c.op.isGet k g = false) : Remembers t (d ++ [c]) g sc := by
  have hkeep := h.keep (l := []) hget (by rw [putsAt_snoc_none hput, append_nil])
  simpa using hkeep

theorem Remembers.put (h : Remembers t d g sc) {k : Key} {v : Bytes}
    (hput : c.op.writtenAt t g = some (k, v)) (hget : ∀ k, c.op.isGet k g = false) :
    Remembers t (d ++ [c]) g (sc.put k v) :=
  h.keep (l := [(k, v)]) hget (by simp [putsAt, hput])

theorem Remembers.get (h : Remembers t d g sc) {k : Key} (hop : c.op = .get k g) :
    Remembers t (d ++ [c]) g (sc.get k c.reply.toReply).1 := by
  have hputs : putsAt t g ((d ++ [c]).map (·.op)) = putsAt t g (d.map (·.op)) :=
    putsAt_snoc_none (by rw [hop]; rfl)
  have hself : c.op.isGet k g = true := by simp [hop, Op.isGet]
  have hother {k' : Key} (hk : k' ≠ k) : c.op.isGet k' g = false := by
    simp [hop, Op.isGet, Ne.symm hk]
  -- the shard client is as before, unless the key is neither written nor read there
  by_cases hold : firstOf k (putsAt t g (d.map (·.op))) = none ∧
      (d.find? fun c => c.op.isGet k g) = none
  · obtain ⟨hw, hfind⟩ := hold
    have hvalues := h.readValues k hw
    have hreads := h.readSet k hw
    rw [hfind, map_none] at hvalues hreads
    have hwrites : (sc.writeSet.find? fun w => decide (w.key = k)) = none := by
      have hfirst := find?_toWrite k (putsAt t g (d.map (·.op)))
      rw [← h.writeSet, hw] at hfirst
      exact map_eq_none_iff.1 hfirst
    have hget : sc.get k c.reply.toReply =
        ({ sc with
            readSet := sc.readSet ++ [{ key := k, readtime := c.reply.timestamp }]
            readValues := Function.update sc.readValues k (some c.reply.value) },
          ⟨c.reply.value, c.reply.timestamp, true⟩) := by
      simp only [ShardClient.get, ShardClient.bufferGet, hwrites, map_eq_none_iff.1 hreads,
        hvalues]
    rw [hget]
    refine ⟨by rw [hputs]; exact h.writeSet, fun k' hk => ?_, fun k' hk => ?_⟩
    · rw [hputs] at hk
      by_cases hkk : k' = k
      · subst hkk
        simp [find?_append, hfind, hself]
      · simp only [Function.update_of_ne hkk, h.readValues k' hk]
        simp [find?_append, hother hkk]
    · rw [hputs] at hk
      by_cases hkk : k' = k
      · subst hkk
        simp [find?_append, hfind, hself, map_eq_none_iff.1 hreads]
      · have hreads' := h.readSet k' hk
        simp only [find?_append, Ne.symm hkk, decide_false, find?_cons, find?_nil,
          or_none, hother hkk]
        exact hreads'
  · have hsame : (sc.get k c.reply.toReply).1 = sc := by
      have hanswer := h.get_answer k c.reply.toReply
      have hnew : (answer t d k g c.reply.toReply).addReadSet = false := by
        unfold answer
        split
        · rfl
        · rename_i hw
          split
          · rfl
          · rename_i hfind
            exact absurd ⟨hw, hfind⟩ hold
      rw [← hanswer] at hnew
      unfold ShardClient.get at hnew ⊢
      split
      · rfl
      · rename_i hbuf
        simp only [hbuf] at hnew
        split
        · rfl
        · rename_i hvalues
          simp only [hvalues] at hnew
          cases hnew
    rw [hsame]
    have hfind {k' : Key} (hk : firstOf k' (putsAt t g (d.map (·.op))) = none) :
        ((d ++ [c]).find? fun c => c.op.isGet k' g) = d.find? fun c => c.op.isGet k' g := by
      by_cases hkk : k' = k
      · subst hkk
        obtain ⟨c', hc'⟩ := ne_none_iff_exists'.1 fun hnone => hold ⟨hk, hnone⟩
        simp [find?_append, hc']
      · simp [find?_append, hother hkk]
    refine ⟨by rw [hputs]; exact h.writeSet, fun k' hk => ?_, fun k' hk => ?_⟩
    · rw [hputs] at hk
      rw [hfind hk]
      exact h.readValues k' hk
    · rw [hputs] at hk
      rw [hfind hk]
      exact h.readSet k' hk

end

/-! ## The client's run -/

section
variable {n : Nat} {c : State n} {t : TxnPolicyType} {d : List (ProgramCall n)}
  {call : ProgramCall n} {k : Key} {v : Bytes} {g : Fin n}

theorem put_spec (c : State n) (k : Key) (v : Bytes) (g : Fin n) :
    (c.put k v g).policyType = c.policyType ∧ (c.put k v g).readSet = c.readSet ∧
      (c.put k v g).writeSet = c.writeSet ++ [toWrite (k, v)] ∧
      (c.put k v g).involvedGroups = (match c.policyType with
        | .none => [g]
        | .policyIdPolicy => finRange n).foldl addNew c.involvedGroups := by
  have hfold (gs : List (Fin n)) (c : State n) :
      (gs.foldl (State.putAt k v) c).readSet = c.readSet ∧
        (gs.foldl (State.putAt k v) c).involvedGroups = gs.foldl addNew c.involvedGroups := by
    induction gs generalizing c with
    | nil => exact ⟨rfl, rfl⟩
    | cons i gs ih =>
      obtain ⟨hreads, hgroups⟩ := ih (State.putAt k v c i)
      have hat : (State.putAt k v c i).readSet = c.readSet ∧
          (State.putAt k v c i).involvedGroups = addNew c.involvedGroups i := by
        unfold State.putAt State.participate addNew
        split <;> exact ⟨rfl, rfl⟩
      rw [hat.2] at hgroups
      exact ⟨hreads.trans hat.1, hgroups⟩
  have hput : c.put k v g = (match c.policyType with
      | .none => [g]
      | .policyIdPolicy => finRange n).foldl (State.putAt k v)
        { c with writeSet := c.writeSet ++ [toWrite (k, v)] } := by
    unfold State.put
    cases c.policyType <;> rfl
  rw [hput]
  obtain ⟨hwrites, htype⟩ := foldl_putAt_writeSet k v
    { c with writeSet := c.writeSet ++ [toWrite (k, v)] } (match c.policyType with
      | .none => [g]
      | .policyIdPolicy => finRange n)
  obtain ⟨hreads, hgroups⟩ := hfold (match c.policyType with
      | .none => [g]
      | .policyIdPolicy => finRange n) { c with writeSet := c.writeSet ++ [toWrite (k, v)] }
  exact ⟨htype, hreads, hwrites, hgroups⟩

theorem get_spec (c : State n) (k : Key) (g : Fin n) (reply : Reply) :
    (c.get k g reply).1.policyType = c.policyType ∧
      (c.get k g reply).1.writeSet = c.writeSet ∧
      (c.get k g reply).1.involvedGroups = addNew c.involvedGroups g ∧
      (c.get k g reply).1.readSet = c.readSet ++
        if (c.get k g reply).2.addReadSet then
          [{ key := k, readtime := (c.get k g reply).2.timestamp }]
        else [] := by
  have hpart : (c.participate g).policyType = c.policyType ∧
      (c.participate g).writeSet = c.writeSet ∧ (c.participate g).readSet = c.readSet ∧
      (c.participate g).involvedGroups = addNew c.involvedGroups g := by
    unfold State.participate addNew
    split <;> exact ⟨rfl, rfl, rfl, rfl⟩
  refine ⟨hpart.1, hpart.2.1, hpart.2.2.2, ?_⟩
  simp only [State.get, hpart.2.2.1]
  split <;> simp

theorem EachShard.remembers_put (h : EachShard (Remembers t d) c) (htype : c.policyType = t)
    (hop : call.op = .put k v g) : EachShard (Remembers t (d ++ [call])) (c.put k v g) := by
  have hget (k' : Key) (g' : Fin n) : call.op.isGet k' g' = false := by rw [hop]; rfl
  have hstart : EachShard (Remembers t d)
      { c with writeSet := c.writeSet ++ [toWrite (k, v)] } := ⟨h.holds, h.fresh⟩
  cases t with
  | none =>
    have hcall : c.put k v g =
        State.putAt k v { c with writeSet := c.writeSet ++ [toWrite (k, v)] } g := by
      simp only [State.put, htype]
      rfl
    rw [hcall]
    refine hstart.putAt (fun sc hsc => hsc.put ?_ fun k' => hget k' g)
      fun g' hg' sc hsc => hsc.other ?_ fun k' => hget k' g'
    · simp [hop, Op.writtenAt]
    · simp [hop, Op.writtenAt, Ne.symm hg']
  | policyIdPolicy =>
    have hcall : c.put k v g = (finRange n).foldl (State.putAt k v)
        { c with writeSet := c.writeSet ++ [toWrite (k, v)] } := by
      simp only [State.put, htype]
      rfl
    rw [hcall]
    refine hstart.putAll (nodup_finRange n)
      (fun g' _ sc hsc => hsc.put ?_ fun k' => hget k' g')
      fun g' hg' => absurd (mem_finRange g') hg'
    simp [hop, Op.writtenAt]

theorem EachShard.remembers_get (h : EachShard (Remembers t d) c) (hop : call.op = .get k g) :
    EachShard (Remembers t (d ++ [call])) (c.get k g call.reply.toReply).1 ∧
      (c.get k g call.reply.toReply).2 = answer t d k g call.reply.toReply := by
  obtain ⟨hpart, hg⟩ := h.participate g
  refine ⟨h.get (fun sc hsc => hsc.get hop) fun g' hg' sc hsc => hsc.other ?_ fun k' => ?_,
    (hpart.holds g hg).get_answer k call.reply.toReply⟩
  · rw [hop]
    rfl
  · simp [hop, Op.isGet, Ne.symm hg']

variable {s s' : Initiator n}

theorem read_eq {env : Env} {reply : ReadReply} {r : Initiator n × Answer}
    (h : s.read env k g reply = some r) :
    r = ({ s with
      client := (s.client.get k g reply.toReply).1
      deps := s.deps ++ if (s.client.get k g reply.toReply).2.addReadSet then
        reply.dep.toList else []
      sent := s.sent ++ [forwardReadResult env k (s.client.get k g reply.toReply).2 reply] },
      (s.client.get k g reply.toReply).2) := by
  simp only [Initiator.read] at h
  split at h
  · exact (some.inj h).symm
  · cases h

structure Forwards (env : Env) (t : TxnPolicyType) (d : List (ProgramCall n)) (s : Initiator n) :
    Prop where
  txnType : s.client.policyType = t
  shards : EachShard (Remembers t d) s.client
  groups : s.client.involvedGroups = participants t (·.op.group) d
  writeSet : s.client.writeSet = (puts (d.map (·.op))).map toWrite
  readSet : s.client.readSet =
    ((reads t d).filter (·.new)).map fun r => { key := r.key, readtime := r.answer.timestamp }
  deps : s.deps = ((reads t d).filter (·.new)).flatMap (·.reply.dep.toList)
  returned : s.returned = (reads t d).map (·.result)
  sent : s.sent = (reads t d).map (·.message env)

theorem call_put_eq {env : Env} (hop : call.op = .put k v g)
    (hpull : call.pulls s.client.policyType = false) (hcall : s.call env call = some s') :
    s' = { s with client := s.client.put k v g } := by
  simp only [Initiator.call, hop, Initiator.put, (put_spec s.client k v g).1] at hcall
  cases hp : call.pull with
  | none => simpa [hp] using hcall.symm
  | some p =>
    simp only [ProgramCall.pulls, hop, hp, isSome_some, Bool.true_and,
      decide_eq_false_iff_not] at hpull
    simpa [hp, hpull] using hcall.symm

theorem Forwards.put {env : Env} (h : Forwards env t d s) (hop : call.op = .put k v g)
    (hpull : call.pulls t = false) (hcall : s.call env call = some s') :
    Forwards env t (d ++ [call]) s' := by
  have hput := call_put_eq hop (h.txnType ▸ hpull) hcall
  have hreads : reads t (d ++ [call]) = reads t d := by
    rw [reads_snoc, hop]
    exact append_nil _
  obtain ⟨htype, hreadSet, hwriteSet, hgroups⟩ := put_spec s.client k v g
  subst hput
  refine ⟨htype.trans h.txnType, h.shards.remembers_put h.txnType hop, ?_, ?_, ?_, ?_, ?_, ?_⟩
  · rw [participants_snoc, ← h.groups]
    refine hgroups.trans ?_
    rw [h.txnType]
    cases t <;> simp [ProgramCall.touched, hop, Op.group]
  · refine hwriteSet.trans ?_
    simp [h.writeSet, puts, hop, Op.written]
  · rw [hreads]
    exact hreadSet.trans h.readSet
  · rw [hreads]
    exact h.deps
  · rw [hreads]
    exact h.returned
  · rw [hreads]
    exact h.sent

theorem Forwards.get {env : Env} (h : Forwards env t d s) (hop : call.op = .get k g)
    (hcall : s.call env call = some s') :
    Forwards env t (d ++ [call]) s' := by
  obtain ⟨hshards, hanswer⟩ := h.shards.remembers_get hop
  obtain ⟨htype, hwriteSet, hgroups, hreadSet⟩ := get_spec s.client k g call.reply.toReply
  have hget : s' = { s with
      client := (s.client.get k g call.reply.toReply).1
      deps := s.deps ++ if (answer t d k g call.reply.toReply).addReadSet then
        call.reply.dep.toList else []
      sent := s.sent ++
        [forwardReadResult env k (answer t d k g call.reply.toReply) call.reply]
      returned := s.returned ++ [(k, (answer t d k g call.reply.toReply).value)] } := by
    simp only [Initiator.call, hop, Initiator.get] at hcall
    obtain ⟨r, hr, rfl⟩ := map_eq_some_iff.1 hcall
    rw [read_eq hr, hanswer]
  have hreads : reads t (d ++ [call]) =
      reads t d ++ [⟨k, answer t d k g call.reply.toReply, call.reply⟩] := by
    rw [reads_snoc, hop]
  rw [hanswer] at hreadSet
  subst hget
  refine ⟨htype.trans h.txnType, hshards, ?_, ?_, ?_, ?_, ?_, ?_⟩
  · rw [participants_snoc, ← h.groups]
    refine hgroups.trans ?_
    cases t <;> simp [ProgramCall.touched, hop, Op.group]
  · refine hwriteSet.trans (h.writeSet.trans ?_)
    simp [puts, hop, Op.written]
  · refine hreadSet.trans ?_
    rw [h.readSet, hreads]
    cases hnew : (answer t d k g call.reply.toReply).addReadSet <;>
      simp [ProgramRead.new, hnew]
  · show s.deps ++ _ = _
    rw [h.deps, hreads]
    cases hnew : (answer t d k g call.reply.toReply).addReadSet <;>
      simp [ProgramRead.new, hnew]
  · show s.returned ++ _ = _
    rw [h.returned, hreads, map_append]
    rfl
  · show s.sent ++ _ = _
    rw [h.sent, hreads, map_append]
    rfl

theorem initiate_snoc {env : Env} (h : initiate env s (d ++ [call]) = some s') :
    ∃ s₁, initiate env s d = some s₁ ∧ s₁.call env call = some s' := by
  rw [initiate, foldlM_append] at h
  obtain ⟨s₁, h₁, h₂⟩ := bind_eq_some_iff.1 h
  refine ⟨s₁, h₁, ?_⟩
  rw [foldlM_cons] at h₂
  obtain ⟨s₂, hcall, hend⟩ := bind_eq_some_iff.1 h₂
  rw [hcall]
  exact hend

/-- **What an honest client forwards**: the answers to the `Get`s of its program, in order. -/
theorem forwards_of_initiate {env : Env} (c : State n) (hpull : ∀ call ∈ d, call.pulls t = false)
    (h : initiate env { client := c.begin t } d = some s) : Forwards env t d s := by
  induction d using reverseRecOn generalizing s with
  | nil =>
    rw [← some.inj h]
    refine ⟨rfl, ⟨nofun, fun g _ => ⟨rfl, fun _ _ => rfl, fun _ _ => rfl⟩⟩, rfl, rfl, rfl, rfl, rfl,
      rfl⟩
  | append_singleton d call ih =>
    obtain ⟨s₁, h₁, hcall⟩ := initiate_snoc h
    have hd := ih (fun call hc => hpull call (mem_append_left _ hc)) h₁
    cases hop : call.op with
    | put k v g => exact hd.put hop (hpull call (by simp)) hcall
    | get k g => exact hd.get hop hcall

theorem length_sent {env : Env} (c : State n)
    (h : initiate env { client := c.begin t } d = some s) :
    s.client.policyType = t ∧ s.sent.length = (gets d).length + d.countP (·.pulls t) := by
  induction d using reverseRecOn generalizing s with
  | nil =>
    rw [← some.inj h]
    exact ⟨rfl, rfl⟩
  | append_singleton d call ih =>
    obtain ⟨s₁, h₁, hcall⟩ := initiate_snoc h
    obtain ⟨htype, hlen⟩ := ih h₁
    have hread {s : Initiator n} {k : Key} {g : Fin n} {reply : ReadReply}
        {r : Initiator n × Answer} (hr : s.read env k g reply = some r) :
        r.1.client.policyType = s.client.policyType ∧
          r.1.sent.length = s.sent.length + 1 := by
      rw [read_eq hr]
      exact ⟨(get_spec s.client k g reply.toReply).1, by simp⟩
    rw [gets_snoc, length_append, countP_append, countP_singleton]
    cases hop : call.op with
    | put k v g =>
      have hput := (put_spec s₁.client k v g).1.trans htype
      have hpulls : call.pulls t = (call.pull.isSome && decide (t = .none)) := by
        rw [ProgramCall.pulls, hop]
      rw [hpulls, Op.read?, toList_none, length_nil]
      by_cases hp : call.pull.isSome && decide (t = .none)
      · rw [if_pos hp]
        simp only [Bool.and_eq_true, decide_eq_true_eq, isSome_iff_exists] at hp
        obtain ⟨⟨p, hp⟩, ht⟩ := hp
        simp only [Initiator.call, hop, Initiator.put, hput, hp, ht, if_true] at hcall
        obtain ⟨r, hr, rfl⟩ := map_eq_some_iff.1 hcall
        obtain ⟨htype', hlen'⟩ := hread hr
        refine ⟨htype'.trans hput, ?_⟩
        rw [hlen', hlen]
        omega
      · rw [if_neg hp]
        rw [Bool.not_eq_true, ← hpulls, ← htype] at hp
        have hs := call_put_eq hop hp hcall
        subst hs
        exact ⟨hput, by rw [hlen]; omega⟩
    | get k g =>
      simp only [Initiator.call, hop, Initiator.get] at hcall
      obtain ⟨r, hr, rfl⟩ := map_eq_some_iff.1 hcall
      obtain ⟨htype', hlen'⟩ := hread hr
      refine ⟨htype'.trans htype, ?_⟩
      have hpulls : call.pulls t = false := by
        rw [ProgramCall.pulls, hop]
      rw [hpulls, if_neg Bool.false_ne_true, hlen', hlen, Op.read?, toList_some,
        length_singleton]
      omega

end

end Sintr.Client
