import Sintr.Client.Forwarding

/-!
# Reads at a shard client

A shard client asks replicas of its group for a key and waits for `rqs` replies. A reply may report
the latest committed write, with the proof that its transaction committed, and a prepared write. The
read returns the prepared write with the largest timestamp that `rds` replies report, if it is not
older than the latest committed one, and depends on it then; otherwise it returns the latter.

`HandleReadReply` counts replies without looking at who sent them, and a key that has been read in
the meantime keeps its value.
-/

namespace Sintr.Shard

open Client List Function

/-! ## Messages -/

structure PolicyMessage where
  policyId : Bytes
  policy : Bytes
  deriving DecidableEq

structure ReportedWrite extends Write where
  committedPolicy : Option PolicyMessage := none
  committedPolicyTs : Option Version := none
  deriving DecidableEq

structure ReadReply where
  reqId : UInt64
  proof : Option CommittedProof := none
  write : Option (ReportedWrite ⊕ SignedMessage) := none
  policyProof : Option CommittedProof := none
  committedTimestamp : Option Timestamp := none
  preparedTimestamp : Option Timestamp := none
  committedPolicyTimestamp : Option Timestamp := none

def ReadReply.signedWrite (r : ReadReply) : Option SignedMessage :=
  match r.write with
  | some (.inr m) => some m
  | _ => none

structure ReadEnv extends ValidationEnv where
  group : GroupId
  parseReportedWrite : Bytes → Option ReportedWrite
  readIncludePolicy : UInt64 := 0

/-! ## State -/

/-- A read that waits for replies. -/
structure PendingQuorumGet where
  key : Key
  rqs : Nat
  rds : Nat
  getFromPut : Bool := false
  maxTs : Timestamp := Timestamp.zero
  maxValue : Bytes := []
  numReplies : Nat := 0
  /-- The first prepared write with each timestamp, and how many replies agree with it. -/
  prepared : OrdMap Timestamp ReportedWrite := .empty
  preparedCount : Timestamp → Nat := fun _ => 0
  preparedSigs : Timestamp → List SignedMessage := fun _ => []
  firstCommittedReply : Bool := true
  maxCommittedProof : Option CommittedProof := none
  maxWrite : Option SignedMessage := none
  maxPolicy : Option PolicyMessage := none
  maxPolicyTs : Timestamp := Timestamp.zero
  /-- All replies so far; the code does not keep them. -/
  replies : List ReadReply := []

/-- What a read returns, and what it was told on the way. -/
structure ReadResult where
  get : PendingQuorumGet
  value : Bytes
  ts : Timestamp
  dep : Option ForwardedDep := none
  hasDep : Bool := false
  addToReadSet : Bool := false
  proof : Option CommittedProof := none
  signedWrite : Option SignedMessage := none
  policy : Option PolicyMessage := none
  tsDigest : Option Bytes := none
  policyTs : Timestamp := Timestamp.zero

structure ReadState where
  lastReqId : UInt64 := 0
  pendingGets : UInt64 → Option PendingQuorumGet := fun _ => none
  readValues : Key → Option Bytes := fun _ => none
  readSet : List (Key × Timestamp) := []
  writeSet : List WriteMessage := []
  getPolicyShardClient : Bool := false
  results : List ReadResult := []
  panicked : Bool := false

def ReadState.setGet (s : ReadState) (reqId : UInt64) (p : Option PendingQuorumGet) : ReadState :=
  { s with pendingGets := Function.update s.pendingGets reqId p }

/-! ## The handler -/

inductive Halt where
  | ignored
  | panicked
  deriving DecidableEq

section
variable (renv : ReadEnv)

def ReadEnv.signing : Bool := renv.params.validateProofs && renv.params.signedMessages

def receivedWrite (r : ReadReply) : Except Halt ReportedWrite :=
  if renv.signing then
    match r.write with
    | some (.inr m) =>
      if !renv.verifyData m.processId m.data m.signature then .error .ignored
      else
        match renv.parseReportedWrite m.data with
        | none => .error .ignored
        | some w => .ok w
    | some (.inl w) =>
      if w.committedValue.isSome then .error .ignored
      else if renv.params.verifyDeps && w.preparedValue.isSome then .error .panicked
      else .ok w
    | none => .ok {}
  else
    match r.write with
    | some (.inl w) => .ok w
    | _ => .ok {}

/-- The timestamp of a write and, if timestamps are hidden, the digest that proofs have instead. -/
def version (signed : Option Version) (plain : Option Timestamp) : Timestamp × Bytes :=
  if renv.params.hideTimestamps then
    (plain.getD Timestamp.zero, (Version.hashed? signed).getD [])
  else ((Version.timestamp? signed).getD Timestamp.zero, [])

def validateProof (proof : Option CommittedProof) (key : Key) (value : Bytes)
    (v : Timestamp × Bytes) : Except Halt Unit :=
  if !renv.params.validateProofs then .ok ()
  else
    match proof with
    | none => .error .ignored
    | some proof =>
      match validateTransactionWrite renv.toValidationEnv proof (renv.toEnv.digest proof.txn) key
          value v.1 v.2 with
      | .accept => .ok ()
      | .panic => .error .panicked
      | _ => .error .ignored

def committed? (r : ReadReply) (w : ReportedWrite) : Option Bytes :=
  if (Version.timestamp? w.committedTs).isSome || r.committedTimestamp.isSome then w.committedValue
  else none

def PendingQuorumGet.takeCommitted (p : PendingQuorumGet) (r : ReadReply) (m : SignedMessage)
    (value : Bytes) (ts : Timestamp) : PendingQuorumGet :=
  { p with
    maxTs := ts
    maxValue := value
    maxCommittedProof := r.proof.or p.maxCommittedProof
    maxWrite := some m }

/-- The policy of a committed value: it has to have been asked for. -/
def notePolicy (s : ReadState) (r : ReadReply) (w : ReportedWrite) (p : PendingQuorumGet) :
    Except Halt PendingQuorumGet :=
  match w.committedPolicy with
  | none => .ok p
  | some policy =>
    if !(renv.readIncludePolicy > 0 && r.reqId % renv.readIncludePolicy == 0 ||
        s.getPolicyShardClient) then .error .panicked
    else
      let v := version renv w.committedPolicyTs r.committedPolicyTimestamp
      match validateProof renv r.policyProof policy.policyId policy.policy v with
      | .error halt => .error halt
      | .ok () =>
        if p.firstCommittedReply || p.maxPolicyTs < v.1 then
          .ok { p with maxPolicyTs := v.1, maxPolicy := some policy }
        else .ok p

/-- The committed part of a reply: the read afterwards, and why the reply is left there. A committed
value counts as seen only after its policy was validated. -/
def noteCommitted (s : ReadState) (r : ReadReply) (w : ReportedWrite) (p : PendingQuorumGet) :
    PendingQuorumGet × Option Halt :=
  match committed? r w with
  | none => (p, none)
  | some value =>
    let v := version renv w.committedTs r.committedTimestamp
    match validateProof renv r.proof p.key value v with
    | .error halt => (p, some halt)
    | .ok () =>
      let newer := p.firstCommittedReply || p.maxTs < v.1
      if newer && r.signedWrite.isNone then (p, some .panicked)
      else
        let p := if newer then p.takeCommitted r (r.signedWrite.getD default) value v.1 else p
        match notePolicy renv s r w p with
        | .error halt => (p, some halt)
        | .ok p => ({ p with firstCommittedReply := false }, none)

def prepared? (r : ReadReply) (w : ReportedWrite) : Bool :=
  renv.params.depsEnabled && w.preparedValue.isSome &&
    ((Version.timestamp? w.preparedTs).isSome || r.preparedTimestamp.isSome) &&
    w.preparedTxnDigest.isSome

/-- One more reply reports the prepared write with the timestamp. A reply that is not signed is
filed under the signature of the latest committed write. -/
def PendingQuorumGet.countPrepared (p : PendingQuorumGet) (signing : Bool) (r : ReadReply)
    (ts : Timestamp) : PendingQuorumGet :=
  { p with
    preparedCount := Function.update p.preparedCount ts (p.preparedCount ts + 1)
    preparedSigs := if signing then Function.update p.preparedSigs ts
        (p.preparedSigs ts ++ [(r.signedWrite.or p.maxWrite).getD default])
      else p.preparedSigs }

def notePrepared (r : ReadReply) (w : ReportedWrite) (p : PendingQuorumGet) : PendingQuorumGet :=
  if prepared? renv r w then
    let ts := (version renv w.preparedTs r.preparedTimestamp).1
    match p.prepared.find ts with
    | none => { p with prepared := p.prepared.insertNew ts w }.countPrepared renv.signing r ts
    | some w' =>
      if w'.toWrite.samePrepared w.toWrite then p.countPrepared renv.signing r ts else p
  else p

/-- The prepared write that a read returns: the latest one that enough replies report, unless a
committed one is later. -/
def choosePrepared (p : PendingQuorumGet) : Option (Timestamp × ReportedWrite) :=
  if renv.params.depsEnabled then
    p.prepared.lastGE p.maxTs fun e => decide (p.rds ≤ p.preparedCount e.1)
  else none

/-- Where timestamps are hidden, a proof is passed on without them. -/
def removeTsfromTx (txn : Transaction) : Transaction :=
  { txn with
    timestamp := Timestamp.zero
    readSet := txn.readSet.map fun r => { r with readtime := Timestamp.zero }
    readPredicates := txn.readPredicates.map fun p => { p with tableVersion := Timestamp.zero } }

/-- What a read has found: evidence for a committed value is cleared if a prepared one is taken. -/
def found (p : PendingQuorumGet) : ReadResult :=
  match choosePrepared renv p with
  | some (ts, w) =>
    { get := p
      value := w.preparedValue.getD p.maxValue
      ts
      dep := some ⟨w.toWrite, if renv.signing then p.preparedSigs ts else [], renv.group⟩
      hasDep := !p.getFromPut
      addToReadSet := !p.getFromPut
      proof := p.maxCommittedProof.map fun _ => default
      signedWrite := p.maxWrite.map fun _ => default
      policy := p.maxPolicy
      tsDigest := some (if renv.params.hideTimestamps then timestampDigest renv.H ts else [])
      policyTs := p.maxPolicyTs }
  | none =>
    { get := p
      value := p.maxValue
      ts := p.maxTs
      addToReadSet := !p.getFromPut
      proof := if renv.params.hideTimestamps then
          p.maxCommittedProof.map fun proof => { proof with txn := removeTsfromTx proof.txn }
        else p.maxCommittedProof
      signedWrite := p.maxWrite
      policy := p.maxPolicy
      tsDigest := some (if renv.params.hideTimestamps then timestampDigest renv.H p.maxTs else [])
      policyTs := p.maxPolicyTs }

/-- The end of a read. A key is read once: another read of it that was under way gets the same
value, and leaves no trace. -/
def complete (reqId : UInt64) (p : PendingQuorumGet) (s : ReadState) : ReadState :=
  let r := found renv p
  let s := s.setGet reqId none
  match s.readValues p.key with
  | none =>
    { s with
      readValues := Function.update s.readValues p.key (some r.value)
      readSet := s.readSet ++ [(p.key, r.ts)]
      results := s.results ++ [r] }
  | some value =>
    { s with results := s.results ++ [{ get := p, value, ts := Timestamp.zero, dep := r.dep }] }

def handleReadReply (r : ReadReply) (s : ReadState) : ReadState :=
  match s.pendingGets r.reqId with
  | none => s
  | some p =>
    let p := { p with replies := p.replies ++ [r] }
    match receivedWrite renv r with
    | .error .panicked => { s with panicked := true }
    | .error .ignored => s.setGet r.reqId (some p)
    | .ok w =>
      let p := { p with numReplies := p.numReplies + 1 }
      match noteCommitted renv s r w p with
      | (_, some .panicked) => { s with panicked := true }
      | (p, some .ignored) => s.setGet r.reqId (some p)
      | (p, none) =>
        let p := notePrepared renv r w p
        if p.rqs ≤ p.numReplies then complete renv r.reqId p s else s.setGet r.reqId (some p)

/-! ## Runs -/

inductive ReadEvent where
  | begin
  /-- `Get`; what the transaction has written or read already comes from its buffer. -/
  | get (key : Key) (rqs rds : Nat) (getFromPut : Bool)
  | put (key : Key) (value : Bytes)
  | timeout (reqId : UInt64)
  | setPolicyShardClient (value : Bool)
  | readReply (r : ReadReply)

def readStep (s : ReadState) : ReadEvent → ReadState
  | .begin => { s with readValues := fun _ => none, readSet := [], writeSet := [], results := [] }
  | .get key rqs rds getFromPut =>
    if s.writeSet.any (·.key == key) || s.readSet.any (·.1 == key) then s
    else
      { s.setGet s.lastReqId (some { key, rqs, rds, getFromPut }) with
        lastReqId := s.lastReqId + 1 }
  | .put key value => { s with writeSet := s.writeSet ++ [{ key, value := some value }] }
  | .timeout reqId => s.setGet reqId none
  | .setPolicyShardClient value => { s with getPolicyShardClient := value }
  | .readReply r => handleReadReply renv r s

def readMachine : Machine ReadState ReadEvent where
  step s e := if s.panicked then s else readStep renv s e

/-! ## What a read is told -/

def accepted (r : ReadReply) : Bool := (receivedWrite renv r).isOk

def validated? (key : Key) (r : ReadReply) : Option (Timestamp × Bytes) :=
  match receivedWrite renv r with
  | .error _ => none
  | .ok w =>
    match committed? r w with
    | none => none
    | some value =>
      let v := version renv w.committedTs r.committedTimestamp
      if (validateProof renv r.proof key value v).isOk then some (v.1, value) else none

def policyValidated (r : ReadReply) : Bool :=
  match receivedWrite renv r with
  | .error _ => false
  | .ok w =>
    match w.committedPolicy with
    | none => true
    | some policy =>
      (validateProof renv r.policyProof policy.policyId policy.policy
        (version renv w.committedPolicyTs r.committedPolicyTimestamp)).isOk

def reportsPrepared (ts : Timestamp) (w : Write) (r : ReadReply) : Bool :=
  match receivedWrite renv r with
  | .error _ => false
  | .ok w' =>
    prepared? renv r w' && decide ((version renv w'.preparedTs r.preparedTimestamp).1 = ts) &&
      w.samePrepared w'.toWrite

def NoLater (p : PendingQuorumGet) (ts : Timestamp) : Prop :=
  ∀ r ∈ p.replies, ∀ e, validated? renv p.key r = some e → policyValidated renv r = true → e.1 ≤ ts

def Latest (p : PendingQuorumGet) (ts : Timestamp) (value : Bytes) : Prop :=
  (∃ r ∈ p.replies, validated? renv p.key r = some (ts, value)) ∨
    (∀ r ∈ p.replies, validated? renv p.key r = none) ∧ ts = Timestamp.zero ∧ value = []

/-- The answer to the first read of a key: a prepared write that enough replies report, or the
latest committed one. -/
inductive FirstAnswer (res : ReadResult) : Prop
  | prepared (dep : ForwardedDep) : res.dep = some dep → res.hasDep = !res.get.getFromPut →
      dep.write.preparedValue = some res.value →
      res.get.rds ≤ res.get.replies.countP (reportsPrepared renv res.ts dep.write) →
      NoLater renv res.get res.ts → FirstAnswer res
  | committed : res.dep = none → res.hasDep = false → Latest renv res.get res.ts res.value →
      NoLater renv res.get res.ts → FirstAnswer res

def SameAnswer (results : List ReadResult) (res : ReadResult) : Prop :=
  res.ts = Timestamp.zero ∧ res.hasDep = false ∧ res.addToReadSet = false ∧
    ∃ first ∈ results, first.get.key = res.get.key ∧ first.value = res.value ∧
      FirstAnswer renv first

def Answered (results : List ReadResult) (res : ReadResult) : Prop :=
  res.get.rqs ≤ res.get.replies.countP (accepted renv) ∧
    (FirstAnswer renv res ∨ SameAnswer renv results res)

/-! ## Invariant -/

structure PendingQuorumGet.Tallies (p : PendingQuorumGet) : Prop where
  replies : p.numReplies = p.replies.countP (accepted renv)
  prepared : ∀ ts w, (ts, w) ∈ p.prepared → w.preparedValue.isSome = true ∧
    p.preparedCount ts ≤ p.replies.countP (reportsPrepared renv ts w.toWrite)
  unprepared : ∀ ts, (∀ w, (ts, w) ∉ p.prepared) → p.preparedCount ts = 0

/-- The latest committed write, and before it whether none has been noted yet with its policy. Until
then a write replaces the one before it, also if it is older. -/
def noteLatest (key : Key) (acc : Bool × Timestamp × Bytes) (r : ReadReply) :
    Bool × Timestamp × Bytes :=
  match validated? renv key r with
  | none => acc
  | some e =>
    (acc.1 && !policyValidated renv r, if acc.1 || acc.2.1 < e.1 then e else acc.2)

def PendingQuorumGet.noted (p : PendingQuorumGet) : Bool × Timestamp × Bytes :=
  (p.firstCommittedReply, p.maxTs, p.maxValue)

def PendingQuorumGet.Maximum (p : PendingQuorumGet) : Prop :=
  p.noted = p.replies.foldl (noteLatest renv p.key) (true, Timestamp.zero, [])

structure ReadInv (s : ReadState) : Prop where
  gets : ∀ reqId p, s.pendingGets reqId = some p → p.Tallies renv ∧ p.Maximum renv
  values : ∀ k v, s.readValues k = some v → ∃ res ∈ s.results, res.get.key = k ∧ res.value = v ∧
    FirstAnswer renv res
  results : ∀ res ∈ s.results, Answered renv s.results res

end

variable {renv : ReadEnv} {s : ReadState} {p : PendingQuorumGet} {r : ReadReply} {w : ReportedWrite}
  {results results' : List ReadResult} {res : ReadResult}

/-! ## One reply -/

section Reply

theorem accepted_eq (hw : receivedWrite renv r = .ok w) : accepted renv r = true := by
  rw [accepted, hw]
  rfl

theorem notePolicy_ok (hw : receivedWrite renv r = .ok w) {p' : PendingQuorumGet}
    (h : notePolicy renv s r w p = .ok p') :
    policyValidated renv r = true ∧ ∃ policy ts,
      p' = { p with maxPolicy := policy, maxPolicyTs := ts } := by
  rw [policyValidated, hw]
  unfold notePolicy at h
  dsimp only
  cases hpol : w.committedPolicy with
  | none =>
    simp only [hpol, Except.ok.injEq] at h
    exact ⟨rfl, p.maxPolicy, p.maxPolicyTs, h.symm⟩
  | some policy =>
    simp only [hpol] at h
    dsimp only
    split at h
    · cases h
    · split at h
      · cases h
      · rename_i hproof
        rw [hproof]
        refine ⟨rfl, ?_⟩
        split at h
        · cases h
          exact ⟨_, _, rfl⟩
        · cases h
          exact ⟨p.maxPolicy, p.maxPolicyTs, rfl⟩

theorem notePolicy_ignored (hw : receivedWrite renv r = .ok w)
    (h : notePolicy renv s r w p = .error .ignored) : policyValidated renv r = false := by
  rw [policyValidated, hw]
  unfold notePolicy at h
  dsimp only
  cases hpol : w.committedPolicy with
  | none => simp [hpol] at h
  | some policy =>
    simp only [hpol] at h
    dsimp only
    split at h
    · cases h
    · split at h
      · rename_i hproof
        rw [hproof]
        rfl
      · split at h <;> cases h

/-- What the committed part of a reply leaves alone. -/
structure SameTallies (p p' : PendingQuorumGet) : Prop where
  key : p'.key = p.key
  rqs : p'.rqs = p.rqs
  numReplies : p'.numReplies = p.numReplies
  prepared : p'.prepared = p.prepared
  preparedCount : p'.preparedCount = p.preparedCount
  replies : p'.replies = p.replies

theorem SameTallies.refl (p : PendingQuorumGet) : SameTallies p p := ⟨rfl, rfl, rfl, rfl, rfl, rfl⟩

theorem take_spec (p : PendingQuorumGet) (r : ReadReply) (m : SignedMessage) (value : Bytes)
    (ts : Timestamp) (newer : Bool) {p₁ : PendingQuorumGet}
    (h : (if newer = true then p.takeCommitted r m value ts else p) = p₁) :
    SameTallies p p₁ ∧ p₁.noted =
      (p.firstCommittedReply, if newer = true then (ts, value) else (p.maxTs, p.maxValue)) := by
  subst h
  split_ifs
  · exact ⟨⟨rfl, rfl, rfl, rfl, rfl, rfl⟩, rfl⟩
  · exact ⟨SameTallies.refl p, rfl⟩

theorem noteCommitted_spec (hw : receivedWrite renv r = .ok w)
    (h : (noteCommitted renv s r w p).2 ≠ some .panicked) :
    SameTallies p (noteCommitted renv s r w p).1 ∧
      (noteCommitted renv s r w p).1.noted = noteLatest renv p.key p.noted r := by
  unfold noteCommitted at h ⊢
  cases hc : committed? r w with
  | none => exact ⟨SameTallies.refl p, by simp [noteLatest, validated?, hw, hc]⟩
  | some value =>
    simp only [hc] at h ⊢
    cases hproof : validateProof renv r.proof p.key value
        (version renv w.committedTs r.committedTimestamp) with
    | error e =>
      exact ⟨SameTallies.refl p, by
        simp [noteLatest, validated?, hw, hc, hproof, Except.isOk, Except.toBool]⟩
    | ok u =>
      have hval : validated? renv p.key r =
          some ((version renv w.committedTs r.committedTimestamp).1, value) := by
        simp [validated?, hw, hc, hproof, Except.isOk, Except.toBool]
      rw [noteLatest, hval]
      simp only [hproof] at h ⊢
      split at h
      · exact absurd rfl h
      · rename_i hpanic
        rw [if_neg hpanic]
        generalize hp₁ : (if (p.firstCommittedReply || decide (p.maxTs <
          (version renv w.committedTs r.committedTimestamp).1)) = true then
            p.takeCommitted r (r.signedWrite.getD default) value
              (version renv w.committedTs r.committedTimestamp).1 else p) = p₁ at h ⊢
        obtain ⟨htallies, hnoted⟩ := take_spec _ _ _ _ _ _ hp₁
        cases hpol : notePolicy renv s r w p₁ with
        | error halt =>
          cases halt with
          | ignored =>
            refine ⟨htallies, hnoted.trans ?_⟩
            rw [notePolicy_ignored hw hpol, Bool.not_false, Bool.and_true]
            rfl
          | panicked =>
            rw [hpol] at h
            exact absurd rfl h
        | ok p₂ =>
          obtain ⟨hpolicy, policy, ts, rfl⟩ := notePolicy_ok hw hpol
          refine ⟨{ htallies with }, ?_⟩
          rw [hpolicy, Bool.not_true, Bool.and_false]
          exact congrArg (Prod.mk false) (congrArg Prod.snd hnoted)

end Reply

/-! ## The maximum -/

theorem foldl_noteLatest (renv : ReadEnv) (key : Key) (rs : List ReadReply) :
    let acc := rs.foldl (noteLatest renv key) (true, Timestamp.zero, [])
    ((∃ r ∈ rs, validated? renv key r = some acc.2) ∨
      (∀ r ∈ rs, validated? renv key r = none) ∧ acc = (true, Timestamp.zero, [])) ∧
    (∀ r ∈ rs, ∀ e, validated? renv key r = some e → policyValidated renv r = true →
      acc.1 = false ∧ e.1 ≤ acc.2.1) := by
  induction rs using reverseRecOn with
  | nil => simp
  | append_singleton rs r ih =>
    simp only [foldl_append, foldl_cons, foldl_nil, forall_mem_append,
      forall_mem_singleton] at ih ⊢
    generalize rs.foldl (noteLatest renv key) (true, Timestamp.zero, []) = acc at ih ⊢
    obtain ⟨hlatest, hlater⟩ := ih
    cases hval : validated? renv key r with
    | none =>
      have hsame : noteLatest renv key acc r = acc := by simp [noteLatest, hval]
      rw [hsame]
      refine ⟨hlatest.imp (fun ⟨r', hr', heq⟩ => ⟨r', mem_append_left _ hr', heq⟩) fun h =>
        ⟨⟨h.1, rfl⟩, h.2⟩, hlater, by simp⟩
    | some e =>
      have hnoted : noteLatest renv key acc r =
          (acc.1 && !policyValidated renv r, if acc.1 || acc.2.1 < e.1 then e else acc.2) := by
        simp [noteLatest, hval]
      rw [hnoted]
      refine ⟨.inl ?_, fun r' hr' e' he' hpol => ?_, ?_⟩
      · dsimp only
        split_ifs with hnewer
        · exact ⟨r, by simp, hval⟩
        · -- a write that is not replaced has been validated before
          obtain ⟨r', hr', heq⟩ := hlatest.resolve_right fun h => hnewer (by simp [h.2])
          exact ⟨r', mem_append_left _ hr', heq⟩
      · obtain ⟨hfirst, hle⟩ := hlater r' hr' e' he' hpol
        refine ⟨by simp [hfirst], ?_⟩
        dsimp only
        split_ifs with hnewer
        · rw [hfirst, Bool.false_or, decide_eq_true_eq] at hnewer
          exact hle.trans hnewer.le
        · exact hle
      · rintro e' ⟨⟩ hpol
        refine ⟨by simp [hpol], ?_⟩
        dsimp only
        split_ifs with hnewer
        · exact le_rfl
        · simp only [Bool.or_eq_true, not_or, decide_eq_true_eq, not_lt] at hnewer
          exact hnewer.2

namespace PendingQuorumGet

variable {p' : PendingQuorumGet}

theorem Maximum.latest (h : p.Maximum renv) :
    Latest renv p p.maxTs p.maxValue ∧ NoLater renv p p.maxTs := by
  obtain ⟨hlatest, hlater⟩ := foldl_noteLatest renv p.key p.replies
  rw [← h] at hlatest hlater
  refine ⟨hlatest.imp_right fun hx => ⟨hx.1, ?_⟩, fun r hr e he hpol => (hlater r hr e he hpol).2⟩
  exact Prod.mk.inj (congrArg Prod.snd hx.2)

theorem Maximum.note {n : Nat} (h : p.Maximum renv)
    (hsame : SameTallies { p with replies := p.replies ++ [r], numReplies := n } p')
    (hnoted : p'.noted = noteLatest renv p.key p.noted r) : p'.Maximum renv := by
  rw [Maximum, hnoted, h, hsame.replies, hsame.key]
  simp

theorem Maximum.notePrepared (h : p.Maximum renv) :
    (notePrepared renv r w p).Maximum renv := by
  have hframe : (Shard.notePrepared renv r w p).key = p.key ∧
      (Shard.notePrepared renv r w p).replies = p.replies ∧
      (Shard.notePrepared renv r w p).noted = p.noted := by
    unfold Shard.notePrepared
    split_ifs
    · dsimp only
      split
      · exact ⟨rfl, rfl, rfl⟩
      · split_ifs <;> exact ⟨rfl, rfl, rfl⟩
    · exact ⟨rfl, rfl, rfl⟩
  rw [Maximum, hframe.1, hframe.2.1, hframe.2.2]
  exact h

/-! ## The tallies -/

theorem Tallies.ignore (h : p.Tallies renv) (hr : accepted renv r = false) :
    Tallies renv { p with replies := p.replies ++ [r] } where
  replies := by
    show p.numReplies = _
    simp [countP_append, h.replies, hr]
  prepared ts w hmem := by
    obtain ⟨hvalue, hcount⟩ := h.prepared ts w hmem
    refine ⟨hvalue, ?_⟩
    show p.preparedCount ts ≤ _
    rw [countP_append]
    omega
  unprepared := h.unprepared

theorem Tallies.count (h : p.Tallies renv)
    (hr : accepted renv r = true)
    (hsame : SameTallies { p with
      replies := p.replies ++ [r], numReplies := p.numReplies + 1 } p') : p'.Tallies renv where
  replies := by
    rw [hsame.numReplies, hsame.replies]
    simp [countP_append, h.replies, hr]
  prepared ts w hmem := by
    rw [hsame.prepared] at hmem
    obtain ⟨hvalue, hcount⟩ := h.prepared ts w hmem
    refine ⟨hvalue, ?_⟩
    rw [hsame.preparedCount, hsame.replies, countP_append]
    show p.preparedCount ts ≤ _
    omega
  unprepared ts hts := by
    rw [hsame.preparedCount]
    exact h.unprepared ts (hsame.prepared ▸ hts)

theorem Tallies.countPrepared {m : OrdMap Timestamp ReportedWrite} {b : Bool} {ts : Timestamp}
    (h : p.Tallies renv)
    (hother : ∀ ts' w', ts' ≠ ts → ((ts', w') ∈ m ↔ (ts', w') ∈ p.prepared))
    (hsome : ∃ w', (ts, w') ∈ m)
    (hat : ∀ w', (ts, w') ∈ m → w'.preparedValue.isSome = true ∧
      p.preparedCount ts + 1 ≤ p.replies.countP (reportsPrepared renv ts w'.toWrite)) :
    ({ p with prepared := m }.countPrepared b r ts).Tallies renv where
  replies := h.replies
  prepared ts' w' hmem := by
    show w'.preparedValue.isSome = true ∧
      update p.preparedCount ts (p.preparedCount ts + 1) ts' ≤ _
    by_cases hts : ts' = ts
    · subst hts
      rw [update_self]
      exact hat w' hmem
    · rw [update_of_ne hts]
      exact h.prepared ts' w' ((hother ts' w' hts).1 hmem)
  unprepared ts' hts' := by
    obtain ⟨w', hw'⟩ := hsome
    have hts : ts' ≠ ts := by
      intro hts
      subst hts
      exact hts' w' hw'
    show update p.preparedCount ts (p.preparedCount ts + 1) ts' = 0
    rw [update_of_ne hts]
    exact h.unprepared ts' fun w hw => hts' w ((hother ts' w hts).2 hw)

theorem Tallies.notePrepared (h : p.Tallies renv)
    (hw : receivedWrite renv r = .ok w)
    (hsame : SameTallies { p with
      replies := p.replies ++ [r], numReplies := p.numReplies + 1 } p') :
    (notePrepared renv r w p').Tallies renv := by
  have hcount := h.count (accepted_eq hw) hsame
  unfold Shard.notePrepared
  split_ifs with hprep
  swap
  · exact hcount
  dsimp only
  set ts := (version renv w.preparedTs r.preparedTimestamp).1 with hts
  have hvalue : w.preparedValue.isSome = true := by
    unfold prepared? at hprep
    simp only [Bool.and_eq_true] at hprep
    exact hprep.1.1.2
  -- whoever agrees with the reply has been reported once more
  have hmore : ∀ w' : ReportedWrite, w'.toWrite.samePrepared w.toWrite = true →
      p.preparedCount ts ≤ p.replies.countP (reportsPrepared renv ts w'.toWrite) →
      p'.preparedCount ts + 1 ≤ p'.replies.countP (reportsPrepared renv ts w'.toWrite) := by
    intro w' hw' hle
    have hreports : reportsPrepared renv ts w'.toWrite r = true := by
      simp [reportsPrepared, hw, hprep, hw', ← hts]
    rw [hsame.preparedCount, hsame.replies, countP_append, countP_singleton, hreports]
    simp only [if_true]
    omega
  split
  · rename_i hfind
    have hnew : ∀ w', (ts, w') ∉ p'.prepared := OrdMap.not_mem_of_find hfind
    have hzero : p.preparedCount ts = 0 :=
      h.unprepared ts fun w' hw' => hnew w' (hsame.prepared ▸ hw')
    apply hcount.countPrepared
    · intro ts' w' hne
      rw [OrdMap.mem_insertNew, or_iff_left]
      exact fun hw' => hne (congrArg Prod.fst hw'.1)
    · exact OrdMap.exists_mem_insertNew _ _ _
    · intro w' hmem
      rcases OrdMap.mem_insertNew.1 hmem with hmem | ⟨heq, -⟩
      · exact absurd hmem (hnew w')
      · cases heq
        exact ⟨hvalue, hmore w (by simp [Write.samePrepared]) (by omega)⟩
  · rename_i w₀ hfind
    have hmem₀ := OrdMap.mem_of_find hfind
    split_ifs with hagree
    · apply hcount.countPrepared
      · exact fun _ _ _ => Iff.rfl
      · exact ⟨w₀, hmem₀⟩
      · intro w' hmem
        rw [OrdMap.eq_of_mem hmem hmem₀]
        have hle := (h.prepared ts w₀ (hsame.prepared ▸ hmem₀)).2
        exact ⟨(hcount.prepared ts w₀ hmem₀).1, hmore w₀ hagree hle⟩
    · exact hcount

end PendingQuorumGet

/-! ## The answer -/

theorem found_firstAnswer (ht : p.Tallies renv) (hm : p.Maximum renv) :
    FirstAnswer renv (found renv p) := by
  unfold found
  split
  · rename_i ts w hchoose
    unfold choosePrepared at hchoose
    split_ifs at hchoose
    obtain ⟨hmem, hle, hcount⟩ := OrdMap.lastGE_some hchoose
    obtain ⟨hvalue, hreports⟩ := ht.prepared ts w hmem
    obtain ⟨value, hvalue⟩ := Option.isSome_iff_exists.1 hvalue
    refine .prepared _ rfl rfl ?_ ?_ ?_
    · show w.preparedValue = some (w.preparedValue.getD p.maxValue)
      rw [hvalue]
      rfl
    · exact (of_decide_eq_true hcount).trans hreports
    · exact fun r hr e he hpol => (hm.latest.2 r hr e he hpol).trans hle
  · exact .committed rfl rfl hm.latest.1 hm.latest.2

theorem found_get (renv : ReadEnv) (p : PendingQuorumGet) : (found renv p).get = p := by
  unfold found
  split <;> rfl

theorem SameAnswer.mono (h : SameAnswer renv results res) (hsub : results ⊆ results') :
    SameAnswer renv results' res := by
  obtain ⟨hts, hdep, hadd, first, hmem, hfirst⟩ := h
  exact ⟨hts, hdep, hadd, first, hsub hmem, hfirst⟩

theorem Answered.mono (h : Answered renv results res) (hsub : results ⊆ results') :
    Answered renv results' res :=
  ⟨h.1, h.2.imp id fun h => h.mono hsub⟩

/-! ## Steps keep the invariant -/

namespace ReadInv

variable {reqId : UInt64}

section
variable (h : ReadInv renv s)
include h

theorem setGet {o : Option PendingQuorumGet}
    (ho : ∀ p, o = some p → p.Tallies renv ∧ p.Maximum renv) : ReadInv renv (s.setGet reqId o) := by
  refine { h with gets := fun id p hp => ?_ }
  obtain ⟨-, hp⟩ | ⟨-, hp⟩ := update_eq_some.1 hp
  · exact ho p hp
  · exact h.gets id p hp

theorem setGet_some (ht : p.Tallies renv) (hm : p.Maximum renv) :
    ReadInv renv (s.setGet reqId (some p)) := by
  apply h.setGet
  intro p' hp'
  cases hp'
  exact ⟨ht, hm⟩

theorem setGet_none (reqId : UInt64) :
    ReadInv renv (s.setGet reqId none) := by
  apply h.setGet
  intro p' hp'
  cases hp'

theorem answer {res : ReadResult}
    (hres : Answered renv (s.results ++ [res]) res) :
    ReadInv renv { s with results := s.results ++ [res] } := by
  refine { h with values := fun k v hv => ?_, results := ?_ }
  · obtain ⟨first, hmem, hfirst⟩ := h.values k v hv
    exact ⟨first, mem_append_left _ hmem, hfirst⟩
  · show ∀ res' ∈ s.results ++ [res], Answered renv (s.results ++ [res]) res'
    rw [forall_mem_append, forall_mem_singleton]
    exact ⟨fun res' hres' => (h.results res' hres').mono (subset_append_left _ _), hres⟩

theorem complete (ht : p.Tallies renv) (hm : p.Maximum renv)
    (hfull : p.rqs ≤ p.numReplies) :
    ReadInv renv (complete renv reqId p s) := by
  have henough : p.rqs ≤ p.replies.countP (accepted renv) := ht.replies ▸ hfull
  have hclear := h.setGet_none reqId
  unfold Shard.complete
  dsimp only
  split
  · -- the first read: its value stays
    have hfirst := found_firstAnswer ht hm
    have hget := found_get renv p
    have hanswered : Answered renv (s.results ++ [found renv p]) (found renv p) :=
      ⟨by rw [hget]; exact henough, .inl hfirst⟩
    have hinv := hclear.answer hanswered
    refine { hinv with values := fun k v hv => ?_ }
    obtain ⟨hk, hval⟩ | ⟨-, hval⟩ := update_eq_some.1 hv
    · refine ⟨found renv p, by simp, ?_, Option.some.inj hval, hfirst⟩
      rw [hget, hk]
    · exact hinv.values k v hval
  · rename_i value hvalue
    obtain ⟨first, hmem, hkey, hval, hfirst⟩ := hclear.values p.key value hvalue
    apply hclear.answer
    exact ⟨henough, .inr ⟨rfl, rfl, rfl, first, mem_append_left _ hmem, hkey, hval, hfirst⟩⟩

theorem handleReadReply (r : ReadReply) :
    ReadInv renv (handleReadReply renv r s) := by
  unfold Shard.handleReadReply
  split
  · exact h
  · rename_i p hp
    obtain ⟨ht, hm⟩ := h.gets _ p hp
    dsimp only
    split
    · exact { h with }
    · rename_i hw
      have hacc : accepted renv r = false := by
        rw [accepted, hw]
        rfl
      have hval : validated? renv p.key r = none := by
        rw [validated?, hw]
      refine h.setGet_some (ht.ignore hacc) (hm.note ⟨rfl, rfl, rfl, rfl, rfl, rfl⟩ ?_)
      simp [noteLatest, hval]
      rfl
    · rename_i w hw
      have hspec := noteCommitted_spec (s := s) (p := { p with
        replies := p.replies ++ [r], numReplies := p.numReplies + 1 }) hw
      split
      · exact { h with }
      · rename_i p' hnote
        rw [hnote] at hspec
        obtain ⟨hsame, hnoted⟩ := hspec (by simp)
        exact h.setGet_some (ht.count (accepted_eq hw) hsame) (hm.note hsame hnoted)
      · rename_i p' hnote
        rw [hnote] at hspec
        obtain ⟨hsame, hnoted⟩ := hspec (by simp)
        have ht' := ht.notePrepared hw hsame
        have hm' := (hm.note hsame hnoted).notePrepared (r := r) (w := w)
        split_ifs with hfull
        · exact h.complete ht' hm' hfull
        · exact h.setGet_some ht' hm'

theorem step (e : ReadEvent) : ReadInv renv (readStep renv s e) := by
  cases e with
  | begin =>
    refine { h with values := fun _ _ hv => ?_, results := fun _ hres => ?_ }
    · cases hv
    · cases hres
  | get key rqs rds getFromPut =>
    dsimp only [readStep]
    split_ifs
    · exact h
    · have hset : ReadInv renv (s.setGet s.lastReqId (some { key, rqs, rds, getFromPut })) := by
        apply h.setGet_some
        · exact ⟨rfl, fun _ _ hmem => absurd hmem (OrdMap.not_mem_empty _), fun _ _ => rfl⟩
        · rfl
      exact { hset with }
  | put key value => exact { h with }
  | timeout reqId => exact h.setGet_none reqId
  | setPolicyShardClient value => exact { h with }
  | readReply r => exact h.handleReadReply r

end

theorem init : ReadInv renv {} where
  gets _ _ hp := by cases hp
  values _ _ hv := by cases hv
  results _ hres := by cases hres

end ReadInv

/-- **In every run, a read ends after `rqs` replies that were counted; the first read of a key is
answered with a prepared write that `rds` replies report, or with the latest committed write, and
another one with the same value.** -/
theorem run_reads_answered (renv : ReadEnv) (es : List ReadEvent) :
    ∀ res ∈ ((readMachine renv).run {} es).results,
      Answered renv ((readMachine renv).run {} es).results res := by
  have hinv : ReadInv renv ((readMachine renv).run {} es) := by
    refine Machine.run_induct (fun s e h => ?_) ReadInv.init es
    show ReadInv renv (if s.panicked then s else readStep renv s e)
    split_ifs
    · exact h
    · exact h.step e
  exact hinv.results

/-! ## Replies of one replica, and of others -/

/-- The replicas of the group that signed replies with `q`. -/
def repliers (renv : ReadEnv) (p : PendingQuorumGet) (q : ReadReply → Bool) : List ProcessId :=
  ((((p.replies.filter q).filterMap ReadReply.signedWrite).map (·.processId)).filter
    fun id => decide (renv.config.InGroup id renv.group)).dedup

/-- What a quorum of replicas would vouch for: different replicas are counted, and every read gets
the latest write of its own replies. -/
structure Vouched (renv : ReadEnv) (res : ReadResult) : Prop where
  quorum : res.get.rqs ≤ (repliers renv res.get (accepted renv)).length
  prepared : ∀ dep, res.dep = some dep →
    res.get.rds ≤ (repliers renv res.get (reportsPrepared renv res.ts dep.write)).length
  committed : res.dep = none → ∃ r ∈ res.get.replies, ∃ ts,
    validated? renv res.get.key r = some (ts, res.value) ∧
      ∀ r' ∈ res.get.replies, ∀ e, validated? renv res.get.key r' = some e → e.1 ≤ ts

def sampleReport : Bytes → Option ReportedWrite
  | [0, v, t] => some
      { key := some [1], committedValue := some [v],
        committedTs := some (.timestamp ⟨t.toUInt64, 1⟩) }
  | [1, v, t] => some
      { key := some [1], preparedValue := some [v],
        preparedTs := some (.timestamp ⟨t.toUInt64, 1⟩), preparedTxnDigest := some [t] }
  | _ => none

def ReadEnv.sample : ReadEnv :=
  { Env.sample with
    config := { Env.sample.config with groups := 2 }
    readDepSize := 2
    verifyData := fun id data signature => signature == id.toUInt8 :: data
    parseWrite := fun data => ((sampleReport data).map (·.toWrite)).getD {}
    group := 0
    parseReportedWrite := sampleReport }

def reportSample (reqId : UInt64) (id : ProcessId) (kind v t : UInt8) : ReadReply :=
  { reqId
    write := some (.inr ⟨[kind, v, t], id, [id.toUInt8, kind, v, t]⟩)
    proof := some
      { txn :=
          { clientId := 1
            clientSeqNum := 1
            involvedGroups := [0]
            writeSet := [{ key := [1], value := some [v] }]
            timestamp := ⟨t.toUInt64, 1⟩ }
        sigs := some (.p1 [(0, (List.range 6).map fun i => ⟨UInt64.ofNat i, [UInt8.ofNat i]⟩)]) } }

theorem run_reads_answered_pair :
    let results := ((readMachine .sample).run {} [.get [1] 2 2 false,
      .readReply (reportSample 0 0 0 10 1), .readReply (reportSample 0 1 0 10 1)]).results
    ∃ res ∈ results, res.value = [10] ∧ Answered .sample results res := by
  intro results
  have hany : results.any (fun res => decide (res.value = [10])) = true := by decide +kernel
  obtain ⟨res, hmem, hres⟩ := List.any_eq_true.1 hany
  exact ⟨res, hmem, of_decide_eq_true hres, run_reads_answered .sample _ res hmem⟩

/-- One replica that replies twice ends a read of two; so does a replica of another group. Of two
reads of a key under way, the second gets the value of the first. -/
theorem run_not_vouched :
    let results := fun es => ((readMachine .sample).run {} es).results
    let get := ReadEvent.get [1] 2 2 false
    (∃ res ∈ results [get, .readReply (reportSample 0 1 1 30 3),
      .readReply (reportSample 0 1 1 30 3)], res.hasDep = true ∧ ¬ Vouched .sample res) ∧
    (∃ res ∈ results [get, .readReply (reportSample 0 1 0 10 1),
      .readReply (reportSample 0 7 0 10 1)], ¬ Vouched .sample res) ∧
    ∃ res ∈ results [get, get, .readReply (reportSample 0 0 0 10 1),
      .readReply (reportSample 0 1 0 10 1), .readReply (reportSample 1 2 0 20 2),
      .readReply (reportSample 1 3 0 20 2)], ¬ Vouched .sample res := by
  intro results get
  have hfew {rs : List ReadResult} {q : ReadResult → Bool} (h : rs.any (fun res => q res &&
      decide ((repliers .sample res.get (accepted .sample)).length < res.get.rqs)) = true) :
      ∃ res ∈ rs, q res = true ∧ ¬ Vouched .sample res := by
    obtain ⟨res, hmem, hres⟩ := List.any_eq_true.1 h
    rw [Bool.and_eq_true, decide_eq_true_eq] at hres
    refine ⟨res, hmem, hres.1, fun hv => ?_⟩
    have := hv.quorum
    omega
  refine ⟨hfew (by decide +kernel), ?_, ?_⟩
  · obtain ⟨res, hmem, -, hres⟩ : ∃ res ∈ results [get, .readReply (reportSample 0 1 0 10 1),
        .readReply (reportSample 0 7 0 10 1)], true = true ∧ ¬ Vouched .sample res :=
      hfew (q := fun _ => true) (by decide +kernel)
    exact ⟨res, hmem, hres⟩
  · have hany : (results [get, get, .readReply (reportSample 0 0 0 10 1),
        .readReply (reportSample 0 1 0 10 1), .readReply (reportSample 1 2 0 20 2),
        .readReply (reportSample 1 3 0 20 2)]).any (fun res => decide (res.dep = none) &&
          res.get.replies.all fun r => (validated? .sample res.get.key r).map (·.2) !=
            some res.value) = true := by
      decide +kernel
    obtain ⟨res, hmem, hres⟩ := List.any_eq_true.1 hany
    rw [Bool.and_eq_true, decide_eq_true_eq, List.all_eq_true] at hres
    refine ⟨res, hmem, fun hv => ?_⟩
    obtain ⟨r, hr, ts, hval, -⟩ := hv.committed hres.1
    have := hres.2 r hr
    rw [hval] at this
    simp at this

end Sintr.Shard
