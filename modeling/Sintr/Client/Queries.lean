import Mathlib.Data.List.Destutter
import Sintr.Client.Provenance
import Sintr.Data.Layout
import Sintr.Lib.Machine
import Sintr.Lib.Marks

/-!
# Forwarded query results

A query is answered by the replicas of several groups, and each group contributes a read set. Who
validates the query gets signatures of replicas on the result, listed by group. They are checked one
after the other, or by a pool of threads that share one object for each query.

* `checkQuerySigHelper`: the check of one signature against a read set.
* `QueryValidation`, `step`: the queries of one transaction, with the threads in any interleaving.
-/

namespace Sintr.Client

open Quorum Marks List Option

/-! ## The check of a signature -/

structure QueryResult where
  queryGenId : Bytes := []
  queryResult : Bytes
  queryResultHash : Bytes := []
  queryReadSet : ReadSet := {}
  deriving DecidableEq

structure ForwardQueryResult where
  queryGenId : Bytes
  queryResult : Bytes
  queryResMeta : QueryResultMetaData
  addReadset : Bool := false
  deriving DecidableEq

structure ForwardQueryResultMessage where
  result : ForwardQueryResult
  querySigs : List (GroupId × List SignedMessage) := []
  deriving DecidableEq

structure QueryEnv extends ValidationEnv where
  resultQuorum : Nat
  parseQueryResult : Bytes → Option QueryResult
  /-- `std::sort` by key; the order of reads of one key is up to it. -/
  sortReadSetByKey : List ReadMessage → List ReadMessage

section
variable (qenv : QueryEnv)

/-- `generateReadSetSingleHash`: dependencies and table versions are left out. -/
def generateReadSetSingleHash (rs : ReadSet) : Bytes :=
  qenv.H (rs.readSet.flatMap (readBytes qenv.params.hideTimestamps) ++
    rs.readPredicates.flatMap fun p => p.instantiations.flatten.flatten)

def equalReadMsg (a b : ReadMessage) : Bool := a.key == b.key && a.readtime == b.readtime

def canonicalReadSet (rs : ReadSet) : ReadSet :=
  { rs with readSet :=
      (qenv.sortReadSetByKey rs.readSet).destutter fun a b => equalReadMsg a b = false }

def SameReadSet (q : QueryResult) (m : QueryGroupMeta) : Prop :=
  if qenv.params.cacheReadSet then q.queryResultHash = m.readSetHash.getD []
  else generateReadSetSingleHash qenv (canonicalReadSet qenv q.queryReadSet) =
    generateReadSetSingleHash qenv (m.queryReadSet.getD {})
deriving Decidable

structure SignedResult (r : ForwardQueryResult) (m : QueryGroupMeta) (sig : SignedMessage) :
    Prop where
  signature : qenv.verifyData sig.processId sig.data sig.signature = true
  contents : ∃ q, qenv.parseQueryResult sig.data = some q ∧ q.queryGenId = r.queryGenId ∧
    q.queryResult = r.queryResult ∧ SameReadSet qenv q m

def checkQuerySigHelper (r : ForwardQueryResult) (m : QueryGroupMeta) (sig : SignedMessage) :
    Bool :=
  qenv.verifyData sig.processId sig.data sig.signature &&
    match qenv.parseQueryResult sig.data with
    | none => false
    | some q => q.queryGenId == r.queryGenId && q.queryResult == r.queryResult &&
        decide (SameReadSet qenv q m)

theorem checkQuerySigHelper_iff {r : ForwardQueryResult} {m : QueryGroupMeta}
    {sig : SignedMessage} :
    checkQuerySigHelper qenv r m sig = true ↔ SignedResult qenv r m sig := by
  unfold checkQuerySigHelper
  rw [Bool.and_eq_true]
  constructor
  · rintro ⟨hsig, h⟩
    refine ⟨hsig, ?_⟩
    cases hq : qenv.parseQueryResult sig.data with
    | none => simp [hq] at h
    | some q =>
      simp only [hq, Bool.and_eq_true, beq_iff_eq, decide_eq_true_eq] at h
      obtain ⟨⟨hid, hresult⟩, hreads⟩ := h
      exact ⟨q, rfl, hid, hresult, hreads⟩
  · rintro ⟨hsig, q, hq, hid, hresult, hreads⟩
    refine ⟨hsig, ?_⟩
    simp only [hq, Bool.and_eq_true, beq_iff_eq, decide_eq_true_eq]
    exact ⟨⟨hid, hresult⟩, hreads⟩

/-! ## One after the other -/

/-- The signatures that pass, each checked against the read set of the group it is listed for. A
group without one stops the process. -/
def numMatches (r : ForwardQueryResult) : List (GroupId × List SignedMessage) → Option Nat
  | [] => some 0
  | (g, sigs) :: rest =>
    match r.queryResMeta.groupMeta.lookup g with
    | none => none
    | some m => (numMatches r rest).map (sigs.countP (checkQuerySigHelper qenv r m) + ·)

def checkPreparedCommittedEvidence (msg : ForwardQueryResultMessage) : Verdict :=
  if qenv.params.validateProofs && qenv.params.signedMessages then
    match numMatches qenv msg.result msg.querySigs with
    | none => .panic
    | some n => if n < qenv.resultQuorum then .reject else .accept
  else .accept

end

/-! ## With threads -/

/-- The check of one signature by a thread. -/
structure SigJob where
  sig : SignedMessage
  totalSigs : Nat
  isValid : Option Bool := none
  finished : Bool := false
  deriving DecidableEq

structure QueryCheck where
  msg : ForwardQueryResultMessage
  todo : List (GroupId × List SignedMessage) := []
  /-- The read set, or its hash, of the group that was dispatched last. -/
  shared : QueryGroupMeta := {}
  jobs : List SigJob := []
  numCheckPassed : Nat := 0
  numFinished : Nat := 0
  /-- The query is taken as valid: by the main thread, or because it was reported
  (`called_val_client`). -/
  valid : Bool := false
  processed : Bool := false
  deriving DecidableEq

/-- The query once a thread has reported that job `j` found `b`. -/
def QueryCheck.report (x : QueryCheck) (j : Nat) (job : SigJob) (b : Bool) : QueryCheck :=
  { x with
    jobs := x.jobs.set j { job with finished := true }
    numCheckPassed := x.numCheckPassed + if b then 1 else 0
    numFinished := x.numFinished + 1 }

/-- The queries of one transaction, with the counts that `Commit` waits for. -/
structure QueryValidation where
  queries : List QueryCheck := []
  numProcessedForwardQuery : Nat := 0
  numValidForwardQuery : Nat := 0
  numPendingReads : Nat := 0
  numValidReads : Nat := 0
  commitWaitOnValidForwardQuery : Bool := false
  committed : Bool := false
  crashed : Bool := false
  deriving DecidableEq

inductive QueryEvent where
  | receive (msg : ForwardQueryResultMessage)
  | dispatch (i : Nat)
  | process (i : Nat)
  | check (i j : Nat)
  | finish (i j : Nat)
  | read
  | readValid
  | commit

namespace QueryValidation

section
variable (qenv : QueryEnv)

def panic (s : QueryValidation) : QueryValidation := { s with crashed := true }

def setQuery (s : QueryValidation) (i : Nat) (x : QueryCheck) : QueryValidation :=
  { s with queries := s.queries.set i x }

def receive (s : QueryValidation) (msg : ForwardQueryResultMessage) : QueryValidation :=
  if !(msg.result.addReadset && qenv.clientCheckEvidence) then
    { s with queries := s.queries ++ [{ msg }] }
  else if qenv.parallelQuerySigsCheck then
    let todo := if qenv.params.validateProofs && qenv.params.signedMessages then msg.querySigs
      else []
    { s with queries := s.queries ++ [{ msg, todo }] }
  else if checkPreparedCommittedEvidence qenv msg = .accept then
    { s with queries := s.queries ++ [{ msg, valid := true }] }
  else s.panic

/-- One round of the loop over the groups: the read set of the group replaces the one before it,
which threads may still be reading. -/
def dispatch (s : QueryValidation) (i : Nat) : QueryValidation :=
  match s.queries[i]? with
  | none => s
  | some x =>
    match x.todo with
    | [] => s
    | (g, sigs) :: todo =>
      match x.msg.result.queryResMeta.groupMeta.lookup g with
      | none => s.panic
      | some m => s.setQuery i { x with
          todo, shared := m
          jobs := x.jobs ++ sigs.map fun sig => { sig, totalSigs := sigs.length } }

/-- `ProcessForwardQueryResult`. A query that is not to be added has to repeat one that was. -/
def process (s : QueryValidation) (i : Nat) : QueryValidation :=
  match s.queries[i]? with
  | none => s
  | some x =>
    if x.processed || !x.todo.isEmpty || s.committed then s
    else if x.msg.result.addReadset then
      { s.setQuery i { x with processed := true } with
        numProcessedForwardQuery := s.numProcessedForwardQuery + 1 }
    else
      let added := s.queries.filter fun y => y.processed && y.msg.result.addReadset
      if (added.any fun y => y.msg.result.queryGenId == x.msg.result.queryGenId) &&
          (added.any fun y => y.msg.result.queryResult == x.msg.result.queryResult) then
        s.setQuery i { x with processed := true }
      else s.panic

/-- A thread reads the shared read set, without a lock. -/
def check (s : QueryValidation) (i j : Nat) : QueryValidation :=
  match s.queries[i]? with
  | none => s
  | some x =>
    match x.jobs[j]? with
    | some { sig, totalSigs, isValid := none, finished := false } =>
      let isValid := some (checkQuerySigHelper qenv x.msg.result x.shared sig)
      s.setQuery i { x with jobs := x.jobs.set j { sig, totalSigs, isValid } }
    | _ => s

def unblock (s : QueryValidation) : QueryValidation :=
  if s.commitWaitOnValidForwardQuery &&
      s.numValidForwardQuery == s.numProcessedForwardQuery &&
      s.numPendingReads == s.numValidReads then
    { s with commitWaitOnValidForwardQuery := false, committed := true }
  else s

def notifyForwardQueryResultValid (s : QueryValidation) : QueryValidation :=
  unblock { s with numValidForwardQuery := s.numValidForwardQuery + 1 }

def finish (s : QueryValidation) (i j : Nat) : QueryValidation :=
  match s.queries[i]? with
  | none => s
  | some x =>
    match x.jobs[j]? with
    | none => s
    | some job =>
      match job.isValid with
      | none => s
      | some b =>
        if job.finished then s
        else
          let y := x.report j job b
          if y.valid then s.setQuery i y
          else if qenv.resultQuorum ≤ y.numCheckPassed then
            (s.setQuery i { y with valid := true }).notifyForwardQueryResultValid
          else if y.numFinished = job.totalSigs then s.panic
          else s.setQuery i y

/-- `Commit`, without the checks that only stop the process. -/
def commit (s : QueryValidation) : QueryValidation :=
  if s.committed || s.commitWaitOnValidForwardQuery then s
  else if qenv.parallelQuerySigsCheck &&
      (decide (s.numValidForwardQuery < s.numProcessedForwardQuery) ||
        decide (s.numValidReads < s.numPendingReads)) then
    { s with commitWaitOnValidForwardQuery := true }
  else { s with committed := true }

def step (s : QueryValidation) (e : QueryEvent) : QueryValidation :=
  if s.crashed then s
  else
    match e with
    | .receive msg => s.receive qenv msg
    | .dispatch i => s.dispatch i
    | .process i => s.process i
    | .check i j => s.check qenv i j
    | .finish i j => s.finish qenv i j
    | .read => { s with numPendingReads := s.numPendingReads + 1 }
    | .readValid => unblock { s with numValidReads := s.numValidReads + 1 }
    | .commit => s.commit qenv

end

end QueryValidation

def queryMachine (qenv : QueryEnv) : Machine QueryValidation QueryEvent :=
  ⟨QueryValidation.step qenv⟩

/-! ## What a valid query should have -/

section
variable (qenv : QueryEnv)

def ForwardQueryResultMessage.signatures (msg : ForwardQueryResultMessage) : List SignedMessage :=
  msg.querySigs.flatMap (·.2)

/-- For each group that contributes a read set, enough different replicas of it have signed the
query, the result and this read set. -/
def QuerySigned (msg : ForwardQueryResultMessage) : Prop :=
  ∀ e ∈ msg.result.queryResMeta.groupMeta,
    HasVoters (·.processId) qenv.resultQuorum (fun sig =>
      qenv.config.InGroup sig.processId e.1 ∧ SignedResult qenv msg.result e.2 sig) msg.signatures

/-- Signatures are checked at all; there is one group, and the signatures that pass for it are of
different replicas of it. -/
structure QueryMeets (msg : ForwardQueryResultMessage) : Prop where
  checks : qenv.clientCheckEvidence = true ∧ qenv.params.validateProofs = true ∧
    qenv.params.signedMessages = true
  oneGroup : msg.result.queryResMeta.groupMeta.length ≤ 1
  replicas : ∀ e ∈ msg.result.queryResMeta.groupMeta,
    let passing := msg.signatures.filter (checkQuerySigHelper qenv msg.result e.2)
    (passing.map (·.processId)).Nodup ∧ ∀ sig ∈ passing, qenv.config.InGroup sig.processId e.1

/-- Queries that are to be added meet the condition, and no query is reported before it is
processed. -/
def WellSent (s : QueryValidation) : QueryEvent → Prop
  | .receive msg => msg.result.addReadset = true → QueryMeets qenv msg
  | .finish i _ => ∀ x, s.queries[i]? = some x → qenv.resultQuorum ≤ x.numCheckPassed + 1 →
      x.processed = true
  | _ => True

structure QueriesSound (s : QueryValidation) : Prop where
  signed : ∀ x ∈ s.queries, x.valid = true → QuerySigned qenv x.msg
  committed : s.committed = true → ∀ x ∈ s.queries, x.processed = true →
    x.msg.result.addReadset = true → x.valid = true

end

variable {qenv : QueryEnv} {msg : ForwardQueryResultMessage}

theorem signed_of_passing (hm : QueryMeets qenv msg)
    {l : List SignedMessage} (hsub : l.Sublist msg.signatures)
    (hpass : ∀ sig ∈ l, ∃ e ∈ msg.result.queryResMeta.groupMeta,
      checkQuerySigHelper qenv msg.result e.2 sig = true)
    (hlen : qenv.resultQuorum ≤ l.length) : QuerySigned qenv msg := by
  intro e he
  obtain ⟨hnd, hgroup⟩ := hm.replicas e he
  have hpassing : ∀ sig ∈ l, checkQuerySigHelper qenv msg.result e.2 sig = true := by
    intro sig hsig
    obtain ⟨e', he', hcheck⟩ := hpass sig hsig
    obtain rfl : e' = e := by
      obtain ⟨x, hx⟩ := length_eq_one_iff.1
        (Nat.le_antisymm hm.oneGroup (length_pos_of_mem he))
      rw [hx, mem_singleton] at he he'
      rw [he, he']
    exact hcheck
  have hfilter := hsub.filter (checkQuerySigHelper qenv msg.result e.2)
  rw [filter_eq_self.2 hpassing] at hfilter
  have htake := (take_sublist qenv.resultQuorum l).trans hfilter
  refine ⟨l.take qenv.resultQuorum, (take_sublist _ l).trans hsub,
    length_take_of_le hlen, hnd.sublist (htake.map _), fun sig hsig => ?_⟩
  exact ⟨hgroup sig (htake.subset hsig),
    (checkQuerySigHelper_iff qenv).1 (hpassing sig (mem_of_mem_take hsig))⟩

theorem mem_of_lookup {l : List (GroupId × QueryGroupMeta)} {g : GroupId} {m : QueryGroupMeta}
    (h : l.lookup g = some m) : (g, m) ∈ l := by
  obtain ⟨before, after, rfl, -⟩ := lookup_eq_some_iff.1 h
  exact mem_append_right _ mem_cons_self

theorem numMatches_spec {r : ForwardQueryResult} {gs : List (GroupId × List SignedMessage)}
    {n : Nat} (h : numMatches qenv r gs = some n) :
    ∃ l : List SignedMessage, l.Sublist (gs.flatMap (·.2)) ∧ l.length = n ∧
      ∀ sig ∈ l, ∃ e ∈ r.queryResMeta.groupMeta, checkQuerySigHelper qenv r e.2 sig = true := by
  induction gs generalizing n with
  | nil =>
    obtain rfl := some.inj h
    exact ⟨[], .slnil, rfl, nofun⟩
  | cons e gs ih =>
    obtain ⟨g, sigs⟩ := e
    rw [numMatches] at h
    cases hm : r.queryResMeta.groupMeta.lookup g with
    | none => simp [hm] at h
    | some m =>
      simp only [hm, map_eq_some_iff] at h
      obtain ⟨k, hk, rfl⟩ := h
      obtain ⟨l, hsub, hlen, hpass⟩ := ih hk
      refine ⟨sigs.filter (checkQuerySigHelper qenv r m) ++ l, ?_, ?_, ?_⟩
      · rw [flatMap_cons]
        exact filter_sublist.append hsub
      · rw [length_append, ← countP_eq_length_filter, hlen]
      · intro sig hsig
        rcases mem_append.1 hsig with hsig | hsig
        · exact ⟨(g, m), mem_of_lookup hm, (mem_filter.1 hsig).2⟩
        · exact hpass sig hsig

theorem signed_of_accept (hm : QueryMeets qenv msg)
    (h : checkPreparedCommittedEvidence qenv msg = .accept) : QuerySigned qenv msg := by
  obtain ⟨-, hproofs, hsigned⟩ := hm.checks
  simp only [checkPreparedCommittedEvidence, hproofs, hsigned, Bool.and_self, if_true] at h
  cases hn : numMatches qenv msg.result msg.querySigs with
  | none => simp [hn] at h
  | some n =>
    obtain ⟨l, hsub, hlen, hpass⟩ := numMatches_spec hn
    refine signed_of_passing hm hsub hpass ?_
    rw [hlen, ← Nat.not_lt]
    intro hlt
    simp [hn, hlt] at h

/-! ## The invariant -/

section
variable (qenv : QueryEnv)

/-- The jobs are signatures of the message, and what a thread has found valid passes for one of the
groups. -/
structure CheckInv (x : QueryCheck) : Prop where
  meets : x.msg.result.addReadset = true → QueryMeets qenv x.msg
  sigs : (x.jobs.map (·.sig) ++ x.todo.flatMap (·.2)).Sublist x.msg.signatures
  shared : x.jobs ≠ [] → ∃ e ∈ x.msg.result.queryResMeta.groupMeta, e.2 = x.shared
  passed : ∀ j ∈ x.jobs, j.isValid = some true → ∃ e ∈ x.msg.result.queryResMeta.groupMeta,
    checkQuerySigHelper qenv x.msg.result e.2 j.sig = true
  count : x.numCheckPassed ≤ x.jobs.countP fun j => j.finished && j.isValid == some true
  signed : x.valid = true → QuerySigned qenv x.msg
  threads : x.todo ≠ [] ∨ x.jobs ≠ [] →
    qenv.parallelQuerySigsCheck = true ∧ x.msg.result.addReadset = true
  early : qenv.parallelQuerySigsCheck = true → x.valid = true →
    (x.processed && x.msg.result.addReadset) = true
  direct : qenv.parallelQuerySigsCheck = false → x.msg.result.addReadset = true → x.valid = true

structure QueryInv (s : QueryValidation) : Prop where
  each : ∀ x ∈ s.queries, CheckInv qenv x
  numProcessed : s.numProcessedForwardQuery =
    s.queries.countP fun x => x.processed && x.msg.result.addReadset
  numValid : qenv.parallelQuerySigsCheck = true →
    s.numValidForwardQuery = s.queries.countP (·.valid)
  waits : s.commitWaitOnValidForwardQuery = true → qenv.parallelQuerySigsCheck = true
  committed : s.committed = true → ∀ x ∈ s.queries, x.processed = true →
    x.msg.result.addReadset = true → x.valid = true

end

section
variable {s : QueryValidation} {x y : QueryCheck} {i : Nat}

section
variable (h : QueryInv qenv s)
include h

theorem QueryInv.sound : QueriesSound qenv s where
  signed := fun x hx => (h.each x hx).signed
  committed := h.committed

theorem QueryInv.all_valid
    (hcount : qenv.parallelQuerySigsCheck = true →
      s.numProcessedForwardQuery ≤ s.numValidForwardQuery) :
    ∀ x ∈ s.queries, x.processed = true → x.msg.result.addReadset = true → x.valid = true := by
  intro x hx hprocessed hadd
  cases hpar : qenv.parallelQuerySigsCheck with
  | false => exact (h.each x hx).direct hpar hadd
  | true =>
    have hle := hcount hpar
    rw [h.numProcessed, h.numValid hpar] at hle
    refine forall_of_countP_le (fun y hy => (h.each y hy).early hpar) hle x hx ?_
    rw [hprocessed, hadd]
    rfl

theorem QueryInv.unblock : QueryInv qenv s.unblock := by
  unfold QueryValidation.unblock
  split
  · rename_i hdone
    simp only [Bool.and_eq_true, beq_iff_eq] at hdone
    exact { h with waits := nofun, committed := fun _ => h.all_valid fun _ => hdone.1.2.ge }
  · exact h

theorem QueryInv.update (hx : s.queries[i]? = some x)
    (hy : CheckInv qenv y) (hmsg : y.msg = x.msg) {p v : Nat}
    (hp : p + (if x.processed && x.msg.result.addReadset then 1 else 0) =
      s.numProcessedForwardQuery + if y.processed && x.msg.result.addReadset then 1 else 0)
    (hv : qenv.parallelQuerySigsCheck = true →
      v + (if x.valid then 1 else 0) = s.numValidForwardQuery + if y.valid then 1 else 0)
    (hkeep : x.valid = true → y.valid = true)
    (hcommitted : s.committed = true → y.processed = x.processed) :
    QueryInv qenv { s.setQuery i y with
      numProcessedForwardQuery := p
      numValidForwardQuery := v } := by
  obtain ⟨as, bs, hs, hset⟩ := exists_set_split hx y
  rw [QueryValidation.setQuery, hset]
  refine { h with
    each := forall_mem_split hs h.each (fun _ hz => hz) fun _ => hy
    numProcessed := ?numProcessed
    numValid := ?numValid
    committed := fun hc => forall_mem_split hs (h.committed hc) (fun _ hz => hz)
      fun hx hproc hadd => ?committed }
  case numProcessed =>
    have hcount := h.numProcessed
    rw [hs, countP_append, countP_cons] at hcount
    simp only [countP_append, countP_cons, hmsg]
    omega
  case numValid =>
    intro hpar
    have hcount := h.numValid hpar
    have hv := hv hpar
    rw [hs, countP_append, countP_cons] at hcount
    simp only [countP_append, countP_cons]
    omega
  case committed =>
    rw [hcommitted hc] at hproc
    exact hkeep (hx hproc (hmsg ▸ hadd))

theorem QueryInv.replace (hx : s.queries[i]? = some x) (hy : CheckInv qenv y) (hmsg : y.msg = x.msg)
    (hprocessed : y.processed = x.processed) (hvalid : y.valid = x.valid) :
    QueryInv qenv (s.setQuery i y) :=
  h.update hx hy hmsg (by rw [hprocessed]) (fun _ => by rw [hvalid]) hvalid.trans
    fun _ => hprocessed

/-! ## Steps -/

theorem QueryInv.push {todo : List (GroupId × List SignedMessage)} {valid : Bool}
    (hmeets : msg.result.addReadset = true → QueryMeets qenv msg)
    (hsigs : (todo.flatMap (·.2)).Sublist msg.signatures)
    (hthreads : todo ≠ [] →
      qenv.parallelQuerySigsCheck = true ∧ msg.result.addReadset = true)
    (hsigned : valid = true → QuerySigned qenv msg)
    (hvalid : valid = (!qenv.parallelQuerySigsCheck && msg.result.addReadset)) :
    QueryInv qenv { s with queries := s.queries ++ [{ msg, todo, valid }] } := by
  have hx : CheckInv qenv { msg, todo, valid } :=
    { meets := hmeets, sigs := hsigs, shared := nofun, passed := nofun, count := le_rfl
      signed := hsigned, threads := fun ht => hthreads (ht.resolve_right fun hne => hne rfl)
      early := fun hpar hv => by simp [hvalid, hpar] at hv
      direct := fun hpar hadd => by simpa [hvalid, hpar] using hadd }
  exact { h with
    each := forall_mem_append.2 ⟨h.each, forall_mem_singleton.2 hx⟩
    numProcessed := by simp [h.numProcessed]
    numValid := fun hpar => by simp [h.numValid hpar, hvalid, hpar]
    committed := fun hc =>
      forall_mem_append.2 ⟨h.committed hc, forall_mem_singleton.2 nofun⟩ }

theorem receive_inv (hmeets : msg.result.addReadset = true → QueryMeets qenv msg) :
    QueryInv qenv (s.receive qenv msg) := by
  unfold QueryValidation.receive
  split
  · rename_i hskip
    have hadd : msg.result.addReadset = false := by
      by_contra hadd
      have hadd := Bool.eq_true_of_not_eq_false hadd
      simp [hadd, (hmeets hadd).checks.1] at hskip
    exact h.push hmeets (nil_sublist _) nofun nofun (by simp [hadd])
  · rename_i hcheck
    simp only [Bool.not_eq_true', Bool.not_eq_false, Bool.and_eq_true] at hcheck
    have hm := hmeets hcheck.1
    split
    · rename_i hpar
      refine h.push hmeets ?_ (fun _ => ⟨hpar, hcheck.1⟩) nofun (by simp [hpar])
      simp [hm.checks.2, ForwardQueryResultMessage.signatures]
    · rename_i hseq
      split
      · rename_i haccept
        exact h.push hmeets (nil_sublist _) nofun (fun _ => signed_of_accept hm haccept)
          (by simp [hseq, hcheck.1])
      · exact { h with }

theorem dispatch_inv (i : Nat) : QueryInv qenv (s.dispatch i) := by
  unfold QueryValidation.dispatch
  cases hx : s.queries[i]? with
  | none => exact h
  | some x =>
    dsimp only
    split
    · exact h
    · rename_i g sigs todo htodo
      split
      · exact { h with }
      · rename_i m hm
        have hi := h.each x (mem_of_getElem? hx)
        refine h.replace hx { hi with
          sigs := ?sigs, shared := fun _ => ⟨(g, m), mem_of_lookup hm, rfl⟩, passed := ?passed
          count := ?count, threads := fun _ => hi.threads (.inl (by simp [htodo])) } rfl rfl rfl
        case sigs =>
          have hsub := hi.sigs
          rw [htodo, flatMap_cons] at hsub
          simpa [Function.comp_def] using hsub
        case passed =>
          intro j hj hv
          rcases mem_append.1 hj with hj | hj
          · exact hi.passed j hj hv
          · obtain ⟨sig, -, rfl⟩ := mem_map.1 hj
            cases hv
        case count =>
          rw [countP_append]
          exact Nat.le_add_right_of_le hi.count

end

theorem CheckInv.setJob {j n m : Nat} {job job' : SigJob} (h : CheckInv qenv x)
    (hj : x.jobs[j]? = some job) (hsig : job'.sig = job.sig)
    (hpass : job'.isValid = some true → ∃ e ∈ x.msg.result.queryResMeta.groupMeta,
      checkQuerySigHelper qenv x.msg.result e.2 job.sig = true)
    (hn : n + (if job.finished && job.isValid == some true then 1 else 0) ≤
      x.numCheckPassed + if job'.finished && job'.isValid == some true then 1 else 0) :
    CheckInv qenv { x with jobs := x.jobs.set j job', numCheckPassed := n, numFinished := m } := by
  obtain ⟨js, ks, hjobs, hset⟩ := exists_set_split hj job'
  have hne : x.jobs ≠ [] := by simp [hjobs]
  rw [hset]
  refine { h with
    sigs := by simpa [hjobs, hsig] using h.sigs, shared := fun _ => h.shared hne
    passed := forall_mem_split hjobs h.passed (fun _ hz => hz) fun _ hv => hsig ▸ hpass hv
    count := ?count, threads := fun _ => h.threads (.inr hne) }
  case count =>
    have hcount := h.count
    rw [hjobs, countP_append, countP_cons] at hcount
    simp only [countP_append, countP_cons]
    omega

theorem check_inv (h : QueryInv qenv s) (i j : Nat) : QueryInv qenv (s.check qenv i j) := by
  unfold QueryValidation.check
  cases hx : s.queries[i]? with
  | none => exact h
  | some x =>
    dsimp only
    split
    · rename_i sig totalSigs hj
      have hi := h.each x (mem_of_getElem? hx)
      obtain ⟨e, he, heq⟩ := hi.shared (ne_nil_of_mem (mem_of_getElem? hj))
      refine h.replace hx (hi.setJob hj rfl (fun hv => ⟨e, he, ?_⟩) (by simp)) rfl rfl rfl
      rw [heq]
      exact some.inj hv
    · exact h

theorem process_inv (h : QueryInv qenv s) (i : Nat) : QueryInv qenv (s.process i) := by
  unfold QueryValidation.process
  cases hx : s.queries[i]? with
  | none => exact h
  | some x =>
    dsimp only
    split
    · exact h
    · rename_i hnew
      simp only [Bool.or_eq_true, not_or, Bool.not_eq_true] at hnew
      have hi := h.each x (mem_of_getElem? hx)
      have hdone : CheckInv qenv { x with processed := true } := { hi with
        early := fun hpar hv => by simpa [hnew.1.1] using hi.early hpar hv }
      have hopen (hc : s.committed = true) : (true : Bool) = x.processed := by
        rw [hnew.2] at hc
        cases hc
      split
      · rename_i hadd
        exact h.update hx hdone rfl (by simp [hnew.1.1, hadd]) (fun _ => rfl) id hopen
      · rename_i hadd
        split
        · exact h.update hx hdone rfl (by simp [hadd]) (fun _ => rfl) id hopen
        · exact { h with }

theorem CheckInv.signed_of_count (h : CheckInv qenv x) (hadd : x.msg.result.addReadset = true)
    (hcount : qenv.resultQuorum ≤ x.numCheckPassed) : QuerySigned qenv x.msg := by
  have hsub := (filter_sublist (l := x.jobs)
    (p := fun j => j.finished && j.isValid == some true)).map (·.sig)
  refine signed_of_passing (h.meets hadd)
    (hsub.trans ((sublist_append_left _ _).trans h.sigs)) ?_ ?_
  · intro sig hsig
    obtain ⟨j, hj, rfl⟩ := mem_map.1 hsig
    obtain ⟨hj, hv⟩ := mem_filter.1 hj
    simp only [Bool.and_eq_true, beq_iff_eq] at hv
    exact h.passed j hj hv.2
  · rw [length_map, ← countP_eq_length_filter]
    exact hcount.trans h.count

theorem report_inv (h : CheckInv qenv x) {j : Nat} {job : SigJob} {b : Bool}
    (hj : x.jobs[j]? = some job) (hb : job.isValid = some b) (hnew : job.finished = false) :
    CheckInv qenv (x.report j job b) := by
  refine h.setJob hj rfl (fun hv => h.passed job (mem_of_getElem? hj) hv) ?_
  cases b <;> simp [hnew, hb]

theorem finish_inv (h : QueryInv qenv s) (i j : Nat)
    (hsent : ∀ x, s.queries[i]? = some x → qenv.resultQuorum ≤ x.numCheckPassed + 1 →
      x.processed = true) : QueryInv qenv (s.finish qenv i j) := by
  unfold QueryValidation.finish
  cases hx : s.queries[i]? with
  | none => exact h
  | some x =>
    cases hj : x.jobs[j]? with
    | none => simpa [hj] using h
    | some job =>
      cases hb : job.isValid with
      | none => simpa [hj, hb] using h
      | some b =>
        simp only [hj, hb]
        split
        · exact h
        · rename_i hnew
          have hi := h.each x (mem_of_getElem? hx)
          have hyinv := report_inv hi hj hb (Bool.eq_false_of_not_eq_true hnew)
          obtain ⟨hpar, hadd⟩ := hi.threads (.inr (ne_nil_of_mem (mem_of_getElem? hj)))
          have hquiet := h.replace hx hyinv rfl rfl rfl
          split
          · exact hquiet
          · rename_i hnotValid
            have hnotValid : x.valid = false := Bool.eq_false_of_not_eq_true hnotValid
            split
            · rename_i hquorum
              have hpassed : (x.report j job b).numCheckPassed ≤ x.numCheckPassed + 1 := by
                unfold QueryCheck.report
                dsimp only
                split <;> omega
              have hdone := hsent x hx (hquorum.trans hpassed)
              have hsigned := hyinv.signed_of_count hadd hquorum
              have hmarks : (x.processed && x.msg.result.addReadset) = true := by
                rw [hdone, hadd]
                rfl
              have hyes : CheckInv qenv { x.report j job b with valid := true } := { hyinv with
                signed := fun _ => hsigned, early := fun _ _ => hmarks, direct := fun _ _ => rfl }
              refine QueryInv.unblock (h.update hx hyes rfl rfl ?_ (fun _ => rfl) fun _ => rfl)
              simp [hnotValid, QueryValidation.setQuery]
            · split
              · exact { h with }
              · exact hquiet

theorem commit_inv (h : QueryInv qenv s) : QueryInv qenv (s.commit qenv) := by
  unfold QueryValidation.commit
  split
  · exact h
  · split
    · rename_i hwait
      exact { h with waits := fun _ => (Bool.and_eq_true_iff.1 hwait).1 }
    · rename_i hdone
      refine { h with committed := fun _ => h.all_valid fun hpar => ?_ }
      rw [hpar, Bool.true_and, Bool.or_eq_true, not_or, decide_eq_true_eq, not_lt] at hdone
      exact hdone.1

theorem queryStep_inv (h : QueryInv qenv s) (e : QueryEvent) (hsent : WellSent qenv s e) :
    QueryInv qenv (s.step qenv e) := by
  unfold QueryValidation.step
  split
  · exact h
  · cases e with
    | receive msg => exact receive_inv h hsent
    | dispatch i => exact dispatch_inv h i
    | process i => exact process_inv h i
    | check i j => exact check_inv h i j
    | finish i j => exact finish_inv h i j hsent
    | read => exact { h with }
    | readValid => exact QueryInv.unblock { h with }
    | commit => exact commit_inv h

end

theorem queryInv_start (qenv : QueryEnv) : QueryInv qenv {} where
  each := nofun
  numProcessed := rfl
  numValid := fun _ => rfl
  waits := nofun
  committed := nofun

/-- **Queries that are taken as valid are signed.** If all messages meet the condition, a query is
taken as valid only if enough different replicas of its group have signed it, and COMMITTED is told
only if all queries are valid. -/
theorem queries_sound (qenv : QueryEnv) (es : List QueryEvent)
    (hes : (queryMachine qenv).Along (WellSent qenv) {} es) :
    QueriesSound qenv ((queryMachine qenv).run {} es) := by
  have hinv : QueryInv qenv ((queryMachine qenv).run {} es) :=
    Machine.run_along (M := queryMachine qenv) (I := QueryInv qenv)
      (fun _ e hsent h => queryStep_inv h e hsent) (queryInv_start qenv) hes
  exact hinv.sound

/-! ## Valid without signatures -/

def twoGroups (parallel : Bool) : QueryEnv :=
  { Env.sample with
    config := { Env.sample.config with groups := 2, n := 3 }
    parallelQuerySigsCheck := parallel
    readDepSize := 1
    verifyData := fun p _ signature => signature == [p.toUInt8]
    parseWrite := fun _ => {}
    resultQuorum := 2
    parseQueryResult := fun data => some
      { queryGenId := [1], queryResult := [2], queryReadSet := { readSet := [{ key := data }] } }
    sortReadSetByKey := id }

def queryMessage (reads : List (GroupId × UInt8))
    (sigs : List (GroupId × List (ProcessId × UInt8))) : ForwardQueryResultMessage :=
  { result :=
      { queryGenId := [1], queryResult := [2], addReadset := true
        queryResMeta :=
          { queryId := [], retryVersion := 0
            groupMeta := reads.map fun r =>
              (r.1, { queryReadSet := some { readSet := [{ key := [r.2] }] } }) } }
    querySigs := sigs.map fun e => (e.1, e.2.map fun s => ⟨[s.2], s.1, [s.1.toUInt8]⟩) }

/-- The main thread accepts two signatures of one replica or of another group. A thread compares
with the read set of the next group. A query that is reported early counts for another one. -/
theorem queries_unsound :
    let M := queryMachine (twoGroups true)
    let mixed := queryMessage [(0, 7), (1, 8)] [(0, [(0, 8), (1, 8)]), (1, [])]
    let unsigned := queryMessage [(0, 7)] [(0, [(0, 6)])]
    let signed := queryMessage [(0, 7)] [(0, [(0, 7), (1, 7)])]
    let s := M.run {} [.receive unsigned, .dispatch 0, .process 0, .receive signed, .dispatch 1,
      .check 1 0, .check 1 1, .finish 1 0, .finish 1 1, .commit]
    (∀ msg ∈ [queryMessage [(0, 7), (1, 8)] [(0, [(0, 7), (1, 7)])],
        queryMessage [(0, 7)] [(0, [(0, 7), (0, 7)])],
        queryMessage [(0, 7)] [(0, [(3, 7), (4, 7)])]],
      checkPreparedCommittedEvidence (twoGroups false) msg = .accept ∧
        ¬ QuerySigned (twoGroups false) msg) ∧
    ((M.run {} [.receive mixed, .dispatch 0, .dispatch 0, .process 0, .check 0 0, .check 0 1,
        .finish 0 0, .finish 0 1]).queries.map (·.valid) = [true] ∧
      ¬ QuerySigned (twoGroups true) mixed) ∧
    s.committed = true ∧ s.queries.map (fun x => (x.processed, x.valid)) =
      [(true, false), (false, true)] := by
  intro M mixed unsigned signed s
  simp only [List.forall_mem_cons, List.not_mem_nil, IsEmpty.forall_iff, implies_true, and_true]
  refine ⟨⟨⟨by decide +kernel, fun h => ?_⟩, ⟨by decide +kernel, fun h => ?_⟩,
    by decide +kernel, fun h => ?_⟩, ⟨by decide +kernel, fun h => ?_⟩, by decide +kernel⟩
  · obtain ⟨-, hall⟩ := (h (1, _) (List.mem_cons_of_mem _ List.mem_cons_self)).all rfl
    exact absurd (hall ⟨[7], 0, [0]⟩ (by decide)).1 (by decide)
  · exact absurd ((h (0, _) List.mem_cons_self).all rfl).1 (by decide)
  · obtain ⟨-, hall⟩ := (h (0, _) List.mem_cons_self).all rfl
    exact absurd (hall ⟨[7], 3, [3]⟩ (by decide)).1 (by decide)
  · obtain ⟨-, hall⟩ := (h (0, _) List.mem_cons_self).all rfl
    have hsigned := (hall ⟨[8], 0, [0]⟩ (by decide)).2
    exact absurd ((checkQuerySigHelper_iff _).2 hsigned) (by decide +kernel)

theorem wellSent_finish {qenv : QueryEnv} {s : QueryValidation} {i : Nat} (j : Nat)
    (h : (s.queries[i]?).all (·.processed) = true) : WellSent qenv s (.finish i j) := by
  intro x hx _
  rw [hx] at h
  exact h

theorem queries_sound_threads :
    let msg := queryMessage [(0, 7)] [(0, [(0, 7), (1, 7)])]
    let s := (queryMachine (twoGroups true)).run {} [.receive msg, .dispatch 0, .process 0,
      .commit, .check 0 1, .finish 0 1, .check 0 0, .finish 0 0]
    s.committed = true ∧ QueriesSound (twoGroups true) s := by
  intro msg s
  have hmeets : QueryMeets (twoGroups true) msg := ⟨⟨rfl, rfl, rfl⟩, by decide, by decide +kernel⟩
  refine ⟨by decide +kernel, queries_sound (twoGroups true) _ ⟨fun _ => hmeets, trivial, trivial,
    trivial, trivial, wellSent_finish 1 ?_, trivial, wellSent_finish 0 ?_, trivial⟩⟩
  · decide +kernel
  · decide +kernel

/-! ## What the hash of a read set determines -/

def instanceValues (rs : ReadSet) : List Bytes :=
  rs.readPredicates.flatMap (·.instantiations.flatten)

/-- **A hash determines the read set**, if the hash function is injective and keys, hashed read
times and values have the same lengths. -/
theorem singleHash_covers (qenv : QueryEnv) (hH : Function.Injective qenv.H) (a b : ReadSet)
    (hreads : a.readSet.map (readLayout qenv.params.hideTimestamps) =
      b.readSet.map (readLayout qenv.params.hideTimestamps))
    (hvalues : (instanceValues a).map List.length = (instanceValues b).map List.length)
    (h : generateReadSetSingleHash qenv a = generateReadSetSingleHash qenv b) :
    a.readSet.map (coveredRead qenv.params.hideTimestamps) =
        b.readSet.map (coveredRead qenv.params.hideTimestamps) ∧
      instanceValues a = instanceValues b := by
  have hvalue : Framing.Framed (fun v : Bytes => v) List.length fun v => v := .field _
  obtain ⟨hsame, hrest⟩ := (framed_read _).flatMap.split hreads (hH h)
  refine ⟨hsame, ?_⟩
  have hbytes (rs : ReadSet) :
      (rs.readPredicates.flatMap fun p => p.instantiations.flatten.flatten) =
        (instanceValues rs).flatMap fun v => v := by
    simp [instanceValues, List.flatMap_assoc, List.flatMap_id']
  rw [hbytes, hbytes] at hrest
  simpa using hvalue.flatMap.inj hvalues hrest

/-- A byte moves from one value into the next, or from a key into a value; a hidden read time may
change. The hash stays. -/
theorem singleHash_transfers :
    let rs (reads : List (Key × UInt64)) (values : List Bytes) : ReadSet :=
      { readSet := reads.map fun r =>
          { key := r.1, readtime := ⟨0, r.2⟩, hashedReadtime := some [7] }
        readPredicates := [{ tableName := [], instantiations := [values] }] }
    let hash (hideTimestamps : Bool) : ReadSet → Bytes :=
      generateReadSetSingleHash { twoGroups false with params := { hideTimestamps } }
    Function.Injective (twoGroups false).H ∧
    (hash false (rs [] [[1], [2]]) = hash false (rs [] [[1, 2]]) ∧
      instanceValues (rs [] [[1], [2]]) ≠ instanceValues (rs [] [[1, 2]])) ∧
    (hash false (rs [([0], 0)] []) = hash false (rs [([], 0)] [[0]]) ∧
      (rs [([0], 0)] []).readSet ≠ (rs [([], 0)] [[0]]).readSet) ∧
    hash true (rs [([0], 0)] []) = hash true (rs [([0], 1)] []) ∧
      (rs [([0], 0)] []).readSet ≠ (rs [([0], 1)] []).readSet := by
  intro rs hash
  refine ⟨fun _ _ h => h, ?_⟩
  decide +kernel

theorem singleHash_covers_tables :
    let rs (table : Bytes) : ReadSet :=
      { readSet := [{ key := [1], readtime := ⟨1, 1⟩ }]
        readPredicates := [{ tableName := table, instantiations := [[[2]]] }] }
    rs [3] ≠ rs [4] ∧ instanceValues (rs [3]) = instanceValues (rs [4]) := by
  intro rs
  exact ⟨by decide, (singleHash_covers (twoGroups false) (fun _ _ h => h) (rs [3]) (rs [4]) rfl rfl
    rfl).2⟩

end Sintr.Client
