import Mathlib.Data.List.Destutter
import Sintr.Semantic.ReadPred

/-!
# Merging the read sets of queries

A transaction with queries is checked against the read sets of these queries, which replicas have
cached when they executed them. `mergeTxReadSets` collects them into the merged read set of the
transaction. If a read set is not there yet, the transaction subscribes to its query and waits;
`wakeSubscribedTx` is called when a query has been executed.

* `fetchReadSet`: where the read set of a query is, or why it cannot be used.
* `mergeRound`: a round of the loop over the queries. With cached read sets the predicates are moved
  and not copied, and stay moved if the loop ends early.
-/

namespace Sintr.Query

open Semantic (Predicate)

/-! ## Data -/

structure QueryReadSet where
  readSet : List ReadMessage := []
  deps : List Dependency := []
  readPredicates : List Predicate := []
  deriving DecidableEq, Repr

structure GroupMeta where
  queryReadSet : Option QueryReadSet := none
  readSetHash : Option Bytes := none
  deriving DecidableEq, Repr

/-- A query of a transaction; `groupMeta` is the entry of this group. -/
structure QueryMd where
  queryId : Bytes
  retryVersion : UInt64 := 0
  groupMeta : Option GroupMeta
  deriving DecidableEq, Repr

structure QueryTxn where
  clientId : UInt64
  querySet : List QueryMd
  readSet : List ReadMessage := []
  deps : List Dependency := []
  readPredicates : List Predicate := []
  mergedReadSet : Option QueryReadSet := none
  deriving DecidableEq, Repr

structure CachedResult where
  queryReadSet : Option QueryReadSet
  queryResultHash : Option Bytes
  deriving DecidableEq, Repr

/-- The state of a query at a replica. -/
structure CachedQuery where
  clientId : UInt64
  retryVersion : UInt64
  hasResult : Bool := true
  failure : Bool := false
  result : Option CachedResult
  deriving DecidableEq, Repr

structure Waiting where
  versions : AList fun _ : Bytes => UInt64
  commit : Bool

abbrev Cache := Bytes → Option CachedQuery

structure QueryState where
  cache : Cache := fun _ => none
  subscribed : Bytes → Option Digest := fun _ => none
  missing : Digest → Option Waiting := fun _ => none

structure MergeParams where
  cacheReadSet : Bool
  mergeActiveAtClient : Bool
  parallelCCC : Bool
  /-- `std::sort` with `sortReadSetByKey` and with `sortDepSet`, which are not stable. -/
  sortReads : List ReadMessage → List ReadMessage
  sortDeps : List Dependency → List Dependency
  sortReads_perm : ∀ l, (sortReads l).Perm l
  sortDeps_perm : ∀ l, (sortDeps l).Perm l

/-! ## The read set of a query -/

/-- Where the read set of a query is. -/
inductive Fetched where
  | panic
  | wait
  | vote (res : CCResult)
  | elsewhere
  | carried (rs : QueryReadSet)
  | cached (rs : QueryReadSet)
  deriving DecidableEq, Repr

def CachedResult.fetch (r : CachedResult) (failure : Bool) (hash : Bytes) : Fetched :=
  match r.queryReadSet with
  | none => .vote .abstain
  | some rs =>
    if failure then .vote .abstain
    else if r.queryResultHash ≠ some hash then .vote .abstain
    else .cached rs

/-- What a cached query gives for a query of a transaction. An older version than the cached one is
a proof of misbehavior, which is not implemented. -/
def CachedQuery.fetch (c : CachedQuery) (clientId version : UInt64) (hash : Bytes) : Fetched :=
  if c.hasResult = false then .wait
  else if c.clientId ≠ clientId then .panic
  else if version ≠ c.retryVersion then
    if version < c.retryVersion then .panic else .wait
  else match c.result with
    | none => .panic
    | some r => r.fetch c.failure hash

def fetchReadSet (cache : Cache) (clientId : UInt64) (md : QueryMd) : Fetched :=
  match md.groupMeta with
  | none => .elsewhere
  | some m => match m.queryReadSet with
    | some rs => .carried rs
    | none => match m.readSetHash with
      | none => .vote .ignore
      | some hash => match cache md.queryId with
        | none => .wait
        | some c => c.fetch clientId md.retryVersion hash

/-! ## The loop -/

/-- One predicate that is moved to the merged ones. One with a single instance is taken for a
duplicate if the last one begins with the same instance, whatever its table. -/
def addPred (preds : List Predicate) (p : Predicate) : Option (List Predicate) :=
  match preds.getLast? with
  | none => some [p]
  | some last =>
    if p.predInstances.length = 1 then
      -- the last predicate is expected to have an instance
      match last.predInstances.head? with
      | none => none
      | some i => if p.predInstances.head? = some i then some preds else some (preds ++ [p])
    else some (preds ++ [p])

/-- The predicates are released from the end. -/
def movePreds (preds : List Predicate) (source : List Predicate) : Option (List Predicate) :=
  source.reverse.foldlM addPred preds

/-- What the loop has done: the queries it has been through, as it left them, the missing ones and
the read set so far. -/
structure MergeLoop where
  cache : Cache
  subscribed : Bytes → Option Digest
  visited : List QueryMd := []
  missing : List (Bytes × UInt64) := []
  merged : QueryReadSet := {}

inductive LoopEnd where
  | panic
  | vote (res : CCResult) (l : MergeLoop)

def QueryReadSet.robbed (rs : QueryReadSet) : QueryReadSet := { rs with readPredicates := [] }

def QueryMd.rob (md : QueryMd) (rs : QueryReadSet) : QueryMd :=
  { md with groupMeta := md.groupMeta.map fun m => { m with queryReadSet := some rs.robbed } }

def CachedQuery.rob (c : CachedQuery) (rs : QueryReadSet) : CachedQuery :=
  { c with result := c.result.map fun r => { r with queryReadSet := some rs.robbed } }

def Cache.rob (cache : Cache) (queryId : Bytes) (rs : QueryReadSet) : Cache :=
  Function.update cache queryId ((cache queryId).map (·.rob rs))

section Merge
variable (params : MergeParams) (digest : Digest) (clientId : UInt64)

def mergeReadSet (merged rs : QueryReadSet) : Option QueryReadSet :=
  (if params.cacheReadSet then movePreds merged.readPredicates rs.readPredicates
    else some (merged.readPredicates ++ rs.readPredicates)).map fun preds =>
    { readSet := merged.readSet ++ rs.readSet
      deps := merged.deps ++ rs.deps
      readPredicates := preds }

def MergeLoop.take (l : MergeLoop) (md : QueryMd) (rs : QueryReadSet) (carried : Bool)
    (merged : QueryReadSet) : MergeLoop :=
  if params.cacheReadSet then
    if carried then { l with merged, visited := l.visited ++ [md.rob rs] }
    else { l with merged, visited := l.visited ++ [md], cache := l.cache.rob md.queryId rs }
  else { l with merged, visited := l.visited ++ [md] }

def MergeLoop.pass (l : MergeLoop) (md : QueryMd) : MergeLoop :=
  { l with visited := l.visited ++ [md] }

def MergeLoop.found (l : MergeLoop) (md : QueryMd) (rs : QueryReadSet) (carried : Bool) :
    Except LoopEnd MergeLoop :=
  if l.missing ≠ [] then .ok (l.pass md)
  else match mergeReadSet params l.merged rs with
    | none => .error .panic
    | some merged => .ok (l.take params md rs carried merged)

def MergeLoop.wait (l : MergeLoop) (md : QueryMd) : MergeLoop :=
  { l.pass md with
    subscribed := Function.update l.subscribed md.queryId (some digest)
    missing := l.missing ++ [(md.queryId, md.retryVersion)] }

def mergeRound (l : MergeLoop) (md : QueryMd) : Except LoopEnd MergeLoop :=
  match fetchReadSet l.cache clientId md with
  | .panic => .error .panic
  | .wait => .ok (l.wait digest md)
  | .vote res => .error (.vote res l)
  | .elsewhere => .ok (l.pass md)
  | .carried rs => l.found params md rs true
  | .cached rs => l.found params md rs false

end Merge

/-! ## The merge -/

def equalReadMsg (a b : ReadMessage) : Bool := a.key == b.key && a.readtime == b.readtime

def equalDep (a b : Dependency) : Bool :=
  a.preparedTxnDigest == b.preparedTxnDigest && a.involvedGroup == b.involvedGroup

/-- The vote of a merge and the sets it hands on. -/
structure Merged where
  vote : CCResult
  readSet : List ReadMessage := []
  deps : List Dependency := []
  readPredicates : List Predicate := []

def QueryTxn.base (txn : QueryTxn) : Merged := ⟨.commit, txn.readSet, txn.deps, txn.readPredicates⟩

def QueryReadSet.merged (rs : QueryReadSet) : Merged :=
  ⟨.commit, rs.readSet, rs.deps, rs.readPredicates⟩

section Merge
variable (params : MergeParams)

def attachBase (txn : QueryTxn) (merged : QueryReadSet) : QueryReadSet where
  readSet :=
    if params.parallelCCC ∧ merged.readSet ≠ [] then
      (params.sortReads (merged.readSet ++ txn.readSet)).destutter fun a b =>
        equalReadMsg a b = false
    else merged.readSet ++ txn.readSet
  deps :=
    if merged.readSet ≠ [] then
      (params.sortDeps (merged.deps ++ txn.deps)).destutter fun a b => equalDep a b = false
    else merged.deps ++ txn.deps
  readPredicates := merged.readPredicates

def QueryTxn.leave (txn : QueryTxn) (l : MergeLoop) : QueryTxn :=
  { txn with querySet := l.visited ++ txn.querySet.drop l.visited.length }

def Waiting.ofMissing (missing : List (Bytes × UInt64)) (commit : Bool) : Waiting where
  versions := missing.foldl (fun m q => m.insert q.1 q.2) ∅
  commit

/-- After the loop: subscribe, or store what was merged. If nothing was read, nothing is stored. -/
def finishMerge (s : QueryState) (digest : Digest) (txn : QueryTxn) (commit : Bool)
    (l : MergeLoop) : Merged × QueryState × QueryTxn :=
  let s := { s with cache := l.cache, subscribed := l.subscribed }
  let txn := txn.leave l
  if l.missing ≠ [] then
    (⟨.wait, [], [], []⟩,
      { s with
        missing := Function.update s.missing digest (some (.ofMissing l.missing commit)) }, txn)
  else if l.merged.readSet = [] ∧ l.merged.readPredicates = [] then (txn.base, s, txn)
  else
    let merged := attachBase params txn l.merged
    (merged.merged, s, { txn with mergedReadSet := some merged })

/-- `mergeTxReadSets`, for a Prepare or a Commit; the process may stop. -/
def mergeTxReadSets (s : QueryState) (digest : Digest) (txn : QueryTxn) (commit : Bool) :
    Option (Merged × QueryState × QueryTxn) :=
  if params.cacheReadSet = false ∧ params.mergeActiveAtClient then some (txn.base, s, txn)
  else if txn.querySet = [] then some (txn.base, s, txn)
  else match txn.mergedReadSet with
    | some merged => some (merged.merged, s, txn)
    | none => match s.missing digest with
      | some w =>
        -- already subscribed
        some (⟨.wait, [], [], []⟩,
          { s with
            missing :=
              Function.update s.missing digest (some { w with commit := w.commit || commit }) },
          txn)
      | none =>
        match txn.querySet.foldlM (mergeRound params digest txn.clientId)
            { cache := s.cache, subscribed := s.subscribed } with
        | .error .panic => none
        | .error (.vote res l) =>
          some (⟨res, [], [], []⟩, { s with cache := l.cache, subscribed := l.subscribed },
            txn.leave l)
        | .ok l => some (finishMerge params s digest txn commit l)

end Merge

/-! ## The wake-up -/

/-- `wakeSubscribedTx`: the transaction that is resumed, if any. -/
def wakeSubscribedTx (s : QueryState) (queryId : Bytes) (version : UInt64) :
    QueryState × Option Digest :=
  match s.subscribed queryId with
  | none => (s, none)
  | some digest =>
    let s := { s with subscribed := Function.update s.subscribed queryId none }
    match s.missing digest with
    | none => (s, none)
    | some w => match w.versions.lookup queryId with
      | none => (s, none)
      | some needed =>
        if needed ≠ version then (s, none)
        else
          ({ s with missing := Function.update s.missing digest none },
            if (w.versions.erase queryId).entries = [] then some digest else none)

def cacheResult (params : MergeParams) (s : QueryState) (queryId : Bytes) (c : CachedQuery) :
    QueryState × Option Digest :=
  let s := { s with cache := Function.update s.cache queryId (some c) }
  if params.cacheReadSet then wakeSubscribedTx s queryId c.retryVersion else (s, none)

/-! ## What the loop does -/

section Loop
variable {params : MergeParams} {digest : Digest} {clientId : UInt64} {cache : Cache}
  {l l' : MergeLoop} {md : QueryMd} {rs : QueryReadSet} {txn txn' : QueryTxn} {s s' : QueryState}
  {res : CCResult} {commit : Bool}

/-- A round that goes on: the query is missing, did not read here, or has a read set, which is
merged if no query was missing before. -/
theorem mergeRound_cases (h : mergeRound params digest clientId l md = .ok l') :
    (fetchReadSet l.cache clientId md = .wait ∧ l' = l.wait digest md) ∨
    (fetchReadSet l.cache clientId md = .elsewhere ∧ l' = l.pass md) ∨
    ∃ rs carried, fetchReadSet l.cache clientId md = (if carried then .carried rs else .cached rs) ∧
      ((l.missing ≠ [] ∧ l' = l.pass md) ∨
        (l.missing = [] ∧ ∃ merged, mergeReadSet params l.merged rs = some merged ∧
          l' = l.take params md rs carried merged)) := by
  have hfound : ∀ rs carried, l.found params md rs carried = .ok l' →
      (l.missing ≠ [] ∧ l' = l.pass md) ∨
        (l.missing = [] ∧ ∃ merged, mergeReadSet params l.merged rs = some merged ∧
          l' = l.take params md rs carried merged) := by
    intro rs carried hl
    unfold MergeLoop.found at hl
    split_ifs at hl with hmissing
    · cases hl
      exact .inl ⟨hmissing, rfl⟩
    · cases hmerged : mergeReadSet params l.merged rs with
      | none =>
        rw [hmerged] at hl
        cases hl
      | some merged =>
        rw [hmerged] at hl
        cases hl
        exact .inr ⟨not_not.1 hmissing, merged, rfl, rfl⟩
  unfold mergeRound at h
  split at h
  · cases h
  · cases h
    exact .inl ⟨‹_›, rfl⟩
  · cases h
  · cases h
    exact .inr (.inl ⟨‹_›, rfl⟩)
  · exact .inr (.inr ⟨_, true, ‹_›, hfound _ true h⟩)
  · exact .inr (.inr ⟨_, false, ‹_›, hfound _ false h⟩)

theorem mergeRound_vote (h : mergeRound params digest clientId l md = .error (.vote res l')) :
    fetchReadSet l.cache clientId md = .vote res ∧ l' = l := by
  have hfound : ∀ rs carried, l.found params md rs carried ≠ .error (.vote res l') := by
    intro rs carried hl
    unfold MergeLoop.found at hl
    split_ifs at hl
    split at hl <;> cases hl
  unfold mergeRound at h
  split at h
  · cases h
  · cases h
  · rename_i res' hfetch
    cases h
    exact ⟨hfetch, rfl⟩
  · cases h
  · exact absurd h (hfound _ _)
  · exact absurd h (hfound _ _)

inductive Fetches (cache : Cache) (md : QueryMd) : Fetched → Prop
  | panic : Fetches cache md .panic
  | wait : Fetches cache md .wait
  | ignore : Fetches cache md (.vote .ignore)
  | abstain : Fetches cache md (.vote .abstain)
  | elsewhere : Fetches cache md .elsewhere
  | carried {m : GroupMeta} {rs : QueryReadSet} (hmeta : md.groupMeta = some m)
      (hrs : m.queryReadSet = some rs) : Fetches cache md (.carried rs)
  | cached {c : CachedQuery} {r : CachedResult} {rs : QueryReadSet}
      (hcache : cache md.queryId = some c) (hresult : c.result = some r)
      (hrs : r.queryReadSet = some rs) : Fetches cache md (.cached rs)

theorem fetchReadSet_fetches (cache : Cache) (clientId : UInt64) (md : QueryMd) :
    Fetches cache md (fetchReadSet cache clientId md) := by
  unfold fetchReadSet
  split
  · exact .elsewhere
  rename_i m hmeta
  split
  · rename_i hrs
    exact .carried hmeta hrs
  split
  · exact .ignore
  split
  · exact .wait
  rename_i c hcache
  unfold CachedQuery.fetch
  split_ifs
  · exact .wait
  · exact .panic
  · exact .panic
  · exact .wait
  split
  · exact .panic
  rename_i r hresult
  unfold CachedResult.fetch
  split
  · exact .abstain
  rename_i rs hrs
  split_ifs
  · exact .abstain
  · exact .abstain
  · exact .cached hcache hresult hrs

theorem fetchReadSet_vote (h : fetchReadSet cache clientId md = .vote res) :
    res = .abstain ∨ res = .ignore := by
  have hfetches := h ▸ fetchReadSet_fetches cache clientId md
  cases hfetches with
  | ignore => exact .inr rfl
  | abstain => exact .inl rfl

theorem fetchReadSet_cached (h : fetchReadSet cache clientId md = .cached rs) :
    ∃ c r, cache md.queryId = some c ∧ c.result = some r ∧ r.queryReadSet = some rs := by
  have hfetches := h ▸ fetchReadSet_fetches cache clientId md
  cases hfetches with
  | cached hcache hresult hrs => exact ⟨_, _, hcache, hresult, hrs⟩

theorem fetchReadSet_rob (h : fetchReadSet cache clientId md = .cached rs) (md' : QueryMd) :
    fetchReadSet (cache.rob md.queryId rs) clientId md' = fetchReadSet cache clientId md' ∨
      (fetchReadSet cache clientId md' = .cached rs ∧
        fetchReadSet (cache.rob md.queryId rs) clientId md' = .cached rs.robbed) := by
  obtain ⟨c, r, hcache, hresult, hrs⟩ := fetchReadSet_cached h
  by_cases hq : md'.queryId = md.queryId
  · have hrob : cache.rob md.queryId rs md'.queryId = some (c.rob rs) := by
      rw [hq, Cache.rob, Function.update_self, hcache]
      rfl
    unfold fetchReadSet
    rw [hrob, hq, hcache]
    split
    · exact .inl rfl
    · split
      · exact .inl rfl
      · split
        · exact .inl rfl
        · simp only [CachedQuery.fetch, CachedQuery.rob, hresult, Option.map_some]
          split_ifs
          · exact .inl rfl
          · exact .inl rfl
          · exact .inl rfl
          · exact .inl rfl
          · simp only [CachedResult.fetch, hrs]
            split_ifs
            · exact .inl rfl
            · exact .inl rfl
            · exact .inr ⟨rfl, rfl⟩
  · left
    have hrob : cache.rob md.queryId rs md'.queryId = cache md'.queryId :=
      Function.update_of_ne hq _ _
    unfold fetchReadSet
    rw [hrob]

/-- How a merge may end: without a loop, because the transaction is subscribed already, with the
vote of a query, or after the loop. -/
theorem mergeTxReadSets_cases {m : Merged}
    (h : mergeTxReadSets params s digest txn commit = some (m, s', txn')) :
    (s' = s ∧ txn' = txn ∧
      (((params.cacheReadSet = false ∧ params.mergeActiveAtClient = true ∨ txn.querySet = []) ∧
        m = txn.base) ∨ ∃ merged, txn.mergedReadSet = some merged ∧ m = merged.merged)) ∨
    (s.missing digest ≠ none ∧ m.vote = .wait ∧ s'.cache = s.cache ∧ txn' = txn) ∨
    (s.missing digest = none ∧ ∃ res l,
      txn.querySet.foldlM (mergeRound params digest txn.clientId)
        { cache := s.cache, subscribed := s.subscribed } = .error (.vote res l) ∧
      m.vote = res ∧ s'.cache = l.cache ∧ txn' = txn.leave l) ∨
    (s.missing digest = none ∧ ∃ l,
      txn.querySet.foldlM (mergeRound params digest txn.clientId)
        { cache := s.cache, subscribed := s.subscribed } = .ok l ∧
      (m, s', txn') = finishMerge params s digest txn commit l) := by
  unfold mergeTxReadSets at h
  split_ifs at h with hclient hempty
  · cases h
    exact .inl ⟨rfl, rfl, .inl ⟨.inl hclient, rfl⟩⟩
  · cases h
    exact .inl ⟨rfl, rfl, .inl ⟨.inr hempty, rfl⟩⟩
  cases hmerged : txn.mergedReadSet with
  | some merged =>
    rw [hmerged] at h
    cases h
    exact .inl ⟨rfl, rfl, .inr ⟨merged, rfl, rfl⟩⟩
  | none =>
    cases hmissing : s.missing digest with
    | some w =>
      simp only [hmerged, hmissing] at h
      cases h
      exact .inr (.inl ⟨by simp, rfl, rfl, rfl⟩)
    | none =>
      simp only [hmerged, hmissing] at h
      split at h
      · cases h
      · rename_i res l herror
        cases h
        exact .inr (.inr (.inl ⟨rfl, res, l, herror, rfl, rfl, rfl⟩))
      · rename_i l hok
        exact .inr (.inr (.inr ⟨rfl, l, hok, (Option.some.inj h).symm⟩))

theorem finishMerge_cases {m : Merged}
    (h : (m, s', txn') = finishMerge params s digest txn commit l) :
    (l.missing ≠ [] ∧ m.vote = .wait ∧ txn' = txn.leave l ∧
      s' = ⟨l.cache, l.subscribed,
        Function.update s.missing digest (some (.ofMissing l.missing commit))⟩) ∨
    (l.missing = [] ∧ l.merged.readSet = [] ∧ l.merged.readPredicates = [] ∧
      m = (txn.leave l).base) ∨
    (l.missing = [] ∧ m = (attachBase params (txn.leave l) l.merged).merged) := by
  unfold finishMerge at h
  simp only [ne_eq] at h
  split_ifs at h with hmissing hread
  · cases h
    exact .inr (.inl ⟨hmissing, hread.1, hread.2, rfl⟩)
  · cases h
    exact .inr (.inr ⟨hmissing, rfl⟩)
  · cases h
    exact .inl ⟨hmissing, rfl, rfl, rfl⟩

end Loop

/-! ## A replica that caches read sets -/

def cachingParams : MergeParams where
  cacheReadSet := true
  mergeActiveAtClient := false
  parallelCCC := true
  sortReads := id
  sortDeps := id
  sortReads_perm := fun _ => .refl _
  sortDeps_perm := fun _ => .refl _

def hashedQueries (queryIds : List (Bytes × UInt64)) : QueryTxn where
  clientId := 1
  querySet := queryIds.map fun q => ⟨q.1, q.2, some { readSetHash := some [7] }⟩

end Sintr.Query
