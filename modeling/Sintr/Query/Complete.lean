import Sintr.Lib.Machine
import Sintr.Lib.Sorting
import Sintr.Query.Merge

/-!
# Merged read sets are complete

A transaction may be checked several times before the read sets of its queries are there. Each check
merges what it finds. With cached read sets the merge moves predicates out of the cache, drops some
that it takes for duplicates, and forgets what it has moved if it has to stop.

* `Safe`: before a check, nothing will be lost: no predicate is moved before a query that is not
  there, no predicate is dropped in favor of one of another table or version, and there are no
  dependencies without a read.
* `commit_complete`: a safe merge that votes COMMIT has all reads, dependencies and predicates.
* `retry_keeps`: a safe merge with another vote leaves the cache and the transaction as they were.
-/

namespace Sintr.Query

open List Option Function

open Semantic (Predicate)

variable {params : MergeParams} {digest : Digest} {clientId : UInt64} {cache : Cache}
  {l l' : MergeLoop} {md : QueryMd} {queries : List QueryMd} {rs : QueryReadSet}

/-! ## What a query gives -/

def Fetched.readSet : Fetched → Option QueryReadSet
  | .carried rs => some rs
  | .cached rs => some rs
  | _ => none

/-- The loop goes on with the next query and misses nothing. -/
def Fetched.usable : Fetched → Bool
  | .elsewhere => true
  | .carried _ => true
  | .cached _ => true
  | _ => false

def allReads (cache : Cache) (clientId : UInt64) (queries : List QueryMd) : List ReadMessage :=
  queries.flatMap fun md => ((fetchReadSet cache clientId md).readSet.map (·.readSet)).getD []

def allDeps (cache : Cache) (clientId : UInt64) (queries : List QueryMd) : List Dependency :=
  queries.flatMap fun md => ((fetchReadSet cache clientId md).readSet.map (·.deps)).getD []

def allPreds (cache : Cache) (clientId : UInt64) (queries : List QueryMd) : List Predicate :=
  queries.flatMap fun md =>
    ((fetchReadSet cache clientId md).readSet.map (·.readPredicates)).getD []

def AllUsable (cache : Cache) (clientId : UInt64) (queries : List QueryMd) : Prop :=
  ∀ md ∈ queries, (fetchReadSet cache clientId md).usable = true
deriving Decidable

def predSeq (clientId : UInt64) : Cache → List QueryMd → List Predicate
  | _, [] => []
  | cache, md :: rest => match fetchReadSet cache clientId md with
    | .carried rs => rs.readPredicates.reverse ++ predSeq clientId cache rest
    | .cached rs =>
      rs.readPredicates.reverse ++ predSeq clientId (cache.rob md.queryId rs) rest
    | _ => predSeq clientId cache rest

/-! ## Taking predicates -/

section
variable (h : fetchReadSet cache clientId md = .cached rs)
include h

theorem rob_same (md' : QueryMd) :
    (fetchReadSet (cache.rob md.queryId rs) clientId md').usable =
        (fetchReadSet cache clientId md').usable ∧
      (fetchReadSet (cache.rob md.queryId rs) clientId md').readSet.map (·.readSet) =
        (fetchReadSet cache clientId md').readSet.map (·.readSet) ∧
      (fetchReadSet (cache.rob md.queryId rs) clientId md').readSet.map (·.deps) =
        (fetchReadSet cache clientId md').readSet.map (·.deps) := by
  rcases fetchReadSet_rob h md' with hsame | ⟨hcached, hrobbed⟩
  · rw [hsame]
    exact ⟨rfl, rfl, rfl⟩
  · rw [hcached, hrobbed]
    exact ⟨rfl, rfl, rfl⟩

theorem allReads_rob (queries : List QueryMd) :
    allReads (cache.rob md.queryId rs) clientId queries = allReads cache clientId queries := by
  unfold allReads
  simp only [(rob_same h _).2.1]

theorem allDeps_rob (queries : List QueryMd) :
    allDeps (cache.rob md.queryId rs) clientId queries = allDeps cache clientId queries := by
  unfold allDeps
  simp only [(rob_same h _).2.2]

theorem allUsable_rob (queries : List QueryMd) :
    AllUsable (cache.rob md.queryId rs) clientId queries ↔ AllUsable cache clientId queries := by
  unfold AllUsable
  simp only [(rob_same h _).1]

end

variable {p q : Predicate} {preds preds' : List Predicate} {merged : QueryReadSet} {carried : Bool}
  {seq : List Predicate} {k : Predicate}

theorem mem_predSeq (hmd : md ∈ queries)
    (hfetch : (fetchReadSet cache clientId md).readSet = some rs) (hp : p ∈ rs.readPredicates) :
    p ∈ predSeq clientId cache queries := by
  induction queries generalizing cache with
  | nil => cases hmd
  | cons first rest ih =>
    unfold predSeq
    rcases mem_cons.1 hmd with rfl | hmd
    · cases hcase : fetchReadSet cache clientId md with
      | carried | cached =>
        rw [hcase] at hfetch
        cases hfetch
        simp [hp]
      | panic | wait | vote | elsewhere => simp [hcase, Fetched.readSet] at hfetch
    · cases hcase : fetchReadSet cache clientId first with
      | carried rs' => exact mem_append_right _ (ih hmd hfetch)
      | cached rs' =>
        rcases fetchReadSet_rob hcase md with hsame | ⟨hcached, -⟩
        · exact mem_append_right _ (ih hmd (by rw [hsame, hfetch]))
        · rw [hcached] at hfetch
          cases hfetch
          exact mem_append_left _ (mem_reverse.2 hp)
      | panic | wait | vote | elsewhere => exact ih hmd hfetch

/-! ## Predicates that are dropped -/

def Subsumes (merged p : Predicate) : Prop :=
  merged.tableName = p.tableName ∧ merged.tableVersion = p.tableVersion ∧
    ∀ i ∈ p.predInstances, i ∈ merged.predInstances

def TrueDuplicate (first second : Predicate) : Prop :=
  second.predInstances.length = 1 → second.predInstances.head? = first.predInstances.head? →
    first.tableName = second.tableName ∧ first.tableVersion = second.tableVersion
deriving Decidable

structure StandsFor (merged p : Predicate) : Prop where
  subsumes : Subsumes merged p
  head : merged.predInstances.head? = p.predInstances.head?

theorem StandsFor.refl (p : Predicate) : StandsFor p p := ⟨⟨rfl, rfl, fun _ hi => hi⟩, rfl⟩

theorem addPred_cases (h : addPred preds p = some preds') :
    preds' = preds ++ [p] ∨ preds' = preds ∧ ∃ k i, preds.getLast? = some k ∧
      k.predInstances.head? = some i ∧ p.predInstances = [i] := by
  unfold addPred at h
  split at h
  · rename_i hlast
    cases h
    rw [getLast?_eq_none_iff.1 hlast]
    exact .inl rfl
  · rename_i k hlast
    split_ifs at h with hone
    · split at h
      · cases h
      · rename_i i hhead
        obtain ⟨a, ha⟩ := length_eq_one_iff.1 hone
        split_ifs at h with heq
        · cases h
          rw [ha, head?_cons, some.injEq] at heq
          exact .inr ⟨rfl, k, i, hlast, hhead, heq ▸ ha⟩
        · exact .inl (some.inj h).symm
    · exact .inl (some.inj h).symm

theorem addPred_keeps (h : addPred preds p = some preds') (hq : q ∈ preds) : q ∈ preds' := by
  rcases addPred_cases h with rfl | ⟨rfl, -⟩
  · exact mem_append_left _ hq
  · exact hq

theorem addPred_standsFor (h : addPred preds p = some preds') (hlast : preds.getLast? = some k)
    (hk : StandsFor k q) (hdup : TrueDuplicate q p) :
    ∃ k', preds'.getLast? = some k' ∧ StandsFor k' p := by
  rcases addPred_cases h with rfl | ⟨rfl, k', i, hk', hhead, hone⟩
  · exact ⟨p, by simp, .refl p⟩
  · obtain rfl : k' = k := some.inj (hk'.symm.trans hlast)
    obtain ⟨hkt, hkv, -⟩ := hk.subsumes
    obtain ⟨htable, hversion⟩ := hdup (by simp [hone]) (by simp [hone, ← hk.head, hhead])
    refine ⟨k', hlast, ⟨hkt.trans htable, hkv.trans hversion, fun j hj => ?_⟩,
      by simp [hone, hhead]⟩
    rw [hone, mem_singleton] at hj
    exact hj ▸ mem_of_head? hhead

theorem addPreds_subsume (h : seq.foldlM addPred preds = some preds')
    (hlast : preds.getLast? = some k) (hk : StandsFor k q)
    (hchain : (q :: seq).IsChain TrueDuplicate) :
    (∀ m ∈ preds, m ∈ preds') ∧ ∀ p ∈ seq, ∃ m ∈ preds', Subsumes m p := by
  induction seq generalizing preds q k with
  | nil =>
    cases h
    exact ⟨fun m hm => hm, by simp⟩
  | cons p rest ih =>
    obtain ⟨mid, hadd, hrest⟩ := bind_eq_some_iff.1 h
    obtain ⟨hdup, hchain⟩ := isChain_cons_cons.1 hchain
    obtain ⟨k', hlast', hk'⟩ := addPred_standsFor hadd hlast hk hdup
    obtain ⟨hkeep, hall⟩ := ih hrest hlast' hk' hchain
    refine ⟨fun m hm => hkeep m (addPred_keeps hadd hm), fun p' hp' => ?_⟩
    rcases mem_cons.1 hp' with rfl | hp'
    · exact ⟨k', hkeep k' (mem_of_getLast? hlast'), hk'.subsumes⟩
    · exact hall p' hp'

theorem movePreds_subsume (h : seq.foldlM addPred [] = some preds)
    (hchain : seq.IsChain TrueDuplicate) : ∀ p ∈ seq, ∃ m ∈ preds, Subsumes m p := by
  cases seq with
  | nil => simp
  | cons p rest =>
    have hrest : rest.foldlM addPred [p] = some preds := h
    obtain ⟨hkeep, hall⟩ := addPreds_subsume hrest rfl (.refl p) hchain
    intro p' hp'
    rcases mem_cons.1 hp' with rfl | hp'
    · exact ⟨p', hkeep p' (by simp), (StandsFor.refl p').subsumes⟩
    · exact hall p' hp'

/-! ## The loop over queries that are all there -/

structure MergedAll (params : MergeParams) (clientId : UInt64) (l l' : MergeLoop)
    (queries : List QueryMd) : Prop where
  missing : l'.missing = []
  reads : l'.merged.readSet = l.merged.readSet ++ allReads l.cache clientId queries
  deps : l'.merged.deps = l.merged.deps ++ allDeps l.cache clientId queries
  moved : params.cacheReadSet = true →
    (predSeq clientId l.cache queries).foldlM addPred l.merged.readPredicates =
      some l'.merged.readPredicates
  copied : params.cacheReadSet = false →
    l'.merged.readPredicates = l.merged.readPredicates ++ allPreds l.cache clientId queries

theorem mergeReadSet_eq {merged' : QueryReadSet}
    (h : mergeReadSet params merged rs = some merged') :
    merged'.readSet = merged.readSet ++ rs.readSet ∧ merged'.deps = merged.deps ++ rs.deps ∧
      (params.cacheReadSet = true →
        rs.readPredicates.reverse.foldlM addPred merged.readPredicates =
          some merged'.readPredicates) ∧
      (params.cacheReadSet = false →
        merged'.readPredicates = merged.readPredicates ++ rs.readPredicates) := by
  obtain ⟨preds, hpreds, rfl⟩ := map_eq_some_iff.1 h
  refine ⟨rfl, rfl, fun hcaching => ?_, fun hcaching => ?_⟩
  · rw [if_pos hcaching] at hpreds
    exact hpreds
  · rw [if_neg (by simp [hcaching])] at hpreds
    exact (some.inj hpreds).symm

structure TakesFrom (params : MergeParams) (clientId : UInt64) (cache cache' : Cache) (md : QueryMd)
    (rs : QueryReadSet) (rest : List QueryMd) : Prop where
  reads : allReads cache' clientId rest = allReads cache clientId rest
  deps : allDeps cache' clientId rest = allDeps cache clientId rest
  usable : AllUsable cache' clientId rest ↔ AllUsable cache clientId rest
  moved : params.cacheReadSet = true → predSeq clientId cache (md :: rest) =
    rs.readPredicates.reverse ++ predSeq clientId cache' rest
  copied : params.cacheReadSet = false → cache' = cache

theorem take_takesFrom (params : MergeParams) (merged : QueryReadSet) (rest : List QueryMd)
    (hfetch : fetchReadSet l.cache clientId md = if carried then .carried rs else .cached rs) :
    TakesFrom params clientId l.cache (l.take params md rs carried merged).cache md rs rest := by
  unfold MergeLoop.take
  split_ifs with hcaching hcarried
  · rw [if_pos hcarried] at hfetch
    exact ⟨rfl, rfl, Iff.rfl, fun _ => by rw [predSeq, hfetch], fun _ => rfl⟩
  · rw [if_neg hcarried] at hfetch
    exact ⟨allReads_rob hfetch rest, allDeps_rob hfetch rest, allUsable_rob hfetch rest,
      fun _ => by rw [predSeq, hfetch], fun hno => by rw [hno] at hcaching; cases hcaching⟩
  · exact ⟨rfl, rfl, Iff.rfl, fun hyes => absurd hyes hcaching, fun _ => rfl⟩

@[simp] theorem take_merged :
    (l.take params md rs carried merged).merged = merged := by
  unfold MergeLoop.take
  split_ifs <;> rfl

@[simp] theorem take_missing :
    (l.take params md rs carried merged).missing = l.missing := by
  unfold MergeLoop.take
  split_ifs <;> rfl

theorem readSet_of_found
    (hfetch : fetchReadSet cache clientId md = if carried then .carried rs else .cached rs) :
    (fetchReadSet cache clientId md).readSet = some rs := by
  rw [hfetch]
  cases carried <;> rfl

theorem mergeRounds_all (h : queries.foldlM (mergeRound params digest clientId) l = .ok l')
    (hl : l.missing = []) (hall : AllUsable l.cache clientId queries) :
    MergedAll params clientId l l' queries := by
  induction queries generalizing l with
  | nil =>
    cases h
    exact ⟨hl, by simp [allReads], by simp [allDeps], fun _ => rfl, fun _ => by simp [allPreds]⟩
  | cons md rest ih =>
    obtain ⟨m, hround, hrest⟩ := Except.bind_eq_ok.1 h
    obtain ⟨husable, hall⟩ := forall_mem_cons.1 hall
    rcases mergeRound_cases hround with ⟨hfetch, rfl⟩ | ⟨hfetch, rfl⟩ | ⟨rs, carried, hfetch, hcase⟩
    · rw [hfetch] at husable
      cases husable
    · obtain ⟨hmissing, hreads, hdeps, hmoved, hcopied⟩ := ih hrest hl hall
      refine ⟨hmissing, ?_, ?_, fun hcaching => ?_, fun hcaching => ?_⟩
      · rw [hreads]
        simp [allReads, hfetch, Fetched.readSet, MergeLoop.pass]
      · rw [hdeps]
        simp [allDeps, hfetch, Fetched.readSet, MergeLoop.pass]
      · rw [predSeq, hfetch]
        exact hmoved hcaching
      · rw [hcopied hcaching]
        simp [allPreds, hfetch, Fetched.readSet, MergeLoop.pass]
    · obtain ⟨hne, -⟩ | ⟨-, merged, hmerged, rfl⟩ := hcase
      · exact absurd hl hne
      obtain ⟨hr, hd, hm, hc⟩ := mergeReadSet_eq hmerged
      have htakes := take_takesFrom params merged rest hfetch
      have hfound := readSet_of_found hfetch
      obtain ⟨hmissing, hreads, hdeps, hmoved, hcopied⟩ :=
        ih hrest (take_missing.trans hl) (htakes.usable.2 hall)
      refine ⟨hmissing, ?_, ?_, fun hcaching => ?_, fun hcaching => ?_⟩
      · rw [hreads, take_merged, hr, htakes.reads]
        simp [allReads, hfound]
      · rw [hdeps, take_merged, hd, htakes.deps]
        simp [allDeps, hfound]
      · rw [htakes.moved hcaching, foldlM_append, hm hcaching]
        rw [take_merged] at hmoved
        exact hmoved hcaching
      · rw [hcopied hcaching, take_merged, hc hcaching, htakes.copied hcaching]
        simp [allPreds, hfound]

theorem allUsable_of_ok (h : queries.foldlM (mergeRound params digest clientId) l = .ok l')
    (hl' : l'.missing = []) : l.missing = [] ∧ AllUsable l.cache clientId queries := by
  induction queries generalizing l with
  | nil =>
    cases h
    exact ⟨hl', by simp [AllUsable]⟩
  | cons md rest ih =>
    obtain ⟨m, hround, hrest⟩ := Except.bind_eq_ok.1 h
    obtain ⟨hmissing, hall⟩ := ih hrest
    rcases mergeRound_cases hround with ⟨hfetch, rfl⟩ | ⟨hfetch, rfl⟩ | ⟨rs, carried, hfetch, hcase⟩
    · simp [MergeLoop.wait] at hmissing
    · exact ⟨hmissing, forall_mem_cons.2 ⟨by rw [hfetch]; rfl, hall⟩⟩
    · obtain ⟨hne, rfl⟩ | ⟨hl, merged, hmerged, rfl⟩ := hcase
      · exact absurd hmissing hne
      · have hrest := (take_takesFrom params merged rest hfetch).usable.1 hall
        refine ⟨hl, forall_mem_cons.2 ⟨?_, hrest⟩⟩
        rw [hfetch]
        cases carried <;> rfl

/-! ## A merge that does not vote COMMIT -/

/-- There are no predicates before the first query that cannot be used. -/
def Untouched (cache : Cache) (clientId : UInt64) (queries : List QueryMd) : Prop :=
  ∀ md ∈ queries.takeWhile (fun md => (fetchReadSet cache clientId md).usable),
    ∀ rs ∈ (fetchReadSet cache clientId md).readSet, rs.readPredicates = []
deriving Decidable

theorem robbed_self (hp : rs.readPredicates = []) : rs.robbed = rs := by
  obtain ⟨reads, deps, preds⟩ := rs
  rw [QueryReadSet.robbed]
  exact congrArg _ hp.symm

theorem rob_self (hp : rs.readPredicates = [])
    (hfetch : fetchReadSet cache clientId md = .cached rs) : cache.rob md.queryId rs = cache := by
  obtain ⟨c, r, hcache, hresult, hrs⟩ := fetchReadSet_cached hfetch
  have hrob : c.rob rs = c := by
    unfold CachedQuery.rob
    rw [robbed_self hp, hresult, map_some, ← hrs, ← hresult]
  rw [Cache.rob, hcache, map_some, hrob, ← hcache, update_eq_self]

theorem fetchReadSet_carried (h : fetchReadSet cache clientId md = .carried rs) :
    ∃ m, md.groupMeta = some m ∧ m.queryReadSet = some rs := by
  have hfetches := h ▸ fetchReadSet_fetches cache clientId md
  cases hfetches with
  | carried hmeta hrs => exact ⟨_, hmeta, hrs⟩

theorem md_rob_self (hp : rs.readPredicates = [])
    (hfetch : fetchReadSet cache clientId md = .carried rs) : md.rob rs = md := by
  obtain ⟨m, hmeta, hrs⟩ := fetchReadSet_carried hfetch
  unfold QueryMd.rob
  rw [robbed_self hp, hmeta, map_some, ← hrs, ← hmeta]

theorem take_keeps (merged : QueryReadSet)
    (hfetch : fetchReadSet l.cache clientId md = if carried then .carried rs else .cached rs)
    (hp : params.cacheReadSet = true → rs.readPredicates = []) :
    (l.take params md rs carried merged).cache = l.cache ∧
      (l.take params md rs carried merged).visited = l.visited ++ [md] := by
  unfold MergeLoop.take
  split_ifs with hcaching hcarried
  · rw [if_pos hcarried] at hfetch
    exact ⟨rfl, by rw [md_rob_self (hp hcaching) hfetch]⟩
  · rw [if_neg hcarried] at hfetch
    exact ⟨rob_self (hp hcaching) hfetch, rfl⟩
  · exact ⟨rfl, rfl⟩

/-- Nothing is taken once a query is missing, or if there is nothing to take before. -/
def TakesNothing (params : MergeParams) (clientId : UInt64) (l : MergeLoop)
    (queries : List QueryMd) : Prop :=
  l.missing ≠ [] ∨ (params.cacheReadSet = true → Untouched l.cache clientId queries)

theorem Untouched.tail (h : Untouched cache clientId (md :: queries))
    (husable : (fetchReadSet cache clientId md).usable = true) :
    (∀ rs ∈ (fetchReadSet cache clientId md).readSet, rs.readPredicates = []) ∧
      Untouched cache clientId queries := by
  unfold Untouched at h
  rw [takeWhile_cons, husable] at h
  exact forall_mem_cons.1 h

theorem mergeRound_keeps (h : mergeRound params digest clientId l md = .ok l')
    (hnothing : TakesNothing params clientId l (md :: queries)) :
    l'.cache = l.cache ∧ l'.visited = l.visited ++ [md] ∧
      TakesNothing params clientId l' queries := by
  rcases mergeRound_cases h with ⟨hfetch, rfl⟩ | ⟨hfetch, rfl⟩ | ⟨rs, carried, hfetch, hcase⟩
  · exact ⟨rfl, rfl, .inl (by simp [MergeLoop.wait])⟩
  · refine ⟨rfl, rfl, hnothing.imp id fun huntouched hcaching => ?_⟩
    exact ((huntouched hcaching).tail (by rw [hfetch]; rfl)).2
  · obtain ⟨hne, rfl⟩ | ⟨hl, merged, -, rfl⟩ := hcase
    · exact ⟨rfl, rfl, .inl hne⟩
    · have husable : (fetchReadSet l.cache clientId md).usable = true := by
        rw [hfetch]
        cases carried <;> rfl
      have huntouched := hnothing.resolve_left (not_not.2 hl)
      obtain ⟨hcache, hvisited⟩ := take_keeps merged hfetch fun hcaching =>
        ((huntouched hcaching).tail husable).1 rs (readSet_of_found hfetch)
      refine ⟨hcache, hvisited, .inr fun hcaching => ?_⟩
      rw [hcache]
      exact ((huntouched hcaching).tail husable).2

theorem mergeRounds_keep (hnothing : TakesNothing params clientId l queries) :
    (queries.foldlM (mergeRound params digest clientId) l = .ok l' →
      l'.cache = l.cache ∧ l'.visited = l.visited ++ queries) ∧
    ∀ res, queries.foldlM (mergeRound params digest clientId) l = .error (.vote res l') →
      l'.cache = l.cache ∧ ∃ rest, l.visited ++ queries = l'.visited ++ rest := by
  induction queries generalizing l with
  | nil =>
    refine ⟨fun h => ?_, fun res h => ?_⟩
    · cases h
      exact ⟨rfl, by simp⟩
    · cases h
  | cons md rest ih =>
    refine ⟨fun h => ?_, fun res h => ?_⟩
    · obtain ⟨m, hround, hrest⟩ := Except.bind_eq_ok.1 h
      obtain ⟨hcache, hvisited, hm⟩ := mergeRound_keeps hround hnothing
      obtain ⟨hcache', hvisited'⟩ := (ih hm).1 hrest
      exact ⟨hcache'.trans hcache, by rw [hvisited', hvisited]; simp⟩
    · rcases Except.bind_eq_error.1 h with hround | ⟨m, hround, hrest⟩
      · obtain ⟨-, rfl⟩ := mergeRound_vote hround
        exact ⟨rfl, _, rfl⟩
      · obtain ⟨hcache, hvisited, hm⟩ := mergeRound_keeps hround hnothing
        obtain ⟨hcache', rest', hrest'⟩ := (ih hm).2 res hrest
        refine ⟨hcache'.trans hcache, rest', ?_⟩
        rw [← hrest', hvisited]
        simp

/-! ## Safe checks -/

structure Safe (params : MergeParams) (digest : Digest) (s : QueryState) (txn : QueryTxn) :
    Prop where
  merges : params.cacheReadSet = true ∨ params.mergeActiveAtClient = false
  fresh : txn.mergedReadSet = none
  untouched : s.missing digest = none → params.cacheReadSet = true →
    ¬AllUsable s.cache txn.clientId txn.querySet → Untouched s.cache txn.clientId txn.querySet
  duplicates : s.missing digest = none → params.cacheReadSet = true →
    AllUsable s.cache txn.clientId txn.querySet →
    (predSeq txn.clientId s.cache txn.querySet).IsChain TrueDuplicate
  dependencies : s.missing digest = none → AllUsable s.cache txn.clientId txn.querySet →
    allReads s.cache txn.clientId txn.querySet = [] →
    allPreds s.cache txn.clientId txn.querySet = [] →
    allDeps s.cache txn.clientId txn.querySet = []

structure Merged.Covers (m : Merged) (rs : QueryReadSet) : Prop where
  reads : ∀ r ∈ rs.readSet, ∃ r' ∈ m.readSet, equalReadMsg r' r = true
  deps : ∀ d ∈ rs.deps, ∃ d' ∈ m.deps, equalDep d' d = true
  preds : ∀ p ∈ rs.readPredicates, ∃ p' ∈ m.readPredicates, Subsumes p' p

/-- The merged sets cover the transaction's own reads and dependencies and those of its queries,
which are all there. -/
structure Merged.Complete (m : Merged) (txn : QueryTxn) (cache : Cache) : Prop where
  base : m.Covers ⟨txn.readSet, txn.deps, []⟩
  found : AllUsable cache txn.clientId txn.querySet
  queries : ∀ md ∈ txn.querySet, ∀ rs ∈ (fetchReadSet cache txn.clientId md).readSet, m.Covers rs

section Check
variable {s s' : QueryState} {txn txn' : QueryTxn} {commit : Bool} {m : Merged}

theorem leave_self (h : ∃ rest, txn.querySet = l.visited ++ rest) : txn.leave l = txn := by
  obtain ⟨rest, hrest⟩ := h
  unfold QueryTxn.leave
  rw [hrest, drop_left, ← hrest]

theorem mergeRounds_no_vote {res : CCResult} (hall : AllUsable l.cache clientId queries) :
    queries.foldlM (mergeRound params digest clientId) l ≠ .error (.vote res l') := by
  induction queries generalizing l with
  | nil =>
    intro h
    cases h
  | cons md rest ih =>
    intro h
    obtain ⟨husable, hall⟩ := forall_mem_cons.1 hall
    rcases Except.bind_eq_error.1 h with hround | ⟨m, hround, hrest⟩
    · rw [(mergeRound_vote hround).1] at husable
      cases husable
    · refine ih ?_ hrest
      rcases mergeRound_cases hround with ⟨-, rfl⟩ | ⟨-, rfl⟩ | ⟨rs, carried, hfetch, hcase⟩
      · exact hall
      · exact hall
      · obtain ⟨-, rfl⟩ | ⟨-, merged, -, rfl⟩ := hcase
        · exact hall
        · exact (take_takesFrom params merged rest hfetch).usable.2 hall

theorem retry_keeps (hsafe : Safe params digest s txn)
    (hcheck : mergeTxReadSets params s digest txn commit = some (m, s', txn'))
    (hm : m.vote ≠ .commit) : s'.cache = s.cache ∧ txn' = txn := by
  have hnothing (hmissing : s.missing digest = none)
      (hall : ¬AllUsable s.cache txn.clientId txn.querySet) : TakesNothing params txn.clientId
        { cache := s.cache, subscribed := s.subscribed } txn.querySet :=
    .inr fun hcaching => hsafe.untouched hmissing hcaching hall
  rcases mergeTxReadSets_cases hcheck with ⟨rfl, rfl, -⟩ | ⟨-, -, hcache, rfl⟩ |
    ⟨hmissing, res, l, herror, -, hcache, rfl⟩ | ⟨hmissing, l, hok, hfinish⟩
  · exact ⟨rfl, rfl⟩
  · exact ⟨hcache, rfl⟩
  · have hall : ¬AllUsable s.cache txn.clientId txn.querySet :=
      fun hall => mergeRounds_no_vote hall herror
    obtain ⟨hkeep, hrest⟩ := (mergeRounds_keep (hnothing hmissing hall)).2 res herror
    exact ⟨hcache.trans hkeep, leave_self hrest⟩
  · rcases finishMerge_cases hfinish with ⟨hne, -, rfl, rfl⟩ | ⟨-, -, -, rfl⟩ | ⟨-, rfl⟩
    · have hall : ¬AllUsable s.cache txn.clientId txn.querySet :=
        fun hall => hne (mergeRounds_all hok rfl hall).missing
      obtain ⟨hkeep, hvisited⟩ := (mergeRounds_keep (hnothing hmissing hall)).1 hok
      exact ⟨hkeep, leave_self ⟨[], by rw [hvisited]; simp⟩⟩
    · exact absurd rfl hm
    · exact absurd rfl hm

/-! ## A merge that votes COMMIT -/

theorem equalReadMsg_refl (r : ReadMessage) : equalReadMsg r r = true := by simp [equalReadMsg]

theorem equalDep_refl (d : Dependency) : equalDep d d = true := by simp [equalDep]

theorem base_covers (txn : QueryTxn) : txn.base.Covers ⟨txn.readSet, txn.deps, []⟩ :=
  ⟨fun r hr => ⟨r, hr, equalReadMsg_refl r⟩, fun d hd => ⟨d, hd, equalDep_refl d⟩, by simp⟩

theorem attachBase_reads {merged : QueryReadSet} {r : ReadMessage}
    (hr : r ∈ merged.readSet ++ txn.readSet) :
    ∃ r' ∈ (attachBase params txn merged).readSet, equalReadMsg r' r = true := by
  unfold attachBase
  dsimp only
  split_ifs
  · exact Sorting.exists_mem_destutter equalReadMsg_refl ((params.sortReads_perm _).mem_iff.2 hr)
  · exact ⟨r, hr, equalReadMsg_refl r⟩

theorem attachBase_deps {merged : QueryReadSet} {d : Dependency}
    (hd : d ∈ merged.deps ++ txn.deps) :
    ∃ d' ∈ (attachBase params txn merged).deps, equalDep d' d = true := by
  unfold attachBase
  dsimp only
  split_ifs
  · exact Sorting.exists_mem_destutter equalDep_refl ((params.sortDeps_perm _).mem_iff.2 hd)
  · exact ⟨d, hd, equalDep_refl d⟩

theorem mem_all {α : Type} {f : QueryReadSet → List α} {a : α} :
    a ∈ queries.flatMap (fun md => ((fetchReadSet cache clientId md).readSet.map f).getD []) ↔
      ∃ md ∈ queries, ∃ rs ∈ (fetchReadSet cache clientId md).readSet, a ∈ f rs := by
  rw [mem_flatMap]
  refine exists_congr fun md => and_congr_right fun _ => ?_
  cases (fetchReadSet cache clientId md).readSet <;> simp

theorem merged_preds (hsafe : Safe params digest s txn) (hmissing : s.missing digest = none)
    (hall : AllUsable s.cache txn.clientId txn.querySet)
    (hmerged : MergedAll params txn.clientId { cache := s.cache, subscribed := s.subscribed } l
      txn.querySet) :
    ∀ p ∈ allPreds s.cache txn.clientId txn.querySet,
      ∃ p' ∈ l.merged.readPredicates, Subsumes p' p := by
  intro p hp
  cases hcaching : params.cacheReadSet with
  | true =>
    obtain ⟨md, hmd, rs, hrs, hp⟩ := mem_all.1 hp
    have hchain := hsafe.duplicates hmissing hcaching hall
    exact movePreds_subsume (hmerged.moved hcaching) hchain p (mem_predSeq hmd hrs hp)
  | false =>
    rw [hmerged.copied hcaching]
    exact ⟨p, hp, (StandsFor.refl p).subsumes⟩

theorem commit_complete (hsafe : Safe params digest s txn)
    (hcheck : mergeTxReadSets params s digest txn commit = some (m, s', txn'))
    (hm : m.vote = .commit) : m.Complete txn s.cache := by
  rcases mergeTxReadSets_cases hcheck with ⟨-, -, hbase⟩ | ⟨-, hwait, -⟩ |
    ⟨-, res, l, herror, hres, -⟩ | ⟨hmissing, l, hok, hfinish⟩
  · rcases hbase with ⟨hempty, rfl⟩ | ⟨merged, hmerged, -⟩
    · have hnil : txn.querySet = [] := by
        refine hempty.resolve_left fun hclient => ?_
        rcases hsafe.merges with h | h
        · rw [hclient.1] at h
          cases h
        · rw [hclient.2] at h
          cases h
      exact ⟨base_covers txn, by simp [AllUsable, hnil], by simp [hnil]⟩
    · rw [hsafe.fresh] at hmerged
      cases hmerged
  · rw [hwait] at hm
    cases hm
  · obtain ⟨md, -, c, hround⟩ := foldlM_error herror
    rw [hm] at hres
    rcases fetchReadSet_vote (mergeRound_vote hround).1 with heq | heq <;> rw [heq] at hres <;>
      cases hres
  · rcases finishMerge_cases hfinish with ⟨-, hwait, -⟩ | ⟨hl, hreads, hpreds, rfl⟩ | ⟨hl, rfl⟩
    · rw [hwait] at hm
      cases hm
    · -- nothing was read, so nothing depends on anything
      obtain ⟨-, hall⟩ := allUsable_of_ok hok hl
      have hmerged := mergeRounds_all hok rfl hall
      have hcover := merged_preds hsafe hmissing hall hmerged
      have hnoreads : allReads s.cache txn.clientId txn.querySet = [] := by
        rw [← hreads, hmerged.reads]
        rfl
      have hnopreds : allPreds s.cache txn.clientId txn.querySet = [] := by
        rw [eq_nil_iff_forall_not_mem]
        intro p hp
        obtain ⟨p', hp', -⟩ := hcover p hp
        rw [hpreds] at hp'
        cases hp'
      have hnodeps := hsafe.dependencies hmissing hall hnoreads hnopreds
      refine ⟨base_covers txn, hall,
        fun md hmd rs hrs => ⟨fun r hr => ?_, fun d hd => ?_, fun p hp => ?_⟩⟩
      · exact (eq_nil_iff_forall_not_mem.1 hnoreads r (mem_all.2 ⟨md, hmd, rs, hrs, hr⟩)).elim
      · exact (eq_nil_iff_forall_not_mem.1 hnodeps d (mem_all.2 ⟨md, hmd, rs, hrs, hd⟩)).elim
      · exact (eq_nil_iff_forall_not_mem.1 hnopreds p (mem_all.2 ⟨md, hmd, rs, hrs, hp⟩)).elim
    · obtain ⟨-, hall⟩ := allUsable_of_ok hok hl
      have hmerged := mergeRounds_all hok rfl hall
      have hcover := merged_preds hsafe hmissing hall hmerged
      refine ⟨⟨fun r hr => attachBase_reads (mem_append_right _ hr),
        fun d hd => attachBase_deps (mem_append_right _ hd), by simp⟩, hall,
        fun md hmd rs hrs => ⟨fun r hr => ?_, fun d hd => ?_, fun p hp => ?_⟩⟩
      · refine attachBase_reads (mem_append_left _ ?_)
        rw [hmerged.reads]
        exact mem_all.2 ⟨md, hmd, rs, hrs, hr⟩
      · refine attachBase_deps (mem_append_left _ ?_)
        rw [hmerged.deps]
        exact mem_all.2 ⟨md, hmd, rs, hrs, hd⟩
      · exact hcover p (mem_all.2 ⟨md, hmd, rs, hrs, hp⟩)

end Check

/-! ## Histories of a transaction -/

/-- The transaction is checked, or received once more, or the result of a query is cached. -/
inductive MergeEvent where
  | attempt (commit : Bool)
  | received
  | cached (queryId : Bytes) (c : CachedQuery)

/-- A history up to the first COMMIT: the replica, the transaction as it has it and as it was sent,
and the results as they were cached. -/
structure MergeRun where
  state : QueryState
  txn : QueryTxn
  sent : QueryTxn
  executed : Cache
  outcome : Option Merged := none
  stopped : Bool := false

def MergeRun.start (s : QueryState) (txn : QueryTxn) : MergeRun where
  state := s
  txn := txn
  sent := txn
  executed := s.cache

def MergeRun.check (params : MergeParams) (digest : Digest) (r : MergeRun) (commit : Bool) :
    MergeRun :=
  match mergeTxReadSets params r.state digest r.txn commit with
  | none => { r with stopped := true }
  | some (m, state, txn) =>
    { r with
      state
      txn
      outcome := if m.vote = .commit then some m else none }

def MergeRun.event (params : MergeParams) (digest : Digest) (r : MergeRun) : MergeEvent → MergeRun
  | .attempt commit => r.check params digest commit
  | .received => { r with txn := r.sent }
  | .cached queryId c =>
    { r with
      state := (cacheResult params r.state queryId c).1
      executed := Function.update r.executed queryId (some c) }

def mergeMachine (params : MergeParams) (digest : Digest) : Machine MergeRun MergeEvent where
  step r e := if r.outcome ≠ none ∨ r.stopped = true then r else r.event params digest e

def SafeEvent (params : MergeParams) (digest : Digest) (r : MergeRun) (e : MergeEvent) : Prop :=
  ∀ commit, e = .attempt commit → Safe params digest r.state r.txn

structure MergeRun.Inv (txn : QueryTxn) (r : MergeRun) : Prop where
  sent : r.sent = txn
  intact : r.outcome = none → r.stopped = false → r.txn = txn ∧ r.state.cache = r.executed
  complete : ∀ m, r.outcome = some m → m.Complete txn r.executed

theorem wake_cache (s : QueryState) (q : Bytes) (v : UInt64) :
    (wakeSubscribedTx s q v).1.cache = s.cache := by
  unfold wakeSubscribedTx
  split
  · rfl
  · dsimp only
    split
    · rfl
    · split
      · rfl
      · split_ifs <;> rfl

theorem cacheResult_cache (params : MergeParams) (s : QueryState) (q : Bytes) (c : CachedQuery) :
    (cacheResult params s q c).1.cache = update s.cache q (some c) := by
  unfold cacheResult
  dsimp only
  split_ifs
  · exact wake_cache _ _ _
  · rfl

theorem MergeRun.Inv.check {txn : QueryTxn} {r : MergeRun} (h : r.Inv txn) {commit : Bool}
    (hnone : r.outcome = none) (hgoes : r.stopped = false)
    (hsafe : Safe params digest r.state r.txn) : (r.check params digest commit).Inv txn := by
  obtain ⟨htxn, hcache⟩ := h.intact hnone hgoes
  unfold MergeRun.check
  split
  · refine ⟨h.sent, fun _ hgo => ?_, h.complete⟩
    cases hgo
  · rename_i m state txn' hcheck
    refine ⟨h.sent, fun hnot _ => ?_, fun m' hm' => ?_⟩
    · have hm : m.vote ≠ .commit := by
        intro hm
        simp [hm] at hnot
      obtain ⟨hkeep, hsame⟩ := retry_keeps hsafe hcheck hm
      exact ⟨hsame.trans htxn, hkeep.trans hcache⟩
    · have hm : m.vote = .commit ∧ m = m' := by
        by_cases hm : m.vote = .commit
        · simp only [hm, if_true, some.injEq] at hm'
          exact ⟨hm, hm'⟩
        · simp [hm] at hm'
      obtain ⟨hvote, rfl⟩ := hm
      have hcomplete := commit_complete hsafe hcheck hvote
      rw [htxn, hcache] at hcomplete
      exact hcomplete

theorem MergeRun.Inv.step {txn : QueryTxn} {r : MergeRun} {e : MergeEvent} (h : r.Inv txn)
    (hsafe : SafeEvent params digest r e) : ((mergeMachine params digest).step r e).Inv txn := by
  show (if r.outcome ≠ none ∨ r.stopped = true then r else r.event params digest e).Inv txn
  split_ifs with hover
  · exact h
  · simp only [ne_eq, not_or, not_not, Bool.not_eq_true] at hover
    obtain ⟨hnone, hgoes⟩ := hover
    obtain ⟨htxn, hcache⟩ := h.intact hnone hgoes
    cases e with
    | attempt commit => exact h.check hnone hgoes (hsafe commit rfl)
    | received => exact ⟨h.sent, fun _ _ => ⟨h.sent, hcache⟩, h.complete⟩
    | cached q c =>
      refine ⟨h.sent, fun _ _ => ⟨htxn, ?_⟩, fun m hm => ?_⟩
      · show (cacheResult params r.state q c).1.cache = update r.executed q (some c)
        rw [cacheResult_cache, hcache]
      · replace hm : r.outcome = some m := hm
        rw [hnone] at hm
        cases hm

/-- After any history of safe checks, a COMMIT comes with all reads, dependencies and predicates of
the transaction and of its queries, as they were cached. -/
theorem run_merged_complete {s : QueryState} {txn : QueryTxn} {events : List MergeEvent}
    (hsafe : (mergeMachine params digest).Along (SafeEvent params digest)
      (MergeRun.start s txn) events) {m : Merged}
    (hm : ((mergeMachine params digest).run (MergeRun.start s txn) events).outcome = some m) :
    m.Complete txn ((mergeMachine params digest).run (MergeRun.start s txn) events).executed := by
  have hinv : ((mergeMachine params digest).run (MergeRun.start s txn) events).Inv txn := by
    refine Machine.run_along (fun r e hsafe hr => hr.step hsafe) ?_ hsafe
    refine ⟨rfl, fun _ _ => ⟨rfl, rfl⟩, fun m hm => ?_⟩
    cases hm
  exact hinv.complete m hm

def twoQueries : QueryTxn :=
  { hashedQueries [([1], 0), ([2], 0)] with readSet := [{ key := [5] }] }

def resultWith (rs : QueryReadSet) : CachedQuery where
  clientId := 1
  retryVersion := 0
  result := some ⟨some rs, some [7]⟩

def ordersOpen : Predicate := ⟨[10], Timestamp.zero, [[42]]⟩

def itemsOpen : Predicate := ⟨[11], Timestamp.zero, [[42]]⟩

def secondThenFirst : List MergeEvent :=
  [.cached [2] (resultWith { readSet := [{ key := [6] }], readPredicates := [ordersOpen] }),
    .attempt false, .cached [1] (resultWith { readSet := [{ key := [5] }] }), .attempt false]

theorem run_merged_complete_late :
    (mergeMachine cachingParams [9]).Along (SafeEvent cachingParams [9]) (.start {} twoQueries)
      secondThenFirst ∧
    ∃ m, ((mergeMachine cachingParams [9]).run (.start {} twoQueries) secondThenFirst).outcome =
        some m ∧
      m.readPredicates = [ordersOpen] ∧
      m.Complete twoQueries
        ((mergeMachine cachingParams [9]).run (.start {} twoQueries) secondThenFirst).executed := by
  have hsafe : (mergeMachine cachingParams [9]).Along (SafeEvent cachingParams [9])
      (.start {} twoQueries) secondThenFirst := by
    refine ⟨fun _ h => (by cases h), fun _ _ => ?_, fun _ h => (by cases h), fun _ _ => ?_, trivial⟩
    · exact ⟨.inl rfl, rfl, fun _ _ _ => by decide, fun _ _ h => absurd h (by decide),
        fun _ h => absurd h (by decide)⟩
    · exact ⟨.inl rfl, rfl, fun _ _ h => absurd (by decide) h, fun _ _ _ => by decide,
        fun _ _ h => absurd h (by decide)⟩
  exact ⟨hsafe, _, rfl, rfl, run_merged_complete hsafe rfl⟩

def firstThenSecond : List MergeEvent :=
  [.cached [1] (resultWith { readSet := [{ key := [6] }], readPredicates := [ordersOpen] }),
    .attempt false, .cached [2] (resultWith { readSet := [{ key := [5] }] }), .attempt false]

def twoTables : List MergeEvent :=
  [.cached [1] (resultWith { readSet := [{ key := [6] }], readPredicates := [ordersOpen] }),
    .cached [2] (resultWith { readSet := [{ key := [5] }], readPredicates := [itemsOpen] }),
    .attempt false]

def dependencyOnly : List MergeEvent :=
  [.cached [1] (resultWith { deps := [⟨[3], Timestamp.zero, 0⟩] }), .cached [2] (resultWith {}),
    .attempt false]

def EndsIncomplete (events : List MergeEvent) : Prop :=
  ∃ m, ((mergeMachine cachingParams [9]).run (.start {} twoQueries) events).outcome = some m ∧
    ¬m.Complete twoQueries
      ((mergeMachine cachingParams [9]).run (.start {} twoQueries) events).executed

/-- A merge votes COMMIT without a predicate that an earlier check has moved, without a predicate of
another table, and without a dependency. -/
theorem merged_incomplete :
    EndsIncomplete firstThenSecond ∧ EndsIncomplete twoTables ∧ EndsIncomplete dependencyOnly := by
  refine ⟨⟨_, rfl, fun h => ?_⟩, ⟨_, rfl, fun h => ?_⟩, _, rfl, fun h => ?_⟩
  · obtain ⟨p, hp, -⟩ := (h.queries _ List.mem_cons_self _ rfl).preds ordersOpen (by decide)
    cases hp
  · obtain ⟨p, hp, htable, -⟩ :=
      (h.queries _ (List.mem_cons_of_mem _ List.mem_cons_self) _ rfl).preds itemsOpen (by decide)
    rw [List.mem_singleton.1 hp] at htable
    cases htable
  · obtain ⟨d, hd, -⟩ := (h.queries _ List.mem_cons_self _ rfl).deps _ List.mem_cons_self
    cases hd

end Sintr.Query
