import Mathlib.Order.Bounds.Basic
import Sintr.Query.Results

/-!
# Accepted results

A result that the client accepts should have a quorum, and the read set that comes with it should
say what the quorum has reported: for each predicate the smallest version, and the dependencies that
enough replicas have.

* `ResultMgr.Knows`: a manager knows what the reports that it counts have said;
  `count_sound`: then the report that completes the quorum makes a sound result.
-/

namespace Sintr.Results

open List Option

open Client (canonicalReadSet)
open Shard (Halt)
open Snapshot (LocalSnapshot processSync)

/-! ## What the client should know -/

def Report.hasDep (d : Digest) (r : Report) : Bool :=
  r.queryReadSet.deps.any (·.preparedTxnDigest == d)

def Report.version? (idx : Nat) (r : Report) : Option Timestamp :=
  r.queryReadSet.readPredicates[idx]?.map (·.tableVersion)

def versionsAt (reports : List Report) (idx : Nat) : Set Timestamp :=
  {v | ∃ r ∈ reports, r.version? idx = some v}

def reporters (reports : List Report) (d : Digest) : Finset UInt64 :=
  ((reports.filter (Report.hasDep d)).map (·.replicaId)).toFinset

def Reported (env : ResultEnv) (events : List ResultEvent) (r : Report) : Prop :=
  ∃ reply, .result reply ∈ events ∧ env.receive reply = .ok r ∧
    (env.signing = true → ∃ m, reply.signedResult = some m ∧ m.processId = r.replicaId ∧
      env.verifyData m.processId m.data m.signature = true ∧ env.parseReport m.data = some r)

/-- The result has a quorum, and the read set says what the quorum has reported. With cached read
sets the client takes the hash only. -/
structure Accepted.Sound (env : ResultEnv) (events : List ResultEvent) (a : Accepted) : Prop where
  reported : ∀ r ∈ a.matching, Reported env events r
  quorum : a.matching.length = env.resultQuorum
  distinct : (a.matching.map (·.replicaId)).Nodup
  members : ∀ r ∈ a.matching, env.config.InGroup r.replicaId env.group
  same : ∀ r ∈ a.matching, r.queryResult = a.result ∧ env.hashOf r = a.readSetHash
  versions : env.params.cacheReadSet = false → a.eager = true →
    ∀ idx p, a.readSet.readPredicates[idx]? = some p →
      IsLeast (versionsAt a.matching idx) p.tableVersion
  deps : env.params.cacheReadSet = false →
    ∀ d, (∃ dep ∈ a.readSet.deps, dep.preparedTxnDigest = d) ↔
      2 * env.config.f + 1 ≤ (reporters a.matching d).card

theorem reported_of_receive {env : ResultEnv} {events : List ResultEvent}
    {reply : QueryResultReply} {r : Report} (hmem : .result reply ∈ events)
    (h : env.receive reply = .ok r) : Reported env events r := by
  refine ⟨reply, hmem, h, fun hsigning => ?_⟩
  unfold ResultEnv.receive at h
  rw [if_pos hsigning] at h
  cases hm : reply.signedResult with
  | none => simp [hm] at h
  | some m =>
    rw [hm] at h
    dsimp only at h
    split_ifs at h with hverify
    cases hparse : env.parseReport m.data with
    | none => simp [hparse] at h
    | some q =>
      rw [hparse] at h
      dsimp only at h
      split_ifs at h with hid
      obtain rfl := Except.ok.inj h
      exact ⟨m, rfl, (not_not.1 hid).symm, by simpa using hverify, hparse⟩

/-! ## The managers -/

/-- The least version in `S`, where there is one. -/
def LeastOf (S : Set Timestamp) : Option Timestamp → Prop
  | none => S = ∅
  | some v => IsLeast S v

variable {min : Option Timestamp}

theorem LeastOf.lower {S : Set Timestamp} (h : LeastOf S min) (v : Timestamp) :
    LeastOf (insert v S) (some (lowerVersion min v)) := by
  cases min with
  | none =>
    have hS : S = ∅ := h
    show IsLeast (insert v S) v
    rw [hS, insert_empty_eq]
    exact isLeast_singleton
  | some m =>
    have hmin : lowerVersion (some m) v = Min.min v m := by
      show (if v < m then v else m) = _
      split_ifs with hlt
      · exact (min_eq_left hlt.le).symm
      · exact (min_eq_right (not_lt.1 hlt)).symm
    show IsLeast (insert v S) (lowerVersion (some m) v)
    rw [hmin]
    exact IsLeast.insert v h

theorem versionsAt_append (reports : List Report) (r : Report) (idx : Nat) :
    versionsAt (reports ++ [r]) idx =
      versionsAt reports idx ∪ {v | r.version? idx = some v} := by
  ext v
  simp only [versionsAt, Set.mem_ofPred_eq, Set.mem_union, mem_append, mem_singleton,
    or_and_right, exists_or, exists_eq_left]

def lowered (min : Option Timestamp) : Option Timestamp → Option Timestamp
  | none => min
  | some v => some (lowerVersion min v)

theorem notePreds_eq (quorum : Bool) (idx : Nat) (mgr : ResultMgr) (ps : List ReadPredicate) :
    mgr.notePreds quorum idx ps =
      ({ mgr with
          minTableVersions := fun i =>
            if i < idx then mgr.minTableVersions i
            else lowered (mgr.minTableVersions i) (ps[i - idx]?.map (·.tableVersion)) },
        ps.mapIdx fun i p =>
          if quorum then setVersion p (lowerVersion (mgr.minTableVersions (idx + i)) p.tableVersion)
          else p) := by
  induction ps generalizing idx mgr with
  | nil => simp [ResultMgr.notePreds, lowered]
  | cons p ps ih =>
    have hother : ∀ i, i ≠ idx → (mgr.noteVersion idx p.tableVersion).minTableVersions i =
        mgr.minTableVersions i := fun i hi => Function.update_of_ne hi _ _
    have hself : (mgr.noteVersion idx p.tableVersion).minTableVersions idx =
        some (lowerVersion (mgr.minTableVersions idx) p.tableVersion) := Function.update_self _ _ _
    rw [ResultMgr.notePreds, ih, mapIdx_cons]
    refine Prod.ext ?_ ?_
    · show ({ mgr with minTableVersions := _ } : ResultMgr) = _
      congr 1
      funext i
      rcases Nat.lt_trichotomy i idx with hlt | rfl | hgt
      · simp [hlt, Nat.lt_succ_of_lt hlt, hother i hlt.ne]
      · simp [hself, lowered]
      · obtain ⟨k, rfl⟩ := Nat.exists_eq_add_of_lt hgt
        simp [hother _ hgt.ne', show ¬ idx + k + 1 < idx + 1 by omega,
          show ¬ idx + k + 1 < idx by omega, show idx + k + 1 - idx = k + 1 by omega,
          show idx + k + 1 - (idx + 1) = k by omega]
    · simp [hself, hother, Nat.add_comm, Nat.add_left_comm]

def votes (candidates : OrdMap DigestKey Nat) (d : Digest) : Nat := (candidates.find ⟨d⟩).getD 0

theorem votes_addCandidate (candidates : OrdMap DigestKey Nat) (dep : Dependency) (d : Digest) :
    votes (addCandidate candidates dep) d =
      votes candidates d + if dep.preparedTxnDigest = d then 1 else 0 := by
  unfold votes addCandidate
  rw [OrdMap.find_set]
  by_cases heq : dep.preparedTxnDigest = d
  · simp [heq]
  · simp [heq, Ne.symm heq]

theorem votes_foldl (deps : List Dependency) (candidates : OrdMap DigestKey Nat) (d : Digest) :
    votes (deps.foldl addCandidate candidates) d =
      votes candidates d + (deps.map (·.preparedTxnDigest)).count d := by
  induction deps generalizing candidates with
  | nil => rfl
  | cons dep deps ih =>
    rw [foldl_cons, ih, votes_addCandidate, map_cons, count_cons]
    simp only [beq_iff_eq]
    omega

theorem mem_keptDeps {env : ResultEnv} {candidates : OrdMap DigestKey Nat} {d : Digest} :
    (∃ dep ∈ keptDeps env candidates, dep.preparedTxnDigest = d) ↔
      2 * env.config.f + 1 ≤ votes candidates d := by
  simp only [keptDeps, List.mem_map, mem_filter, decide_eq_true_eq]
  constructor
  · rintro ⟨dep, ⟨e, ⟨he, hcount⟩, rfl⟩, rfl⟩
    have hfind : candidates.find e.1 = some e.2 := OrdMap.find_eq_some_iff.2 he
    show _ ≤ (candidates.find e.1).getD 0
    rwa [hfind]
  · intro hvotes
    unfold votes at hvotes
    cases hfind : candidates.find ⟨d⟩ with
    | none => rw [hfind, getD_none] at hvotes; omega
    | some n =>
      rw [hfind, getD_some] at hvotes
      exact ⟨_, ⟨(⟨d⟩, n), ⟨OrdMap.mem_of_find hfind, hvotes⟩, rfl⟩, rfl⟩

/-- A manager knows what the reports that it counts have said. Once the quorum is complete the
candidates are not needed any more. -/
structure ResultMgr.Knows (env : ResultEnv) (eager : Bool) (reports : List Report)
    (mgr : ResultMgr) : Prop where
  freq : mgr.freq = reports.length
  candidates : env.params.cacheReadSet = false → mgr.freq < env.resultQuorum →
    ∀ d, votes mgr.depCandidates d = reports.countP (Report.hasDep d)
  versions : env.params.cacheReadSet = false → eager = true →
    ∀ idx, LeastOf (versionsAt reports idx) (mgr.minTableVersions idx)

theorem knows_nil (env : ResultEnv) (eager : Bool) :
    ResultMgr.Knows env eager [] ({} : ResultMgr) where
  freq := rfl
  candidates _ _ _ := rfl
  versions _ _ _ := by simp [LeastOf, versionsAt]

def Report.DepsOnce (r : Report) : Prop := (r.queryReadSet.deps.map (·.preparedTxnDigest)).Nodup
deriving Decidable

theorem Report.DepsOnce.count {r : Report} (h : r.DepsOnce) (d : Digest) :
    (r.queryReadSet.deps.map (·.preparedTxnDigest)).count d = if r.hasDep d then 1 else 0 := by
  have hmem : r.hasDep d = true ↔ d ∈ r.queryReadSet.deps.map (·.preparedTxnDigest) := by
    simp [Report.hasDep]
  split_ifs with hdep
  · exact count_eq_one_of_mem h (hmem.1 hdep)
  · exact count_eq_zero_of_not_mem (mt hmem.2 hdep)

theorem leastOf_append {reports : List Report} {idx : Nat}
    (h : LeastOf (versionsAt reports idx) min) (r : Report) :
    LeastOf (versionsAt (reports ++ [r]) idx) (lowered min (r.version? idx)) := by
  rw [versionsAt_append]
  cases hv : r.version? idx with
  | none => simpa [lowered] using h
  | some v =>
    have hset : {w | some v = some w} = ({v} : Set Timestamp) := by
      ext w
      simp [eq_comm]
    rw [hset, Set.union_comm, ← Set.insert_eq]
    exact h.lower v

section Note
variable {env : ResultEnv} {eager quorum : Bool} {mgr : ResultMgr} {rs : ReadSet}

theorem note_freq : (mgr.note env eager quorum rs).1.freq = mgr.freq := by
  cases eager <;> cases quorum <;> simp [ResultMgr.note, notePreds_eq]

theorem note_depCandidates : (mgr.note env eager false rs).1.depCandidates =
    rs.deps.foldl addCandidate mgr.depCandidates := by
  cases eager <;> simp [ResultMgr.note, notePreds_eq]

theorem note_deps : (mgr.note env eager true rs).2.deps =
    keptDeps env (rs.deps.foldl addCandidate mgr.depCandidates) := by
  cases eager <;> simp [ResultMgr.note, notePreds_eq]

theorem note_minTableVersions (idx : Nat) : (mgr.note env true quorum rs).1.minTableVersions idx =
    lowered (mgr.minTableVersions idx) (rs.readPredicates[idx]?.map (·.tableVersion)) := by
  cases quorum <;> simp [ResultMgr.note, notePreds_eq]

theorem note_readPredicates (idx : Nat) :
    (mgr.note env true true rs).2.readPredicates[idx]? = rs.readPredicates[idx]?.map fun p =>
      setVersion p (lowerVersion (mgr.minTableVersions idx) p.tableVersion) := by
  simp [ResultMgr.note, notePreds_eq]

end Note

section Knows
variable {env : ResultEnv} {eager : Bool} {reports : List Report} {mgr : ResultMgr} {r : Report}
  {rs : ReadSet}

theorem ResultMgr.Knows.votes_append (h : mgr.Knows env eager reports)
    (hcache : env.params.cacheReadSet = false) (hlt : mgr.freq < env.resultQuorum)
    (honce : r.DepsOnce) (d : Digest) :
    votes (r.queryReadSet.deps.foldl addCandidate mgr.depCandidates) d =
      (reports ++ [r]).countP (Report.hasDep d) := by
  rw [votes_foldl, h.candidates hcache hlt d, honce.count, countP_append]
  simp [countP_cons]

theorem ResultMgr.Knows.count (h : mgr.Knows env eager reports)
    (hcache : env.params.cacheReadSet = true) (r : Report) :
    ResultMgr.Knows env eager (reports ++ [r]) { mgr with freq := mgr.freq + 1 } where
  freq := by simp [h.freq]
  candidates hoff := by simp [hcache] at hoff
  versions hoff := by simp [hcache] at hoff

theorem ResultMgr.Knows.note (h : mgr.Knows env eager reports)
    (hcache : env.params.cacheReadSet = false) (honce : r.DepsOnce)
    (hdeps : rs.deps = r.queryReadSet.deps)
    (hpreds : rs.readPredicates = r.queryReadSet.readPredicates) :
    (ResultMgr.note env eager (mgr.freq + 1 == env.resultQuorum) { mgr with freq := mgr.freq + 1 }
      rs).1.Knows env eager (reports ++ [r]) where
  freq := by simp [note_freq, h.freq]
  candidates _ hlt d := by
    rw [note_freq] at hlt
    have hquorum : (mgr.freq + 1 == env.resultQuorum) = false := by
      simpa using Nat.ne_of_lt hlt
    rw [hquorum, note_depCandidates, hdeps]
    exact h.votes_append hcache (Nat.lt_of_succ_lt hlt) honce d
  versions _ heager idx := by
    have hleast := leastOf_append (h.versions hcache heager idx) r
    subst heager
    rw [note_minTableVersions, hpreds]
    exact hleast

end Knows

/-! ## The tally -/

theorem manager_setManager (t : Tally) (hash result hash' result' : Bytes) (mgr : ResultMgr) :
    (t.setManager hash result mgr).manager hash' result' =
      if hash' = hash ∧ result' = result then mgr else t.manager hash' result' := by
  unfold Tally.manager Tally.setManager
  by_cases hhash : hash' = hash
  · subst hhash
    by_cases hresult : result' = result
    · subst hresult
      simp
    · simp [AList.lookup_insert_ne hresult, hresult]
  · simp [hhash]

structure Tally.Inv (env : ResultEnv) (events : List ResultEvent) (eager : Bool) (t : Tally) :
    Prop where
  reported : ∀ r ∈ t.counted, Reported env events r
  verified : ∀ r ∈ t.counted, r.replicaId ∈ t.resultsVerified
  distinct : (t.counted.map (·.replicaId)).Nodup
  members : ∀ r ∈ t.counted, env.config.InGroup r.replicaId env.group
  managers : ∀ hash result, (t.manager hash result).Knows env eager (t.matching env hash result)

theorem Tally.inv_empty (env : ResultEnv) (events : List ResultEvent) (eager : Bool) :
    Tally.Inv env events eager {} where
  reported := by simp
  verified := by simp
  distinct := by simp
  members := by simp
  managers _ _ := knows_nil env eager

section Count
variable {env : ResultEnv} {events : List ResultEvent} {eager : Bool} {t : Tally} {r : Report}

theorem count_tally : (t.count env eager r).tally.counted = t.counted ++ [r] ∧
    (t.count env eager r).tally.resultsVerified = r.replicaId :: t.resultsVerified ∧
    (t.count env eager r).hash = env.hashOf r ∧
    (t.count env eager r).report.queryResult = r.queryResult ∧
    (t.count env eager r).matchingRes = (t.manager (env.hashOf r) r.queryResult).freq + 1 := by
  unfold Tally.count
  dsimp only
  split_ifs <;> exact ⟨rfl, rfl, rfl, rfl, rfl⟩

theorem count_matching (hash result : Bytes) :
    (t.count env eager r).tally.matching env hash result =
      if hash = env.hashOf r ∧ result = r.queryResult then t.matching env hash result ++ [r]
      else t.matching env hash result := by
  unfold Tally.matching
  rw [count_tally.1, filter_append, filter_cons, filter_nil]
  by_cases hsame : hash = env.hashOf r ∧ result = r.queryResult
  · simp [hsame]
  · have hother : ¬ (r.queryResult = result ∧ env.hashOf r = hash) :=
      fun h => hsame ⟨h.2.symm, h.1.symm⟩
    simp [hsame, hother]

theorem count_manager (hash result : Bytes) :
    (t.count env eager r).tally.manager hash result =
      if hash = env.hashOf r ∧ result = r.queryResult then
        let mgr := t.manager (env.hashOf r) r.queryResult
        if env.params.cacheReadSet then { mgr with freq := mgr.freq + 1 }
        else
          (ResultMgr.note env eager (mgr.freq + 1 == env.resultQuorum)
            { mgr with freq := mgr.freq + 1 }
            (canonicalReadSet env.toQueryEnv r.queryReadSet)).1
      else t.manager hash result := by
  unfold Tally.count
  dsimp only
  split_ifs with hcache hsame hsame
  · rw [manager_setManager, if_pos hsame]
    rfl
  · rw [manager_setManager, if_neg hsame]
    rfl
  · rw [manager_setManager, if_pos hsame]
    rfl
  · rw [manager_setManager, if_neg hsame]
    rfl

theorem Tally.Inv.count (h : t.Inv env events eager) (hnew : r.replicaId ∉ t.resultsVerified)
    (hreported : Reported env events r) (hmember : env.config.InGroup r.replicaId env.group)
    (honce : env.params.cacheReadSet = false → r.DepsOnce) :
    (t.count env eager r).tally.Inv env events eager where
  reported := by
    rw [count_tally.1, forall_mem_append]
    exact ⟨h.reported, by simpa using hreported⟩
  verified := by
    rw [count_tally.1, count_tally.2.1, forall_mem_append]
    exact ⟨fun m hm => mem_cons_of_mem _ (h.verified m hm), by simp⟩
  distinct := by
    rw [count_tally.1, map_append, map_singleton, nodup_append]
    refine ⟨h.distinct, nodup_singleton _, fun id hid id' hid' heq => ?_⟩
    obtain ⟨m, hm, rfl⟩ := List.mem_map.1 hid
    rw [mem_singleton.1 hid'] at heq
    exact hnew (heq ▸ h.verified m hm)
  members := by
    rw [count_tally.1, forall_mem_append]
    exact ⟨h.members, by simpa using hmember⟩
  managers hash result := by
    have hknows := h.managers hash result
    rw [count_matching, count_manager]
    split_ifs with hsame hcache
    · obtain ⟨rfl, rfl⟩ := hsame
      exact hknows.count hcache r
    · obtain ⟨rfl, rfl⟩ := hsame
      have hoff : env.params.cacheReadSet = false := by simpa using hcache
      exact hknows.note hoff (honce hoff) rfl rfl
    · exact hknows

/-- `setVersion` writes only the id, from the timestamp; here that gives the lower version. -/
def SetsRight (min : Option Timestamp) (version : Timestamp) : Prop :=
  match min with
  | none => version.id = version.timestamp
  | some min =>
    if version < min then version.id = version.timestamp
    else min.timestamp = version.timestamp ∧ min.id = min.timestamp

theorem setVersion_of_setsRight {min : Option Timestamp} {p : ReadPredicate}
    (h : SetsRight min p.tableVersion) :
    (setVersion p (lowerVersion min p.tableVersion)).tableVersion =
      lowerVersion min p.tableVersion := by
  have hset (v : Timestamp) (hts : v.timestamp = p.tableVersion.timestamp)
      (hid : v.id = v.timestamp) : (setVersion p v).tableVersion = v := by
    show (⟨p.tableVersion.timestamp, v.timestamp⟩ : Timestamp) = v
    cases v
    simp_all
  unfold SetsRight at h
  unfold lowerVersion
  cases min with
  | none => exact hset _ rfl h
  | some min =>
    dsimp only at h ⊢
    split_ifs at h ⊢ with hlt
    · exact hset _ rfl h
    · exact hset _ h.1 h.2

theorem count_readSet (hcache : env.params.cacheReadSet = false)
    (hquorum : (t.manager (env.hashOf r) r.queryResult).freq + 1 = env.resultQuorum) :
    let mgr := t.manager (env.hashOf r) r.queryResult
    (t.count env eager r).report.queryReadSet = (ResultMgr.note env eager true
      { mgr with freq := mgr.freq + 1 } (canonicalReadSet env.toQueryEnv r.queryReadSet)).2 := by
  have htrue : ((t.manager (env.hashOf r) r.queryResult).freq + 1 == env.resultQuorum) = true := by
    simpa using hquorum
  unfold Tally.count
  dsimp only
  rw [if_neg (by simp [hcache])]
  show (ResultMgr.note env eager ((t.manager (env.hashOf r) r.queryResult).freq + 1 ==
    env.resultQuorum) _ _).2 = _
  rw [htrue]
  rfl

/-- The report is from a replica of the group, names no dependency twice, and if it completes the
quorum, the smallest versions can be set by their ids. -/
def SafeReport (env : ResultEnv) (eager : Bool) (t : Tally) (r : Report) : Prop :=
  (env.config.isReplicaInGroup r.replicaId env.group = true →
    env.config.InGroup r.replicaId env.group) ∧
  (env.params.cacheReadSet = false → r.DepsOnce ∧
    (eager = true → (t.manager (env.hashOf r) r.queryResult).freq + 1 = env.resultQuorum →
      ∀ e ∈ r.queryReadSet.readPredicates.zipIdx,
        SetsRight ((t.manager (env.hashOf r) r.queryResult).minTableVersions e.2)
          e.1.tableVersion))

theorem card_reporters {reports : List Report} (hdistinct : (reports.map (·.replicaId)).Nodup)
    (d : Digest) : (reporters reports d).card = reports.countP (Report.hasDep d) := by
  rw [reporters, toFinset_card_of_nodup (hdistinct.sublist (filter_sublist.map _)),
    length_map, countP_eq_length_filter]

theorem count_sound (h : t.Inv env events eager) (hnew : r.replicaId ∉ t.resultsVerified)
    (hreported : Reported env events r)
    (hgroup : env.config.isReplicaInGroup r.replicaId env.group = true)
    (hsafe : SafeReport env eager t r)
    (hquorum : (t.count env eager r).matchingRes = env.resultQuorum)
    (sigs : List (Option SignedMessage)) (policies : PolicyMap) :
    ((t.count env eager r).accepted env eager sigs policies).Sound env events := by
  have hinv := h.count hnew hreported (hsafe.1 hgroup) fun hcache => (hsafe.2 hcache).1
  have hknows := h.managers (env.hashOf r) r.queryResult
  obtain ⟨-, -, hhash, hresult, hres⟩ := @count_tally env eager t r
  rw [hres] at hquorum
  have hmatching : ((t.count env eager r).accepted env eager sigs policies).matching =
      t.matching env (env.hashOf r) r.queryResult ++ [r] := by
    show (t.count env eager r).tally.matching env _ _ = _
    rw [hhash, hresult, count_matching, if_pos ⟨rfl, rfl⟩]
  have hsub : (t.matching env (env.hashOf r) r.queryResult ++ [r]).Sublist
      (t.count env eager r).tally.counted := by
    rw [← hmatching]
    exact filter_sublist
  have hdistinct := hinv.distinct.sublist (hsub.map (·.replicaId))
  refine ⟨?reported, ?quorum, ?distinct, ?members, ?same, ?versions, ?deps⟩
  case reported =>
    rw [hmatching]
    exact fun m hm => hinv.reported m (hsub.subset hm)
  case quorum =>
    rw [hmatching, length_append, length_singleton, ← hknows.freq]
    exact hquorum
  case distinct =>
    rw [hmatching]
    exact hdistinct
  case members =>
    rw [hmatching]
    exact fun m hm => hinv.members m (hsub.subset hm)
  case same =>
    intro m hm
    show _ = (t.count env eager r).report.queryResult ∧ _ = (t.count env eager r).hash
    simpa using (mem_filter.1 hm).2
  case versions =>
    intro hcache heager idx p hp
    have heager' : eager = true := heager
    subst heager'
    rw [hmatching]
    change (t.count env true r).report.queryReadSet.readPredicates[idx]? = some p at hp
    rw [count_readSet hcache hquorum, note_readPredicates] at hp
    obtain ⟨q, hq, rfl⟩ := map_eq_some_iff.1 hp
    have hright : SetsRight
        ((t.manager (env.hashOf r) r.queryResult).minTableVersions idx) q.tableVersion :=
      (hsafe.2 hcache).2 rfl hquorum (q, idx) (mem_zipIdx_iff_getElem?.2 hq)
    have hleast := leastOf_append (hknows.versions hcache rfl idx) r
    rw [show r.version? idx = some q.tableVersion from congrArg (Option.map _) hq] at hleast
    rw [setVersion_of_setsRight hright]
    exact hleast
  case deps =>
    intro hcache d
    show (∃ dep ∈ (t.count env eager r).report.queryReadSet.deps, _) ↔ _
    rw [hmatching, card_reporters hdistinct, count_readSet hcache hquorum, note_deps, mem_keptDeps]
    exact (hknows.votes_append hcache (by omega) (hsafe.2 hcache).1 d).symm ▸ Iff.rfl

end Count

/-! ## Runs -/

def SafeReceived (env : ResultEnv) (s : PendingQuery) : Except Halt Report → Prop
  | .error _ => True
  | .ok r => SafeReport env s.eagerMode s.tally r

def SafeEvent (env : ResultEnv) (s : PendingQuery) : ResultEvent → Prop
  | .result reply => SafeReceived env s (env.receive reply)
  | _ => True

structure PendingQuery.Inv (env : ResultEnv) (events : List ResultEvent) (s : PendingQuery) :
    Prop where
  tally : s.tally.Inv env events s.eagerMode
  sound : ∀ a, .ok a ∈ s.upcalls → a.Sound env events

namespace PendingQuery

variable {env : ResultEnv} {events : List ResultEvent} {s s' : PendingQuery}

variable (h : s.Inv env events)
include h

theorem Inv.frame (htally : s'.tally = s.tally)
    (heager : s'.eagerMode = s.eagerMode) (hupcalls : s'.upcalls = s.upcalls) :
    s'.Inv env events where
  tally := by
    rw [htally, heager]
    exact h.tally
  sound := by
    rw [hupcalls]
    exact h.sound

theorem Inv.fail : s.fail.Inv env events where
  tally := h.tally
  sound a ha := h.sound a (by simpa [PendingQuery.fail] using ha)

theorem Inv.reset (htally : s'.tally = {})
    (hupcalls : s'.upcalls = s.upcalls) : s'.Inv env events where
  tally := by
    rw [htally]
    exact Tally.inv_empty env events _
  sound := by
    rw [hupcalls]
    exact h.sound

theorem Inv.checkSyncStart : (s.checkSyncStart env).Inv env events := by
  unfold PendingQuery.checkSyncStart PendingQuery.syncReplicas
  split_ifs
  · exact h
  · exact h.reset rfl rfl
  · exact h.frame rfl rfl rfl
  · exact h

theorem Inv.processLocal (ss : LocalSnapshot) :
    (s.processLocal env ss).Inv env events :=
  Inv.checkSyncStart (s := { s with sync := processSync env.sync s.sync ss })
    (h.frame rfl rfl rfl)

theorem Inv.trySync (reply : QueryResultReply) (r : Report) (wait : Int32) :
    (s.trySync env reply r wait).Inv env events := by
  unfold PendingQuery.trySync
  extract_lets s₁
  have h₁ : s₁.Inv env events := by
    show PendingQuery.Inv env events (if _ then _ else _)
    split_ifs
    · exact h.frame rfl rfl rfl
    · exact h
  cases r.localSs with
  | none => exact h₁
  | some ss =>
    dsimp only
    split_ifs
    · exact h₁
    · exact h₁.processLocal ss

theorem Inv.continueWaiting (reply : QueryResultReply) (r : Report) :
    (s.continueWaiting env reply r).Inv env events := by
  unfold PendingQuery.continueWaiting
  extract_lets
  split_ifs
  · exact h.frame rfl rfl rfl
  · exact h.frame rfl rfl rfl
  · exact h.trySync reply r _
  · exact h.frame rfl rfl rfl
  · exact h.fail
  · exact h

theorem Inv.accept (reply : QueryResultReply) {c : Counted}
    (hsound : ∀ sigs policies, (c.accepted env s.eagerMode sigs policies).Sound env events) :
    (s.accept env reply c).Inv env events := by
  unfold PendingQuery.accept
  extract_lets noted s₁
  cases noted.2 with
  | none =>
    refine ⟨h.tally, fun a ha => ?_⟩
    rcases mem_append.1 ha with hold | hnew
    · exact h.sound a hold
    · obtain rfl : a = _ := by simpa using hnew
      exact hsound _ _
  | some halt => cases halt <;> exact h.frame rfl rfl rfl

theorem Inv.takeReport (reply : QueryResultReply) {r : Report}
    (hreported : Reported env events r) (htakes : s.takes env r = true)
    (hsafe : SafeReport env s.eagerMode s.tally r) (sigs : List (Option SignedMessage)) :
    (s.takeReport env reply r sigs).Inv env events := by
  simp only [takes, Bool.and_eq_true, decide_eq_true_eq] at htakes
  obtain ⟨⟨-, hgroup⟩, hnew⟩ := htakes
  have hcounted : PendingQuery.Inv env events { s with
      tally := (s.tally.count env s.eagerMode r).tally
      querySigs := some (sigs ++ [reply.signedResult]) } :=
    ⟨h.tally.count hnew hreported (hsafe.1 hgroup) fun hcache => (hsafe.2 hcache).1, h.sound⟩
  unfold PendingQuery.takeReport conclude
  extract_lets c s₁ testSyncPath
  split_ifs with hambiguous hquorum
  · exact hcounted.frame rfl rfl rfl
  · simp only [Bool.and_eq_true, beq_iff_eq] at hquorum
    exact hcounted.accept reply (count_sound h.tally hnew hreported hgroup hsafe hquorum.2)
  · exact hcounted.continueWaiting reply _

theorem Inv.handleQueryResult {reply : QueryResultReply}
    (hmem : .result reply ∈ events) (hsafe : SafeEvent env s (.result reply)) :
    (s.handleQueryResult env reply).Inv env events := by
  unfold PendingQuery.handleQueryResult
  split_ifs
  · exact h
  cases hreceive : env.receive reply with
  | error halt => cases halt <;> exact h.frame rfl rfl rfl
  | ok r =>
    have hreport : SafeReceived env s (.ok r) := hreceive ▸ hsafe
    dsimp only
    split_ifs with htakes
    · exact h
    · cases s.querySigs with
      | none => exact h.frame rfl rfl rfl
      | some sigs =>
        exact h.takeReport reply (reported_of_receive hmem hreceive) (by simpa using htakes)
          hreport sigs

theorem Inv.handleFailQuery (reply : FailQuery) :
    (s.handleFailQuery env reply).Inv env events := by
  unfold PendingQuery.handleFailQuery
  split_ifs
  · exact h
  cases env.receiveFail reply with
  | error halt => cases halt <;> exact h.frame rfl rfl rfl
  | ok replicaId =>
    dsimp only
    have hmarked : PendingQuery.Inv env events { s with tally := { s.tally with
        resultsVerified := replicaId :: s.tally.resultsVerified
        numFails := s.tally.numFails + 1 } } :=
      ⟨{ reported := h.tally.reported
         verified := fun r hr => mem_cons_of_mem _ (h.tally.verified r hr)
         distinct := h.tally.distinct
         members := h.tally.members
         managers := h.tally.managers }, h.sound⟩
    split_ifs
    · exact h
    · exact h
    · exact hmarked.fail
    · exact hmarked

end PendingQuery

theorem resultMachine_inv {env : ResultEnv} {events : List ResultEvent} {s : PendingQuery}
    {e : ResultEvent} (hsafe : SafeEvent env s e ∧ e ∈ events) (h : s.Inv env events) :
    ((resultMachine env).step s e).Inv env events := by
  show PendingQuery.Inv env events (if s.panicked then s else _)
  split_ifs
  · exact h
  · cases e with
    | result reply => exact h.handleQueryResult hsafe.2 hsafe.1
    | failed reply => exact h.handleFailQuery reply
    | sync reqId ss =>
      show PendingQuery.Inv env events (if _ then _ else _)
      split_ifs
      · exact h
      · exact h.processLocal ss
    | retry reqId isPoint =>
      show PendingQuery.Inv env events (if _ then _ else _)
      split_ifs
      · exact h.frame rfl rfl rfl
      · exact h.reset rfl rfl

/-- In every run in which the reports are safe, the results that are accepted have a quorum of
replicas of the group, the smallest versions that these reported, and the dependencies that enough
of them reported. -/
theorem accepted_of_run (env : ResultEnv) (reqId : UInt64) (isPoint : Bool)
    (events : List ResultEvent)
    (hsafe : (resultMachine env).Along (SafeEvent env) (PendingQuery.start env reqId isPoint)
      events) {a : Accepted}
    (ha : .ok a ∈ ((resultMachine env).run (PendingQuery.start env reqId isPoint) events).upcalls) :
    a.Sound env events := by
  have hstart : (PendingQuery.start env reqId isPoint).Inv env events :=
    ⟨Tally.inv_empty env events _, fun a ha => absurd ha List.not_mem_nil⟩
  have hinv := Machine.run_along (I := PendingQuery.Inv env events)
    (fun _ _ hsafe h => resultMachine_inv hsafe h) hstart
    (hsafe.and_forall (Q := (· ∈ events)) fun _ he => he)
  exact hinv.sound a ha

/-! ## A table that changes while it is read -/

instance (min : Option Timestamp) (version : Timestamp) : Decidable (SetsRight min version) := by
  unfold SetsRight
  cases min <;> infer_instance

instance (env : ResultEnv) (eager : Bool) (t : Tally) (r : Report) :
    Decidable (SafeReport env eager t r) := by
  unfold SafeReport
  infer_instance

instance (env : ResultEnv) (s : PendingQuery) :
    ∀ received, Decidable (SafeReceived env s received)
  | .error _ => .isTrue trivial
  | .ok r => inferInstanceAs (Decidable (SafeReport env s.eagerMode s.tally r))

instance (env : ResultEnv) (s : PendingQuery) : ∀ e, Decidable (SafeEvent env s e)
  | .result reply => inferInstanceAs (Decidable (SafeReceived env s (env.receive reply)))
  | .failed _ => .isTrue trivial
  | .sync _ _ => .isTrue trivial
  | .retry _ _ => .isTrue trivial

def eagerEnv : ResultEnv where
  toEnv := Env.sample
  readDepSize := 1
  verifyData _ _ _ := true
  parseWrite _ := {}
  resultQuorum := 4
  parseQueryResult data :=
    some
      { queryResult := [9]
        queryReadSet :=
          { readPredicates :=
              [{ tableName := [1]
                 tableVersion := ⟨((data[1]?).getD 0).toUInt64, ((data[2]?).getD 0).toUInt64⟩ }]
            deps := List.replicate ((data[3]?).getD 0).toNat
              { preparedTxnDigest := [5], involvedGroup := 0 } } }
  sortReadSetByKey := id
  group := 0
  eagerExec := true
  eagerPointExec := true
  eagerPlusSnapshot := false
  simulateFailEagerPlusSnapshot := false
  queryMessages := 6
  syncMessages := 6
  parseOrigin data := (((data[0]?).getD 0).toUInt64, none)
  parseFail _ := none
  sync :=
    { Snapshot.fourReplicas false with
      f := Env.sample.config.f
      syncQuorum := 4
      isReplicaInGroup := fun r => Env.sample.config.isReplicaInGroup r 0 }
  sync_f := rfl
  sync_group := rfl

def reports (l : List (UInt8 × UInt8 × UInt8 × UInt8)) : List ResultEvent :=
  l.map fun e => .result
    { reqId := 1, signedResult := some ⟨[e.1, e.2.1, e.2.2.1, e.2.2.2], e.1.toUInt64, []⟩ }

def Upcall.accepted? : Upcall → Option Accepted
  | .ok a => some a
  | .fail => none

def eagerRun (events : List ResultEvent) : PendingQuery :=
  (resultMachine eagerEnv).run (PendingQuery.start eagerEnv 1 false) events

def acceptedReads (events : List ResultEvent) : List (List Timestamp × List Digest) :=
  ((eagerRun events).upcalls.filterMap Upcall.accepted?).map fun a =>
    (a.readSet.readPredicates.map (·.tableVersion), a.readSet.deps.map (·.preparedTxnDigest))

theorem exists_accepted (events : List ResultEvent) (Q : Accepted → Bool)
    (h : ((eagerRun events).upcalls.filterMap Upcall.accepted?).any Q = true) :
    ∃ a, Upcall.ok a ∈ (eagerRun events).upcalls ∧ Q a = true := by
  obtain ⟨a, ha, hQ⟩ := any_eq_true.1 h
  obtain ⟨u, hu, hua⟩ := mem_filterMap.1 ha
  cases u with
  | ok b =>
    obtain rfl := Option.some.inj hua
    exact ⟨b, hu, hQ⟩
  | fail => cases hua

def steadyReports : List ResultEvent :=
  reports [(0, 7, 7, 1), (1, 7, 7, 0), (2, 7, 7, 1), (3, 7, 7, 1)]

theorem accepted_of_run_steady :
    acceptedReads steadyReports = [([⟨7, 7⟩], [[5]])] ∧
    ∃ a, Upcall.ok a ∈ (eagerRun steadyReports).upcalls ∧
      Accepted.Sound eagerEnv steadyReports a := by
  refine ⟨by decide +kernel, ?_⟩
  obtain ⟨a, ha, -⟩ := exists_accepted steadyReports (fun _ => true) (by decide +kernel)
  exact ⟨a, ha, accepted_of_run eagerEnv 1 false steadyReports (by decide +kernel) ha⟩

def changingReports : List ResultEvent :=
  reports [(0, 100, 7, 0), (1, 101, 8, 0), (2, 102, 9, 0), (3, 103, 10, 0)]

def repeatedDependency : List ResultEvent :=
  reports [(0, 7, 7, 3), (1, 7, 7, 0), (2, 7, 7, 0), (3, 7, 7, 0)]

/-- A version is accepted that no replica has reported, and a dependency that only one replica
has. -/
theorem accepted_unsound :
    (acceptedReads changingReports = [([⟨103, 100⟩], [])] ∧
      ∃ a, Upcall.ok a ∈ (eagerRun changingReports).upcalls ∧
        ¬ Accepted.Sound eagerEnv changingReports a) ∧
    (acceptedReads repeatedDependency = [([⟨7, 7⟩], [[5]])] ∧
      ∃ a, Upcall.ok a ∈ (eagerRun repeatedDependency).upcalls ∧
        ¬ Accepted.Sound eagerEnv repeatedDependency a) := by
  refine ⟨⟨by decide +kernel, ?_⟩, by decide +kernel, ?_⟩
  · obtain ⟨a, ha, hQ⟩ := exists_accepted changingReports
      (fun a => a.eager && (a.readSet.readPredicates[0]?).any fun p =>
        a.matching.all fun r => r.version? 0 != some p.tableVersion) (by decide +kernel)
    refine ⟨a, ha, fun hsound => ?_⟩
    obtain ⟨heager, hany⟩ := Bool.and_eq_true_iff.1 hQ
    obtain ⟨p, hp, hnone⟩ := (Option.any_eq_true _ _).1 hany
    obtain ⟨r, hr, hv⟩ := (hsound.versions rfl heager 0 p hp).1
    simpa [hv] using List.all_eq_true.1 hnone r hr
  · obtain ⟨a, ha, hQ⟩ := exists_accepted repeatedDependency
      (fun a => a.readSet.deps.any (·.preparedTxnDigest == [5]) &&
        (reporters a.matching [5]).card == 1) (by decide +kernel)
    refine ⟨a, ha, fun hsound => ?_⟩
    obtain ⟨hany, hcard⟩ := Bool.and_eq_true_iff.1 hQ
    obtain ⟨dep, hdep, heq⟩ := List.any_eq_true.1 hany
    have henough := (hsound.deps rfl [5]).1 ⟨dep, hdep, by simpa using heq⟩
    rw [beq_iff_eq.1 hcard] at henough
    exact absurd henough (by decide)

end Sintr.Results
