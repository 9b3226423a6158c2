import Sintr.Query.Merge

/-!
# Waking transactions that wait for queries

The first check of a transaction leaves an entry with the queries it misses, and a subscription to
each of them. When one is cached, `wakeSubscribedTx` takes the subscription away, whether or not the
version is the right one; and if it is, it takes the entry away, whether or not other queries are
missing.
-/

namespace Sintr.Query

open List Option Function

variable {params : MergeParams} {s s' : QueryState} {digest : Digest}

/-! ## Runs of results -/

/-- The results of queries are cached one after the other; the transactions that are resumed. -/
def arrive (params : MergeParams) :
    QueryState → List (Bytes × CachedQuery) → QueryState × List Digest
  | s, [] => (s, [])
  | s, (q, c) :: rest =>
    let (s, woken) := cacheResult params s q c
    let (s, more) := arrive params s rest
    (s, woken.toList ++ more)

def Arrived (arrivals : List (Bytes × CachedQuery)) (q : Bytes) (v : UInt64) : Prop :=
  ∃ c, (q, c) ∈ arrivals ∧ c.retryVersion = v

instance (arrivals : List (Bytes × CachedQuery)) (q : Bytes) (v : UInt64) :
    Decidable (Arrived arrivals q v) :=
  decidable_of_iff (∃ a ∈ arrivals, a.1 = q ∧ a.2.retryVersion = v) (by
    constructor
    · rintro ⟨⟨q', c⟩, hmem, rfl, hv⟩
      exact ⟨c, hmem, hv⟩
    · rintro ⟨c, hmem, hv⟩
      exact ⟨(q, c), hmem, rfl, hv⟩)

def Complete (versions : AList fun _ : Bytes => UInt64) (arrivals : List (Bytes × CachedQuery)) :
    Prop :=
  ∀ e ∈ versions.entries, Arrived arrivals e.1 e.2
deriving Decidable

def firstVersion (arrivals : List (Bytes × CachedQuery)) (q : Bytes) : Option UInt64 :=
  (arrivals.find? (·.1 = q)).map (·.2.retryVersion)

/-! ## One result -/

variable {q : Bytes} {v : UInt64} {versions : AList fun _ : Bytes => UInt64} {c : CachedQuery}

def Awaits (s : QueryState) (digest : Digest) (q : Bytes) (v : UInt64) (w : Waiting) : Prop :=
  s.subscribed q = some digest ∧ s.missing digest = some w ∧ w.versions.lookup q = some v

/-- What a result does to a transaction: its subscription is gone. -/
structure Woken (s : QueryState) (digest : Digest) (q : Bytes) (v : UInt64)
    (r : QueryState × Option Digest) : Prop where
  subscribed : ∀ q', r.1.subscribed q' = some digest ↔ q' ≠ q ∧ s.subscribed q' = some digest
  awaited : ∀ w, Awaits s digest q v w → r.1.missing digest = none ∧
    r.2 = if (w.versions.erase q).entries = [] then some digest else none
  other : (∀ w, ¬ Awaits s digest q v w) →
    r.2 ≠ some digest ∧ r.1.missing digest = s.missing digest

theorem wake_woken (s : QueryState) (digest : Digest) (q : Bytes) (v : UInt64) :
    Woken s digest q v (wakeSubscribedTx s q v) := by
  have hgone : ∀ q', update s.subscribed q none q' = some digest ↔
      q' ≠ q ∧ s.subscribed q' = some digest := by
    intro q'
    by_cases hq : q' = q
    · subst hq
      simp
    · simp [hq]
  unfold wakeSubscribedTx
  split
  · rename_i hsub
    refine ⟨fun q' => ?_, fun w ⟨hs, _⟩ => by grind, fun _ => ⟨by simp, rfl⟩⟩
    exact (and_iff_right_of_imp fun hq' heq => by simp [heq, hsub] at hq').symm
  rename_i d hsub
  dsimp only
  split
  · exact ⟨hgone, fun w ⟨hs, hm, _⟩ => by grind, fun _ => ⟨by simp, rfl⟩⟩
  rename_i w hmissing
  split
  · exact ⟨hgone, fun w ⟨hs, hm, hl⟩ => by grind, fun _ => ⟨by simp, rfl⟩⟩
  rename_i needed hlook
  by_cases hv : needed ≠ v
  · rw [if_pos hv]
    exact ⟨hgone, fun w ⟨hs, hm, hl⟩ => by grind, fun _ => ⟨by simp, rfl⟩⟩
  rw [if_neg hv]
  obtain rfl := not_not.1 hv
  by_cases hd : d = digest
  · subst hd
    refine ⟨hgone, fun w' ⟨_, hm, _⟩ => ⟨update_self .., by grind⟩, fun hno => ?_⟩
    exact absurd ⟨hsub, hmissing, hlook⟩ (hno w)
  · refine ⟨hgone, fun w ⟨hs, _⟩ => by grind, fun _ => ⟨by grind, ?_⟩⟩
    exact update_of_ne (Ne.symm hd) _ _

theorem cacheResult_woken (hparams : params.cacheReadSet = true) (s : QueryState) (digest : Digest)
    (q : Bytes) (c : CachedQuery) :
    Woken s digest q c.retryVersion (cacheResult params s q c) := by
  rw [cacheResult, if_pos hparams]
  obtain ⟨hsub, hawaited, hother⟩ := wake_woken
    { s with cache := update s.cache q (some c) } digest q c.retryVersion
  exact ⟨hsub, hawaited, hother⟩

/-! ## Transactions that are never resumed -/

def Stuck (s : QueryState) (digest : Digest) : Prop :=
  ∀ w, s.missing digest = some w →
    (∃ e ∈ w.versions.entries, s.subscribed e.1 ≠ some digest) ∨ 2 ≤ w.versions.entries.length

theorem stuck_of_none (h : s.missing digest = none) : Stuck s digest := by
  intro w hw
  rw [h] at hw
  cases hw

theorem erase_ne_nil (h : (∃ e ∈ versions.entries, e.1 ≠ q) ∨ 2 ≤ versions.entries.length) :
    (versions.erase q).entries ≠ [] := by
  have hkeep : ∀ e ∈ versions.entries, e.1 ≠ q → (versions.erase q).entries ≠ [] := by
    intro e he hne hnil
    have hmem : e.1 ∈ versions.erase q :=
      AList.mem_erase.2 ⟨hne, AList.mem_keys.2 (mem_map_of_mem he)⟩
    rw [AList.mem_keys, AList.keys, hnil] at hmem
    cases hmem
  rcases h with ⟨e, he, hne⟩ | hlen
  · exact hkeep e he hne
  · by_cases hall : ∃ e ∈ versions.entries, e.1 ≠ q
    · obtain ⟨e, he, hne⟩ := hall
      exact hkeep e he hne
    · -- all keys are equal, but they are different
      simp only [not_exists, not_and, not_not] at hall
      have hnodup := versions.nodupKeys
      match hentries : versions.entries, hlen with
      | a :: b :: rest, _ =>
        rw [hentries] at hall hnodup
        have ha := hall a (by simp)
        have hb := hall b (by simp)
        have hne := (nodupKeys_cons.1 hnodup).1
        simp [keys, ha, hb] at hne

theorem Stuck.cacheResult (hparams : params.cacheReadSet = true) (h : Stuck s digest) (q : Bytes)
    (c : CachedQuery) : (cacheResult params s q c).2 ≠ some digest ∧
      Stuck (cacheResult params s q c).1 digest := by
  obtain ⟨hkeep, hawaited, hother⟩ := cacheResult_woken hparams s digest q c
  by_cases hw : ∃ w, Awaits s digest q c.retryVersion w
  · obtain ⟨w, hw⟩ := hw
    obtain ⟨hnone, hwoken⟩ := hawaited w hw
    refine ⟨?_, stuck_of_none hnone⟩
    rw [hwoken, if_neg]
    · simp
    · refine erase_ne_nil ((h w hw.2.1).imp (fun hex => ?_) id)
      obtain ⟨e, he, hne⟩ := hex
      exact ⟨e, he, fun heq => hne (heq ▸ hw.1)⟩
  · obtain ⟨hwoken, hmissing⟩ := hother (not_exists.1 hw)
    refine ⟨hwoken, fun w hw => ?_⟩
    rw [hmissing] at hw
    refine (h w hw).imp (fun hex => ?_) id
    obtain ⟨e, he, hne⟩ := hex
    exact ⟨e, he, fun hsub' => hne ((hkeep e.1).1 hsub').2⟩

theorem arrive_cons (q : Bytes) (c : CachedQuery) (rest : List (Bytes × CachedQuery)) :
    (arrive params s ((q, c) :: rest)).2 = (cacheResult params s q c).2.toList ++
      (arrive params (cacheResult params s q c).1 rest).2 := rfl

theorem Stuck.arrive (hparams : params.cacheReadSet = true) (h : Stuck s digest)
    (arrivals : List (Bytes × CachedQuery)) : digest ∉ (arrive params s arrivals).2 := by
  induction arrivals generalizing s with
  | nil => simp [Query.arrive]
  | cons a rest ih =>
    obtain ⟨q, c⟩ := a
    obtain ⟨hwoken, hstuck⟩ := h.cacheResult hparams q c
    rw [arrive_cons, mem_append, not_or]
    exact ⟨by simpa [mem_toList, eq_comm] using hwoken, ih hstuck⟩

/-! ## Transactions that miss one query -/

structure MissesOne (s : QueryState) (digest : Digest) (q : Bytes) (v : UInt64) : Prop where
  missing : ∃ w, s.missing digest = some w ∧ w.versions.entries = [⟨q, v⟩]
  subscribed : s.subscribed q = some digest

theorem lookup_single (h : versions.entries = [⟨q, v⟩]) : versions.lookup q = some v := by
  rw [AList.lookup, h]
  exact dlookup_cons_eq _ _ _

theorem erase_single (h : versions.entries = [⟨q, v⟩]) : (versions.erase q).entries = [] := by
  show versions.entries.kerase q = []
  simp [h]

theorem MissesOne.awaits (h : MissesOne s digest q v) {q' : Bytes} {v' : UInt64} {w : Waiting}
    (hw : Awaits s digest q' v' w) : q' = q ∧ v' = v ∧ w.versions.entries = [⟨q, v⟩] := by
  obtain ⟨w', hw', hentries⟩ := h.missing
  obtain rfl : w' = w := some.inj (hw'.symm.trans hw.2.1)
  have hmem := AList.mem_lookup_iff.1 hw.2.2
  rw [hentries, mem_singleton] at hmem
  cases hmem
  exact ⟨rfl, rfl, hentries⟩

theorem MissesOne.other (hparams : params.cacheReadSet = true) {q' : Bytes}
    (h : MissesOne s digest q v) (hne : q' ≠ q) (c : CachedQuery) :
    (cacheResult params s q' c).2 ≠ some digest ∧
      MissesOne (cacheResult params s q' c).1 digest q v := by
  obtain ⟨hkeep, -, hother⟩ := cacheResult_woken hparams s digest q' c
  obtain ⟨hwoken, hmissing⟩ := hother fun w hw => hne (h.awaits hw).1
  exact ⟨hwoken, hmissing ▸ h.missing, (hkeep q).2 ⟨hne.symm, h.subscribed⟩⟩

theorem MissesOne.right (hparams : params.cacheReadSet = true) (h : MissesOne s digest q v)
    (hv : c.retryVersion = v) :
    (cacheResult params s q c).2 = some digest ∧
      Stuck (cacheResult params s q c).1 digest := by
  obtain ⟨w, hw, hentries⟩ := h.missing
  obtain ⟨hnone, hwoken⟩ := (cacheResult_woken hparams s digest q c).awaited w
    ⟨h.subscribed, hw, hv ▸ lookup_single hentries⟩
  exact ⟨by rw [hwoken, if_pos (erase_single hentries)], stuck_of_none hnone⟩

theorem MissesOne.wrong (hparams : params.cacheReadSet = true) (h : MissesOne s digest q v)
    (hv : c.retryVersion ≠ v) :
    (cacheResult params s q c).2 ≠ some digest ∧ Stuck (cacheResult params s q c).1 digest := by
  obtain ⟨hkeep, -, hother⟩ := cacheResult_woken hparams s digest q c
  obtain ⟨hwoken, hmissing⟩ := hother fun w hw => hv (h.awaits hw).2.1
  refine ⟨hwoken, fun w' hw' => .inl ⟨⟨q, v⟩, ?_, fun hsub' => ((hkeep q).1 hsub').1 rfl⟩⟩
  obtain ⟨w, hw, hentries⟩ := h.missing
  obtain rfl : w = w' := some.inj (hw.symm.trans (hmissing.symm.trans hw'))
  simp [hentries]

theorem firstVersion_cons (q : Bytes) (c : CachedQuery) (rest : List (Bytes × CachedQuery))
    (q' : Bytes) : firstVersion ((q, c) :: rest) q' =
      if q = q' then some c.retryVersion else firstVersion rest q' := by
  unfold firstVersion
  rw [find?_cons]
  by_cases hq : q = q' <;> simp [hq]

theorem MissesOne.arrive (hparams : params.cacheReadSet = true) (h : MissesOne s digest q v)
    (arrivals : List (Bytes × CachedQuery)) :
    (arrive params s arrivals).2.count digest =
      if firstVersion arrivals q = some v then 1 else 0 := by
  induction arrivals generalizing s with
  | nil => rfl
  | cons a rest ih =>
    obtain ⟨q', c⟩ := a
    rw [arrive_cons, count_append, firstVersion_cons]
    by_cases hq : q' = q
    · subst hq
      rw [if_pos rfl]
      by_cases hv : c.retryVersion = v
      · obtain ⟨hwoken, hstuck⟩ := h.right hparams hv
        rw [hwoken, count_eq_zero.2 (hstuck.arrive hparams rest), if_pos (congrArg some hv)]
        simp
      · obtain ⟨hwoken, hstuck⟩ := h.wrong hparams hv
        rw [count_eq_zero.2 (hstuck.arrive hparams rest),
          if_neg fun heq => hv (some.inj heq), Nat.add_zero, count_eq_zero]
        simpa [mem_toList, eq_comm] using hwoken
    · obtain ⟨hwoken, hone⟩ := h.other hparams hq c
      rw [if_neg hq, ih hone, count_eq_zero.2, Nat.zero_add]
      simpa [mem_toList, eq_comm] using hwoken

/-! ## The first check -/

section FirstCheck
variable {clientId : UInt64} {l l' : MergeLoop} {md : QueryMd}

abbrev Missing (cache : Cache) (clientId : UInt64) (md : QueryMd) : Prop :=
  fetchReadSet cache clientId md = .wait

theorem mergeRound_ok (h : mergeRound params digest clientId l md = .ok l') :
    (Missing l.cache clientId md ∧ l' = l.wait digest md) ∨
      (¬Missing l.cache clientId md ∧ l'.missing = l.missing ∧ l'.subscribed = l.subscribed ∧
        ∀ md', Missing l'.cache clientId md' ↔ Missing l.cache clientId md') := by
  rcases mergeRound_cases h with ⟨hfetch, rfl⟩ | ⟨hfetch, rfl⟩ | ⟨rs, carried, hfetch, hcase⟩
  · exact .inl ⟨hfetch, rfl⟩
  · exact .inr ⟨by simp [Missing, hfetch], rfl, rfl, fun _ => Iff.rfl⟩
  · refine .inr ⟨by cases carried <;> simp [Missing, hfetch], ?_⟩
    rcases hcase with ⟨-, rfl⟩ | ⟨-, merged, -, rfl⟩
    · exact ⟨rfl, rfl, fun _ => Iff.rfl⟩
    · unfold MergeLoop.take
      split_ifs with hcaching hcarried
      · exact ⟨rfl, rfl, fun _ => Iff.rfl⟩
      · rw [if_neg hcarried] at hfetch
        refine ⟨rfl, rfl, fun md' => ?_⟩
        rcases fetchReadSet_rob hfetch md' with hsame | ⟨hcached, hrobbed⟩
        · unfold Missing
          rw [hsame]
        · simp [Missing, hcached, hrobbed]
      · exact ⟨rfl, rfl, fun _ => Iff.rfl⟩

theorem mergeRounds_missing (cache : Cache) {queries : List QueryMd}
    (h : queries.foldlM (mergeRound params digest clientId) l = .ok l')
    (hcache : ∀ md, Missing l.cache clientId md ↔ Missing cache clientId md)
    (hsub : ∀ p ∈ l.missing, l.subscribed p.1 = some digest) :
    l'.missing = l.missing ++ (queries.filter (Missing cache clientId)).map
        (fun md => (md.queryId, md.retryVersion)) ∧
      ∀ p ∈ l'.missing, l'.subscribed p.1 = some digest := by
  induction queries generalizing l with
  | nil =>
    cases h
    exact ⟨by simp, hsub⟩
  | cons md rest ih =>
    obtain ⟨m, hround, hrest⟩ := Except.bind_eq_ok.1 h
    rcases mergeRound_ok hround with ⟨hmissing, rfl⟩ | ⟨hnot, hm, hs, hc⟩
    · have hsub' : ∀ p ∈ (l.wait digest md).missing,
          (l.wait digest md).subscribed p.1 = some digest := by
        intro p hp
        show update l.subscribed md.queryId (some digest) p.1 = some digest
        by_cases hq : p.1 = md.queryId
        · rw [hq, update_self]
        · rw [update_of_ne hq]
          rcases mem_append.1 hp with hp | hp
          · exact hsub p hp
          · rw [mem_singleton.1 hp] at hq
            exact absurd rfl hq
      obtain ⟨heq, hall⟩ := ih hrest hcache hsub'
      refine ⟨?_, hall⟩
      rw [heq, filter_cons_of_pos (by simpa using (hcache md).1 hmissing)]
      show l.missing ++ _ ++ _ = _
      rw [append_assoc]
      rfl
    · obtain ⟨heq, hall⟩ :=
        ih hrest (fun md' => (hc md').trans (hcache md')) (by rw [hm, hs]; exact hsub)
      refine ⟨?_, hall⟩
      rw [heq, hm, filter_cons_of_neg (by simpa using fun hin => hnot ((hcache md).2 hin))]

end FirstCheck

def QueryTxn.missingQueries (txn : QueryTxn) (cache : Cache) : AList fun _ : Bytes => UInt64 :=
  (txn.querySet.filter (Missing cache txn.clientId)).foldl
    (fun m md => m.insert md.queryId md.retryVersion) ∅

theorem mem_missingQueries {txn : QueryTxn} {cache : Cache} :
    (∀ e ∈ (txn.missingQueries cache).entries, ∃ md ∈ txn.querySet,
      Missing cache txn.clientId md ∧ md.queryId = e.1 ∧ md.retryVersion = e.2) ∧
    ∀ md ∈ txn.querySet, Missing cache txn.clientId md →
      md.queryId ∈ txn.missingQueries cache := by
  have h : ∀ (queries : List QueryMd) (m : AList fun _ : Bytes => UInt64),
      (∀ e ∈ (queries.foldl (fun m md => m.insert md.queryId md.retryVersion) m).entries,
        e ∈ m.entries ∨ ∃ md ∈ queries, md.queryId = e.1 ∧ md.retryVersion = e.2) ∧
      (∀ q ∈ m, q ∈ queries.foldl (fun m md => m.insert md.queryId md.retryVersion) m) ∧
      ∀ md ∈ queries, md.queryId ∈
        queries.foldl (fun m md => m.insert md.queryId md.retryVersion) m := by
    intro queries
    induction queries with
    | nil => exact fun m => ⟨fun e he => .inl he, fun q hq => hq, by simp⟩
    | cons md rest ih =>
      intro m
      obtain ⟨hfrom, hold, hnew⟩ := ih (m.insert md.queryId md.retryVersion)
      refine ⟨fun e he => ?_, fun q hq => hold q ((AList.mem_insert m).2 (.inr hq)),
        fun md' hmd' => ?_⟩
      · rcases hfrom e he with he | ⟨md', hmd', heq⟩
        · rw [AList.entries_insert, mem_cons] at he
          rcases he with rfl | he
          · exact .inr ⟨md, by simp, rfl, rfl⟩
          · exact .inl ((kerase_sublist _ _).subset he)
        · exact .inr ⟨md', mem_cons_of_mem _ hmd', heq⟩
      · rcases mem_cons.1 hmd' with rfl | hmd'
        · exact hold _ ((AList.mem_insert m).2 (.inl rfl))
        · exact hnew md' hmd'
  obtain ⟨hfrom, -, hnew⟩ := h (txn.querySet.filter (Missing cache txn.clientId)) ∅
  refine ⟨fun e he => ?_, fun md hmd hmissing => hnew md (mem_filter.2 ⟨hmd, by simpa⟩)⟩
  obtain ⟨md, hmd, heq⟩ := (hfrom e he).resolve_left (by simp)
  exact ⟨md, mem_of_mem_filter hmd, by simpa using of_mem_filter hmd, heq⟩

structure Subscribed (s s' : QueryState) (digest : Digest) (txn : QueryTxn) (commit : Bool) :
    Prop where
  recorded : s'.missing digest = some ⟨txn.missingQueries s.cache, commit⟩
  nonempty : (txn.missingQueries s.cache).entries ≠ []
  subscribed : ∀ e ∈ (txn.missingQueries s.cache).entries, s'.subscribed e.1 = some digest

theorem subscribed_of_wait {txn txn' : QueryTxn} {commit : Bool} {m : Merged}
    (hfirst : s.missing digest = none)
    (hcheck : mergeTxReadSets params s digest txn commit = some (m, s', txn'))
    (hwait : m.vote = .wait) : Subscribed s s' digest txn commit := by
  rcases mergeTxReadSets_cases hcheck with ⟨-, -, hbase⟩ | ⟨hne, -⟩ | ⟨-, res, l, herror, hres, -⟩ |
    ⟨-, l, hok, hfinish⟩
  · rcases hbase with ⟨-, rfl⟩ | ⟨merged, -, rfl⟩ <;> cases hwait
  · exact absurd hfirst hne
  · obtain ⟨md, -, c, hround⟩ := foldlM_error herror
    rw [hwait] at hres
    rcases fetchReadSet_vote (mergeRound_vote hround).1 with heq | heq <;> rw [heq] at hres <;>
      cases hres
  · obtain ⟨hmissing, hsub⟩ := mergeRounds_missing s.cache hok (fun _ => Iff.rfl) (by simp)
    rw [nil_append] at hmissing
    rcases finishMerge_cases hfinish with ⟨hnone, -, -, rfl⟩ | ⟨-, -, -, rfl⟩ | ⟨-, rfl⟩
    · have hversions : Waiting.ofMissing l.missing commit =
          ⟨txn.missingQueries s.cache, commit⟩ := by
        rw [hmissing, Waiting.ofMissing, foldl_map]
        rfl
      refine ⟨?_, fun hnil => hnone ?_, fun e he => ?_⟩
      · show update s.missing digest _ digest = _
        rw [update_self, hversions]
      · -- no key is left out
        rw [hmissing, map_eq_nil_iff, filter_eq_nil_iff]
        intro md hmd hin
        have hkey := mem_missingQueries.2 md hmd (by simpa using hin)
        rw [AList.mem_keys, AList.keys, hnil] at hkey
        cases hkey
      · obtain ⟨md, hmd, hin, heq, -⟩ := mem_missingQueries.1 e he
        rw [← heq]
        refine hsub (md.queryId, md.retryVersion) ?_
        rw [hmissing]
        exact mem_map_of_mem (mem_filter.2 ⟨hmd, by simpa using hin⟩)
    · cases hwait
    · cases hwait

/-! ## When a transaction is resumed -/

variable {arrivals : List (Bytes × CachedQuery)}

theorem Arrived.mono {q : Bytes} {v : UInt64} {n : Nat} (h : Arrived (arrivals.take n) q v) :
    Arrived arrivals q v := by
  obtain ⟨c, hmem, hv⟩ := h
  exact ⟨c, mem_of_mem_take hmem, hv⟩

theorem arrived_of_firstVersion {q : Bytes} {v : UInt64} (h : firstVersion arrivals q = some v) :
    Arrived arrivals q v := by
  obtain ⟨⟨q', c⟩, hfind, hv⟩ := map_eq_some_iff.1 h
  have hq : q' = q := by simpa using find?_some hfind
  exact ⟨c, hq ▸ mem_of_find?_eq_some hfind, hv⟩

theorem firstVersion_isSome {q : Bytes} {v : UInt64} (h : Arrived arrivals q v) :
    ∃ u, firstVersion arrivals q = some u := by
  obtain ⟨c, hmem, -⟩ := h
  have hfind : (arrivals.find? (·.1 = q)).isSome := by
    rw [find?_isSome]
    exact ⟨(q, c), hmem, by simp⟩
  obtain ⟨a, ha⟩ := isSome_iff_exists.1 hfind
  exact ⟨a.2.retryVersion, by rw [firstVersion, ha]; rfl⟩

theorem firstVersion_take {q : Bytes} {u : UInt64} {n : Nat}
    (h : firstVersion (arrivals.take n) q = some u) : firstVersion arrivals q = some u := by
  obtain ⟨a, hfind, hu⟩ := map_eq_some_iff.1 h
  rw [firstVersion, (List.take_prefix n arrivals).find?_eq_some hfind]
  exact congrArg some hu

theorem firstVersion_iff {q : Bytes} {v : UInt64} :
    (∀ n, firstVersion (arrivals.take n) q = some v ↔ Arrived (arrivals.take n) q v) ↔
      (Arrived arrivals q v → firstVersion arrivals q = some v) := by
  constructor
  · intro h harrived
    have hall := (h arrivals.length).2
    rw [take_length] at hall
    exact hall harrived
  · intro h n
    refine ⟨arrived_of_firstVersion, fun harrived => ?_⟩
    obtain ⟨u, hu⟩ := firstVersion_isSome harrived
    have hv := h harrived.mono
    rw [firstVersion_take hu] at hv
    rw [hu, hv]

/-- A waiting transaction is resumed once and when all missing queries are cached, exactly if it
misses one query and the first result for it is the right one, or if some query never comes. -/
theorem wait_resumed_iff {txn txn' : QueryTxn} {commit : Bool} {m : Merged}
    (hparams : params.cacheReadSet = true) (hfirst : s.missing digest = none)
    (hcheck : mergeTxReadSets params s digest txn commit = some (m, s', txn'))
    (hwait : m.vote = .wait) (arrivals : List (Bytes × CachedQuery)) :
    (∀ n, (arrive params s' (arrivals.take n)).2.count digest =
        if Complete (txn.missingQueries s.cache) (arrivals.take n) then 1 else 0) ↔
      (Complete (txn.missingQueries s.cache) arrivals →
        ∃ q v, (txn.missingQueries s.cache).entries = [⟨q, v⟩] ∧
          firstVersion arrivals q = some v) := by
  obtain ⟨hrecorded, hnonempty, hsub⟩ := subscribed_of_wait hfirst hcheck hwait
  cases hentries : (txn.missingQueries s.cache).entries with
  | nil => exact absurd hentries hnonempty
  | cons e rest =>
    obtain ⟨q, v⟩ := e
    cases rest with
    | nil =>
      have hone : MissesOne s' digest q v :=
        ⟨⟨_, hrecorded, hentries⟩, hsub ⟨q, v⟩ (by simp [hentries])⟩
      have hcomplete : ∀ arrivals, Complete (txn.missingQueries s.cache) arrivals ↔
          Arrived arrivals q v := by
        intro arrivals
        simp [Complete, hentries]
      have hcount : ∀ n, ((arrive params s' (arrivals.take n)).2.count digest =
          if Complete (txn.missingQueries s.cache) (arrivals.take n) then 1 else 0) ↔
          (firstVersion (arrivals.take n) q = some v ↔ Arrived (arrivals.take n) q v) := by
        intro n
        rw [hone.arrive hparams]
        by_cases h1 : firstVersion (arrivals.take n) q = some v <;>
          by_cases h2 : Arrived (arrivals.take n) q v <;> simp [hcomplete, h1, h2]
      rw [forall_congr' hcount, firstVersion_iff, hcomplete]
      refine imp_congr_right fun _ => ⟨fun h => ⟨q, v, rfl, h⟩, fun h => ?_⟩
      obtain ⟨q', v', heq, h⟩ := h
      cases heq
      exact h
    | cons e' rest =>
      have hstuck : Stuck s' digest := by
        intro w hw
        rw [hrecorded] at hw
        cases hw
        exact .inr (by simp [hentries])
      have hcount : ∀ n, (arrive params s' (arrivals.take n)).2.count digest = 0 :=
        fun n => List.count_eq_zero.2 (hstuck.arrive hparams _)
      constructor
      · intro h hcomplete
        have hall := h arrivals.length
        rw [hcount, List.take_length, if_pos hcomplete] at hall
        cases hall
      · intro h n
        rw [hcount, if_neg]
        intro hcomplete
        obtain ⟨q', v', heq, -⟩ := h fun e he => (hcomplete e he).mono
        cases heq

def executed (version : UInt64) : CachedQuery where
  clientId := 1
  retryVersion := version
  result := some ⟨some {}, some [7]⟩

theorem wait_resumed_iff_one :
    let arrivals := [([5], executed 0), ([1], executed 2)]
    ∃ m s' txn', mergeTxReadSets cachingParams {} [9] (hashedQueries [([1], 2)]) false =
        some (m, s', txn') ∧ m.vote = .wait ∧
      ∀ n, (arrive cachingParams s' (arrivals.take n)).2.count [9] =
        if Complete ((hashedQueries [([1], 2)]).missingQueries fun _ => none) (arrivals.take n)
          then 1 else 0 := by
  intro arrivals
  have hcheck : ∃ m s' txn', mergeTxReadSets cachingParams {} [9] (hashedQueries [([1], 2)]) false =
      some (m, s', txn') ∧ m.vote = .wait := ⟨_, _, _, rfl, rfl⟩
  obtain ⟨m, s', txn', hmerge, hwait⟩ := hcheck
  refine ⟨m, s', txn', hmerge, hwait, ?_⟩
  exact (wait_resumed_iff rfl rfl hmerge hwait arrivals).2 fun _ => ⟨[1], 2, rfl, by decide⟩

/-- Two queries are missing, or one that is cached in another version first: the transaction is not
resumed when all of them are there. -/
theorem wait_not_resumed :
    (∃ m s' txn', mergeTxReadSets cachingParams {} [9] (hashedQueries [([1], 0), ([2], 0)]) false =
        some (m, s', txn') ∧ m.vote = .wait ∧
      (arrive cachingParams s' [([1], executed 0), ([2], executed 0)]).2 = [] ∧
      Complete ((hashedQueries [([1], 0), ([2], 0)]).missingQueries fun _ => none)
        [([1], executed 0), ([2], executed 0)]) ∧
    ∃ m s' txn', mergeTxReadSets cachingParams {} [9] (hashedQueries [([1], 1)]) false =
        some (m, s', txn') ∧ m.vote = .wait ∧
      (arrive cachingParams s' [([1], executed 0), ([1], executed 1)]).2 = [] ∧
      Complete ((hashedQueries [([1], 1)]).missingQueries fun _ => none)
        [([1], executed 0), ([1], executed 1)] :=
  ⟨⟨_, _, _, rfl, rfl, by decide, by decide⟩, _, _, _, rfl, rfl, by decide, by decide⟩

end Sintr.Query
