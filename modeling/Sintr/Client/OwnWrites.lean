import Sintr.Client.State
import Sintr.Lib.History
import Sintr.Lib.Sorting
import Sintr.Mvtso.Store

/-!
# A transaction's own writes

The write set of a transaction is a list with one entry for each `Put`. A `Get` of the program, and
`CommitToStore` at the replicas, both take the first entry of a key.

* `Buffers`: what the shard clients hold after a program, with step lemmas for `Put` and `Get` and
  `tracks_run` for whole programs.
* `ownWrites_lost`: a program that writes a key twice.
-/

namespace Sintr.Client

open List Option Function

open Mvtso (Committed)
open Sorting (exists_sorted_find)

/-! ## Puts -/

section
variable {n : Nat}

def firstOf (k : Key) (ps : List (Key × Bytes)) : Option Bytes :=
  (ps.find? fun p => decide (p.1 = k)).map (·.2)

def lastOf (k : Key) (ps : List (Key × Bytes)) : Option Bytes := firstOf k ps.reverse

def toWrite (p : Key × Bytes) : WriteMessage := { key := p.1, value := some p.2 }

def ofWrite (w : WriteMessage) : Key × Bytes := (w.key, w.value.getD [])

def Op.written : Op n → Option (Key × Bytes)
  | .put key value _ => some (key, value)
  | .get .. => none

/-- The write, if the call sends it to the shard client of group `g`. -/
def Op.writtenAt (policyType : TxnPolicyType) (g : Fin n) : Op n → Option (Key × Bytes)
  | .put key value group =>
    if policyType = .policyIdPolicy ∨ group = g then some (key, value) else none
  | .get .. => none

def puts (ops : List (Op n)) : List (Key × Bytes) := ops.filterMap Op.written

def putsAt (policyType : TxnPolicyType) (g : Fin n) (ops : List (Op n)) : List (Key × Bytes) :=
  ops.filterMap (Op.writtenAt policyType g)

theorem mem_of_firstOf {k : Key} {v : Bytes} {ps : List (Key × Bytes)}
    (h : firstOf k ps = some v) : (k, v) ∈ ps := by
  simp only [firstOf, map_eq_some_iff] at h
  obtain ⟨p, hp, rfl⟩ := h
  have hk : p.1 = k := by simpa using find?_some hp
  exact hk ▸ mem_of_find?_eq_some hp

theorem mem_of_lastOf {k : Key} {v : Bytes} {ps : List (Key × Bytes)}
    (h : lastOf k ps = some v) : (k, v) ∈ ps :=
  mem_reverse.1 (mem_of_firstOf h)

theorem find?_toWrite (k : Key) (ps : List (Key × Bytes)) :
    ((ps.map toWrite).find? fun w => decide (w.key = k)).map (fun w => w.value.getD []) =
      firstOf k ps := by
  rw [find?_map, Option.map_map]
  rfl

end

/-! ## Shard by shard -/

section
variable {n : Nat} {P Q : Fin n → ShardClient → Prop} {c : State n}

/-- The shard clients of the participants have a property, and so has the empty one that another
group begins with. -/
structure EachShard (P : Fin n → ShardClient → Prop) (c : State n) : Prop where
  holds : ∀ g ∈ c.involvedGroups, P g (c.shards g)
  fresh : ∀ g ∉ c.involvedGroups, P g {}

theorem EachShard.participate (h : EachShard P c) (i : Fin n) :
    EachShard P (c.participate i) ∧ i ∈ (c.participate i).involvedGroups := by
  unfold State.participate
  by_cases hi : i ∈ c.involvedGroups
  · rw [if_pos hi]
    exact ⟨h, hi⟩
  · rw [if_neg hi]
    refine ⟨⟨fun g hg => ?_, fun g hg => ?_⟩, by simp⟩
    · by_cases hgi : g = i
      · subst hgi
        simp only [update_self]
        exact h.fresh g hi
      · simp only [update_of_ne hgi]
        refine h.holds g ?_
        simpa [hgi] using hg
    · exact h.fresh g fun hg' => hg (mem_append_left _ hg')

variable {i : Fin n}

theorem EachShard.update (h : EachShard P c) (hi : i ∈ c.involvedGroups) {sc : ShardClient}
    (hself : Q i sc) (hother : ∀ g, g ≠ i → ∀ sc, P g sc → Q g sc) {readSet : List ReadMessage} :
    EachShard Q { c with readSet, shards := update c.shards i sc } := by
  refine ⟨fun g hg => ?_, fun g hg => ?_⟩
  · by_cases hgi : g = i
    · subst hgi
      simpa using hself
    · simpa [update_of_ne hgi] using hother g hgi _ (h.holds g hg)
  · exact hother g (fun hgi => hg (hgi ▸ hi)) _ (h.fresh g hg)

theorem EachShard.putAt (h : EachShard P c) {k : Key} {v : Bytes}
    (hself : ∀ sc, P i sc → Q i (sc.put k v)) (hother : ∀ g, g ≠ i → ∀ sc, P g sc → Q g sc) :
    EachShard Q (State.putAt k v c i) := by
  obtain ⟨hpart, hi⟩ := h.participate i
  exact hpart.update hi (hself _ (hpart.holds i hi)) hother

theorem EachShard.putAll (h : EachShard P c) {k : Key} {v : Bytes} {gs : List (Fin n)}
    (hnodup : gs.Nodup) (hself : ∀ g ∈ gs, ∀ sc, P g sc → Q g (sc.put k v))
    (hother : ∀ g, g ∉ gs → ∀ sc, P g sc → Q g sc) :
    EachShard Q (gs.foldl (State.putAt k v) c) := by
  induction gs generalizing P c with
  | nil =>
    exact ⟨fun g hg => hother g nofun _ (h.holds g hg), fun g hg => hother g nofun _ (h.fresh g hg)⟩
  | cons i gs ih =>
    obtain ⟨hi, hgs⟩ := nodup_cons.1 hnodup
    -- after the first put, group `i` is done and the others are as before
    refine ih (P := fun g => if g = i then Q g else P g) (h.putAt ?_ ?_) hgs ?_ ?_
    · intro sc hsc
      rw [if_pos rfl]
      exact hself i mem_cons_self sc hsc
    · intro g hgi sc hsc
      rwa [if_neg hgi]
    · intro g hg sc hsc
      rw [if_neg fun hgi : g = i => hi (hgi ▸ hg)] at hsc
      exact hself g (mem_cons_of_mem _ hg) sc hsc
    · intro g hg sc hsc
      by_cases hgi : g = i
      · rwa [if_pos hgi] at hsc
      · rw [if_neg hgi] at hsc
        exact hother g (by simp [hgi, hg]) sc hsc

theorem EachShard.get (h : EachShard P c) {k : Key} {reply : Reply}
    (hself : ∀ sc, P i sc → Q i (sc.get k reply).1) (hother : ∀ g, g ≠ i → ∀ sc, P g sc → Q g sc) :
    EachShard Q (c.get k i reply).1 := by
  obtain ⟨hpart, hi⟩ := h.participate i
  exact hpart.update hi (hself _ (hpart.holds i hi)) hother

end

/-! ## What the shard clients hold -/

section
variable {n : Nat}

structure Holds (ps : List (Key × Bytes)) (vals : List Bytes) (sc : ShardClient) : Prop where
  writeSet : sc.writeSet = ps.map toWrite
  readValues : ∀ k x, sc.readValues k = some x → x ∈ vals
  readSet : ∀ r ∈ sc.readSet, (sc.readValues r.key).isSome

abbrev Buffers (ps : Fin n → List (Key × Bytes)) (vals : List Bytes) : State n → Prop :=
  EachShard fun g => Holds (ps g) vals

variable {ps : Fin n → List (Key × Bytes)} {vals : List Bytes} {c : State n} {sc : ShardClient}
  {qs : List (Key × Bytes)} {evs : List (Op n × Reply)}

theorem Holds.put (h : Holds qs vals sc) (k : Key) (v : Bytes) :
    Holds (qs ++ [(k, v)]) vals (sc.put k v) := by
  refine ⟨?_, h.readValues, h.readSet⟩
  rw [map_append, ← h.writeSet]
  rfl

theorem Holds.mono (h : Holds qs vals sc) {vals' : List Bytes} (hsub : vals ⊆ vals') :
    Holds qs vals' sc :=
  ⟨h.writeSet, fun k x hx => hsub (h.readValues k x hx), h.readSet⟩

theorem Holds.get (h : Holds qs vals sc) (k : Key) (reply : Reply) :
    Holds qs (vals ++ [reply.value]) (sc.get k reply).1 ∧
      (∀ v, firstOf k qs = some v → (sc.get k reply).2.value = v) ∧
      (firstOf k qs = none → (sc.get k reply).2.value ∈ vals ++ [reply.value]) := by
  have hmono : Holds qs (vals ++ [reply.value]) sc := h.mono (subset_append_left _ _)
  have hfirst := find?_toWrite k qs
  rw [← h.writeSet] at hfirst
  unfold ShardClient.get ShardClient.bufferGet
  cases hw : sc.writeSet.find? fun w => decide (w.key = k) with
  | some w =>
    rw [hw] at hfirst
    refine ⟨hmono, ?_, ?_⟩
    · intro v hv
      exact some.inj (hfirst.trans hv)
    · intro hnone
      rw [hnone] at hfirst
      cases hfirst
  | none =>
    rw [hw] at hfirst
    have habsent (v : Bytes) : firstOf k qs ≠ some v := fun hv => by
      rw [hv] at hfirst
      cases hfirst
    cases hr : sc.readSet.find? fun r => decide (r.key = k) with
    | some r =>
      refine ⟨hmono, fun v hv => absurd hv (habsent v), fun _ => ?_⟩
      have hkey : r.key = k := by simpa using find?_some hr
      obtain ⟨x, hx⟩ := isSome_iff_exists.1 (h.readSet r (mem_of_find?_eq_some hr))
      rw [hkey] at hx
      simp only [hx, getD_some]
      exact mem_append_left _ (h.readValues k x hx)
    | none =>
      cases hv : sc.readValues k with
      | some x =>
        refine ⟨hmono, fun v hv => absurd hv (habsent v), fun _ => ?_⟩
        exact mem_append_left _ (h.readValues k x hv)
      | none =>
        refine ⟨⟨h.writeSet, ?_, ?_⟩, fun v hv => absurd hv (habsent v),
          fun _ => mem_append_right _ (mem_singleton.2 rfl)⟩
        · intro k' x hx
          by_cases hk : k' = k
          · subst hk
            simp only [update_self, some.injEq] at hx
            exact mem_append_right _ (mem_singleton.2 hx.symm)
          · simp only [update_of_ne hk] at hx
            exact mem_append_left _ (h.readValues k' x hx)
        · intro r hr'
          by_cases hk : r.key = k
          · simp [hk]
          · have hr'' : r ∈ sc.readSet := by
              rcases mem_append.1 hr' with hr'' | hr''
              · exact hr''
              · rw [mem_singleton.1 hr''] at hk
                exact absurd rfl hk
            simpa [update_of_ne hk] using h.readSet r hr''

theorem Buffers.get (h : Buffers ps vals c) (k : Key) (i : Fin n) (reply : Reply) :
    Buffers ps (vals ++ [reply.value]) (c.get k i reply).1 ∧
      (∀ v, firstOf k (ps i) = some v → (c.get k i reply).2.value = v) ∧
      (firstOf k (ps i) = none → (c.get k i reply).2.value ∈ vals ++ [reply.value]) := by
  obtain ⟨hpart, hi⟩ := h.participate i
  obtain ⟨-, hfirst, hnone⟩ := (hpart.holds i hi).get k reply
  exact ⟨EachShard.get h (fun sc hsc => (hsc.get k reply).1) fun g _ sc hsc =>
    hsc.mono (subset_append_left _ _), hfirst, hnone⟩

structure Tracks (policyType : TxnPolicyType) (evs : List (Op n × Reply)) (c : State n) : Prop where
  txnType : c.policyType = policyType
  writeSet : c.writeSet = (puts (evs.map (·.1))).map toWrite
  buffers : Buffers (fun g => putsAt policyType g (evs.map (·.1))) (evs.map (·.2.value)) c

theorem putAt_writeSet (k : Key) (v : Bytes) (c : State n) (i : Fin n) :
    (State.putAt k v c i).writeSet = c.writeSet ∧
      (State.putAt k v c i).policyType = c.policyType := by
  unfold State.putAt State.participate
  split <;> exact ⟨rfl, rfl⟩

theorem foldl_putAt_writeSet (k : Key) (v : Bytes) (c : State n) (gs : List (Fin n)) :
    (gs.foldl (State.putAt k v) c).writeSet = c.writeSet ∧
      (gs.foldl (State.putAt k v) c).policyType = c.policyType := by
  induction gs generalizing c with
  | nil => exact ⟨rfl, rfl⟩
  | cons i gs ih =>
    obtain ⟨hw, ht⟩ := putAt_writeSet k v c i
    obtain ⟨ihw, iht⟩ := ih (State.putAt k v c i)
    exact ⟨ihw.trans hw, iht.trans ht⟩

theorem Tracks.put {policyType : TxnPolicyType} (h : Tracks policyType evs c) (k : Key) (v : Bytes)
    (i : Fin n) (reply : Reply) :
    Tracks policyType (evs ++ [(Op.put k v i, reply)]) (c.put k v i) := by
  have hvals : evs.map (·.2.value) ⊆ (evs ++ [(Op.put k v i, reply)]).map (·.2.value) := by simp
  have hputs : puts ((evs ++ [(Op.put k v i, reply)]).map (·.1)) =
      puts (evs.map (·.1)) ++ [(k, v)] := by simp [puts, Op.written]
  have hwrites : c.writeSet ++ [toWrite (k, v)] =
      (puts ((evs ++ [(Op.put k v i, reply)]).map (·.1))).map toWrite := by
    rw [hputs, map_append, h.writeSet]
    rfl
  have hbuffers : Buffers (fun g => putsAt policyType g (evs.map (·.1))) (evs.map (·.2.value))
      { c with writeSet := c.writeSet ++ [toWrite (k, v)] } := ⟨h.buffers.holds, h.buffers.fresh⟩
  cases policyType with
  | none =>
    have hcall : c.put k v i =
        State.putAt k v { c with writeSet := c.writeSet ++ [toWrite (k, v)] } i := by
      simp only [State.put, h.txnType]
      rfl
    rw [hcall]
    obtain ⟨hw, ht⟩ := putAt_writeSet k v { c with writeSet := c.writeSet ++ [toWrite (k, v)] } i
    refine ⟨ht.trans h.txnType, hw.trans hwrites, ?_⟩
    refine hbuffers.putAt (fun sc hsc => ?_) fun g hgi sc hsc => ?_
    · simpa [putsAt, Op.writtenAt] using (hsc.put k v).mono hvals
    · simpa [putsAt, Op.writtenAt, Ne.symm hgi] using hsc.mono hvals
  | policyIdPolicy =>
    have hcall : c.put k v i = (finRange n).foldl (State.putAt k v)
        { c with writeSet := c.writeSet ++ [toWrite (k, v)] } := by
      simp only [State.put, h.txnType]
      rfl
    rw [hcall]
    obtain ⟨hw, ht⟩ := foldl_putAt_writeSet k v
      { c with writeSet := c.writeSet ++ [toWrite (k, v)] } (finRange n)
    refine ⟨ht.trans h.txnType, hw.trans hwrites, ?_⟩
    refine hbuffers.putAll (nodup_finRange n) (fun g _ sc hsc => ?_) fun g hg => ?_
    · simpa [putsAt, Op.writtenAt] using (hsc.put k v).mono hvals
    · exact absurd (mem_finRange g) hg

theorem Tracks.get {policyType : TxnPolicyType} (h : Tracks policyType evs c) (k : Key) (i : Fin n)
    (reply : Reply) :
    Tracks policyType (evs ++ [(Op.get k i, reply)]) (c.get k i reply).1 := by
  have hpart : (c.participate i).writeSet = c.writeSet ∧
      (c.participate i).policyType = c.policyType := by
    unfold State.participate
    split <;> exact ⟨rfl, rfl⟩
  refine ⟨hpart.2.trans h.txnType, (hpart.1.trans h.writeSet).trans ?_, ?_⟩
  · simp [puts, Op.written]
  · simpa [putsAt, Op.writtenAt, filterMap_cons] using (h.buffers.get k i reply).1

theorem tracks_run (c : State n) (policyType : TxnPolicyType) (evs : List (Op n × Reply)) :
    Tracks policyType evs ((machine n).run (c.begin policyType) evs) := by
  have hinit : Tracks policyType [] (c.begin policyType) :=
    ⟨rfl, rfl, nofun, fun _ _ => ⟨rfl, nofun, nofun⟩⟩
  refine Machine.run_history (P := fun _ _ => True) hinit (fun evs e h _ => ?_)
    (Machine.along_of_forall fun _ _ => trivial)
  obtain ⟨op, reply⟩ := e
  cases op with
  | put k v i => exact h.put k v i reply
  | get k i => exact h.get k i reply

end

/-! ## The order in which writes are sent -/

section
variable {params : Params} {ps qs : List (Key × Bytes)} {k : Key} {v : Bytes}

def Ordered (params : Params) (ps qs : List (Key × Bytes)) : Prop :=
  if params.parallelCCC then qs.Perm ps ∧ qs.Pairwise fun p q => decide (p.1 ≤ q.1) = true
  else qs = ps

theorem sends_toWrite {sent : List WriteMessage} :
    Sends params (ps.map toWrite) sent ↔ ∃ qs, Ordered params ps qs ∧ sent = qs.map toWrite := by
  unfold Sends Ordered
  split
  · constructor
    · rintro ⟨hperm, hsorted⟩
      have hback : sent = (sent.map ofWrite).map toWrite := by
        rw [List.map_map]
        refine (map_congr_left fun w hw => ?_).trans (map_id sent) |>.symm
        obtain ⟨p, -, rfl⟩ := List.mem_map.1 (hperm.mem_iff.1 hw)
        rfl
      refine ⟨sent.map ofWrite, ⟨?_, pairwise_map.2 hsorted⟩, hback⟩
      have hps : (ps.map toWrite).map ofWrite = ps := by
        rw [List.map_map]
        exact map_id ps
      exact hps ▸ hperm.map ofWrite
    · rintro ⟨qs, ⟨hperm, hsorted⟩, rfl⟩
      exact ⟨hperm.map toWrite, pairwise_map.2 hsorted⟩
  · exact ⟨fun h => ⟨ps, rfl, h⟩, fun ⟨qs, hqs, h⟩ => hqs ▸ h⟩

theorem le_trans_key (p q r : Key × Bytes) (h1 : decide (p.1 ≤ q.1) = true)
    (h2 : decide (q.1 ≤ r.1) = true) : decide (p.1 ≤ r.1) = true := by
  rw [decide_eq_true_eq] at h1 h2 ⊢
  exact List.le_trans h1 h2

theorem le_total_key (p q : Key × Bytes) : (decide (p.1 ≤ q.1) || decide (q.1 ≤ p.1)) = true := by
  simpa using List.le_total p.1 q.1

theorem exists_ordered (h : (k, v) ∈ ps) :
    ∃ qs : List (Key × Bytes), qs.Perm ps ∧
      (qs.Pairwise fun p q => decide (p.1 ≤ q.1) = true) ∧
      (qs.find? fun p => decide (p.1 = k)) = some (k, v) := by
  refine exists_sorted_find le_trans_key le_total_key (p := fun p => decide (p.1 = k))
    (fun p q hp hq => ?_) h (decide_eq_true rfl)
  rw [decide_eq_true_eq] at hp hq ⊢
  rw [hp, hq]
  exact List.le_refl k

theorem forall_ordered {P : List (Key × Bytes) → Prop} :
    (∀ qs, Ordered params ps qs → P qs) ↔
      if params.parallelCCC then
        ∀ qs, qs.Perm ps → (qs.Pairwise fun p q => decide (p.1 ≤ q.1) = true) → P qs
      else P ps := by
  unfold Ordered
  split <;> simp

theorem ordered_first (h : (k, v) ∈ ps) :
    (∀ qs, Ordered params ps qs → firstOf k qs = some v) ↔
      if params.parallelCCC then ∀ v', (k, v') ∈ ps → v' = v else firstOf k ps = some v := by
  rw [forall_ordered]
  refine iff_of_eq (if_congr Iff.rfl (propext ?_) rfl)
  constructor
  · intro hall v' hv'
    obtain ⟨qs, hperm, hsorted, hfind⟩ := exists_ordered hv'
    have hfirst := hall qs hperm hsorted
    rw [firstOf, hfind] at hfirst
    exact some.inj hfirst
  · intro hsame qs hperm _
    obtain ⟨v', hv'⟩ : ∃ v', firstOf k qs = some v' := by
      rw [firstOf, ← isSome_iff_exists, isSome_map, find?_isSome]
      exact ⟨(k, v), hperm.mem_iff.2 h, decide_eq_true rfl⟩
    rw [hv', hsame v' (hperm.mem_iff.1 (mem_of_firstOf hv'))]

theorem ordered_head {P : Bytes → Prop} (h : (k, v) ∈ ps) :
    (∀ qs, Ordered params ps qs → ∃ p ∈ qs.head?, p.1 = k ∧ P p.2) ↔
      if params.parallelCCC then ∀ p ∈ ps, k ≤ p.1 ∧ (p.1 = k → P p.2)
      else ∃ p ∈ ps.head?, p.1 = k ∧ P p.2 := by
  rw [forall_ordered]
  refine iff_of_eq (if_congr Iff.rfl (propext ?_) rfl)
  have hle : ∀ {q p : Key × Bytes} {qs : List (Key × Bytes)}, p ∈ q :: qs →
      ((q :: qs).Pairwise fun p q => decide (p.1 ≤ q.1) = true) → q.1 ≤ p.1 := by
    intro q p qs hp hsorted
    rcases mem_cons.1 hp with rfl | hp
    · exact List.le_refl _
    · exact of_decide_eq_true (List.rel_of_pairwise_cons hsorted hp)
  constructor
  · rintro hall ⟨k', v'⟩ hp
    obtain ⟨qs, hperm, hsorted, hfind⟩ := exists_ordered hp
    obtain ⟨q, hq, hqk, hP⟩ := hall qs hperm hsorted
    obtain ⟨qs', rfl⟩ := head?_eq_some_iff.1 hq
    refine ⟨hqk ▸ hle (hperm.mem_iff.2 hp) hsorted, ?_⟩
    rintro rfl
    have hfirst : (q :: qs').find? (fun p => decide (p.1 = k')) = some q :=
      find?_cons_of_pos (decide_eq_true hqk)
    rwa [some.inj (hfirst.symm.trans hfind)] at hP
  · intro hmin qs hperm hsorted
    have hmem : (k, v) ∈ qs := hperm.mem_iff.2 h
    cases qs with
    | nil => cases hmem
    | cons q qs =>
      obtain ⟨hge, hP⟩ := hmin q (hperm.mem_iff.1 mem_cons_self)
      have hqk : q.1 = k := List.le_antisymm (hle hmem hsorted) hge
      exact ⟨q, rfl, hqk, hP hqk⟩

end

/-! ## What the replicas install -/

section
variable {env : Env} {s : Mvtso.State} {ct : Committed} {ps qs : List (Key × Bytes)} {k : Key}
  {v : Bytes}

theorem effectiveWrites_rows (htype : ct.txn.policyType = .none)
    (hsent : ct.txn.writeSet = qs.map toWrite) :
    Mvtso.effectiveWrites env ct.txn = (qs.filter fun p => env.keyOwned p.1).map toWrite := by
  rw [Mvtso.effectiveWrites, hsent, List.filter_map]
  congr 2
  funext p
  simp [Mvtso.ownedWrite, toWrite, htype]

theorem effectiveWrites_policies (htype : ct.txn.policyType = .policyIdPolicy)
    (hsent : ct.txn.writeSet = qs.map toWrite) :
    Mvtso.effectiveWrites env ct.txn = qs.map toWrite := by
  rw [Mvtso.effectiveWrites, hsent, filter_eq_self]
  intro w hw
  obtain ⟨p, -, rfl⟩ := List.mem_map.1 hw
  simp [Mvtso.ownedWrite, toWrite, htype]

theorem installs_row (htype : ct.txn.policyType = .none)
    (hdigest : ct.txn.txndigest = some (env.digest ct.txn))
    (hsent : ct.txn.writeSet = qs.map toWrite) (hown : env.keyOwned k = true)
    (hnew : ∀ v, (ct.txn.timestamp, v) ∉ s.store k) :
    (ct.txn.timestamp, ⟨v, ct.proof⟩) ∈ (s.commitToStore env ct).store k ↔
      firstOf k qs = some v := by
  have hloop : Mvtso.Storable env ct.txn := by
    refine ⟨.inr fun w hw => ?_, fun _ => hdigest⟩
    rw [effectiveWrites_rows htype hsent] at hw
    obtain ⟨p, -, rfl⟩ := List.mem_map.1 hw
    rfl
  have hfirst : firstOf k (qs.filter fun p => env.keyOwned p.1) = firstOf k qs := by
    unfold firstOf
    rw [find?_filter]
    congr 2
    funext p
    by_cases hp : p.1 = k
    · simp [hp, hown]
    · simp [hp]
  rw [Mvtso.mem_store_commitToStore env s ct htype, effectiveWrites_rows htype hsent, ← hfirst]
  constructor
  · rintro (hold | ⟨-, -, before, w, after, hsplit, hbefore, hk, hv⟩)
    · exact absurd hold (hnew _)
    · have hfind : ((qs.filter fun p => env.keyOwned p.1).map toWrite).find?
          (fun w => decide (w.key = k)) = some w := by
        rw [find?_eq_some_iff_append]
        exact ⟨decide_eq_true hk, before, after, hsplit, by simpa using hbefore⟩
      obtain ⟨p, -, rfl⟩ := List.mem_map.1 (mem_of_find?_eq_some hfind)
      rw [← find?_toWrite, hfind]
      exact congrArg some (Mvtso.Value.mk.inj hv).1
  · intro h
    rw [← find?_toWrite] at h
    obtain ⟨w, hfind, hv⟩ := map_eq_some_iff.1 h
    obtain ⟨p, -, rfl⟩ := List.mem_map.1 (mem_of_find?_eq_some hfind)
    obtain ⟨hk, before, after, hsplit, hbefore⟩ := find?_eq_some_iff_append.1 hfind
    refine .inr ⟨hloop, hnew, before, toWrite p, after, hsplit, by simpa using hbefore,
      of_decide_eq_true hk, ?_⟩
    exact congrArg (fun x => (⟨x, ct.proof⟩ : Mvtso.Value)) hv

theorem installs_policy (htype : ct.txn.policyType = .policyIdPolicy)
    (hsent : ct.txn.writeSet = qs.map toWrite)
    (hnew : ∀ v, (ct.txn.timestamp, v) ∉ s.policyStore k) :
    (ct.txn.timestamp, ⟨env.parsePolicy v, ct.proof⟩) ∈ (s.commitToStore env ct).policyStore k ↔
      ∃ p ∈ qs.head?, p.1 = k ∧ env.parsePolicy p.2 = env.parsePolicy v := by
  rw [Mvtso.mem_policyStore_commitToStore env s ct htype, effectiveWrites_policies htype hsent,
    head?_map]
  constructor
  · rintro (hold | ⟨-, w, hw, hk, hv⟩)
    · exact absurd hold (hnew _)
    · obtain ⟨p, hp, rfl⟩ := map_eq_some_iff.1 hw
      exact ⟨p, hp, hk, (Mvtso.PolicyStoreValue.mk.inj hv).1⟩
  · rintro ⟨p, hp, hk, hv⟩
    refine .inr ⟨hnew, toWrite p, map_eq_some_iff.2 ⟨p, hp, rfl⟩, hk, ?_⟩
    exact congrArg (fun q => (⟨q, ct.proof⟩ : Mvtso.PolicyStoreValue)) hv

end

/-! ## Programs whose own writes are seen -/

section
variable {n : Nat}

def ReadsOwn (c : State n) (evs : List (Op n × Reply)) : Prop :=
  EachAfter (fun before e => ∀ k g v, e.1 = .get k g →
    lastOf k (puts (before.map (·.1))) = some v →
    (((machine n).run c before).get k g e.2).2.value = v) evs

/-- A replica that commits the transaction with its digest in it, as Phase1 has left it, installs
the last write of each key, unless there was a version at its timestamp before. -/
def InstallsLast (env : Env) (s : Mvtso.State) (ct : Committed) (ps : List (Key × Bytes)) : Prop :=
  ct.txn.txndigest = some (env.digest ct.txn) → ∀ k v, lastOf k ps = some v →
    (ct.txn.policyType = .none → env.keyOwned k = true →
      (∀ v', (ct.txn.timestamp, v') ∉ s.store k) →
      (ct.txn.timestamp, ⟨v, ct.proof⟩) ∈ (s.commitToStore env ct).store k) ∧
    (ct.txn.policyType = .policyIdPolicy →
      (∀ v', (ct.txn.timestamp, v') ∉ s.policyStore k) →
      (ct.txn.timestamp, ⟨env.parsePolicy v, ct.proof⟩) ∈ (s.commitToStore env ct).policyStore k)

/-- Before every `Get` of a key the first `Put` of it that went to the same group has the value of
the latest `Put`. -/
def ReadsLatest (policyType : TxnPolicyType) (ops : List (Op n)) : Prop :=
  EachAfter (fun before op => ∀ k g v, op = .get k g → lastOf k (puts before) = some v →
    firstOf k (putsAt policyType g before) = some v) ops

/-- The write of a key that is sent first has the last value. With `parallelCCC` this may be any of
them; a governance transaction installs only the first policy. -/
def SendsLast (env : Env) (policyType : TxnPolicyType) (ps : List (Key × Bytes)) : Prop :=
  ∀ k v, lastOf k ps = some v →
    (policyType = .none → env.keyOwned k = true →
      if env.params.parallelCCC then ∀ v', (k, v') ∈ ps → v' = v else firstOf k ps = some v) ∧
    (policyType = .policyIdPolicy →
      if env.params.parallelCCC then
        ∀ p ∈ ps, k ≤ p.1 ∧ (p.1 = k → env.parsePolicy p.2 = env.parsePolicy v)
      else ∃ p ∈ ps.head?, p.1 = k ∧ env.parsePolicy p.2 = env.parsePolicy v)

/-- The program sees its own writes, and the replicas keep the last of them, whatever they answer
and in whatever order `Commit` sends the writes. -/
def SeesOwnWrites (env : Env) (policyType : TxnPolicyType) (ops : List (Op n)) : Prop :=
  ∀ (c : State n) (evs : List (Op n × Reply)), evs.map (·.1) = ops →
    ReadsOwn (c.begin policyType) evs ∧
    ∀ s ct, ct.txn.policyType = policyType →
      Sends env.params ((machine n).run (c.begin policyType) evs).writeSet ct.txn.writeSet →
      InstallsLast env s ct (puts ops)

variable {policyType : TxnPolicyType}

theorem readsOwn_of_readsLatest {evs : List (Op n × Reply)}
    (h : ReadsLatest policyType (evs.map (·.1))) (c : State n) :
    ReadsOwn (c.begin policyType) evs := by
  rintro before ⟨op, reply⟩ after rfl k g v rfl hlast
  have hfirst := h (before.map (·.1)) (.get k g) (after.map (·.1)) (by simp) k g v rfl hlast
  exact ((tracks_run c policyType before).buffers.get k g reply).2.1 v hfirst

theorem readsLatest_of_readsOwn {ops : List (Op n)}
    (h : ∀ (c : State n) evs, evs.map (·.1) = ops → ReadsOwn (c.begin policyType) evs) :
    ReadsLatest policyType ops := by
  rintro before op after rfl k g v rfl hlast
  let reply : Reply := ⟨v ++ [0], Timestamp.zero⟩
  let c : State n := ⟨policyType, [], [], [], fun _ => {}⟩
  have hops (ops : List (Op n)) : (ops.map fun op => (op, reply)).map (·.1) = ops := by
    rw [List.map_map]
    exact map_id ops
  have hread := h c ((before ++ Op.get k g :: after).map fun op => (op, reply)) (hops _)
    (before.map fun op => (op, reply)) (.get k g, reply) (after.map fun op => (op, reply))
    (by simp) k g v rfl (by rwa [hops])
  obtain ⟨-, hfirst, hnone⟩ :=
    (tracks_run c policyType (before.map fun op => (op, reply))).buffers.get k g reply
  rw [hops] at hfirst hnone
  cases hx : firstOf k (putsAt policyType g before) with
  | some v' => rw [← hread, hfirst v' hx]
  | none =>
    have hmem := hnone hx
    rw [hread] at hmem
    have hne : v = v ++ [0] := by
      simp only [List.map_map, mem_append, List.mem_map, mem_singleton] at hmem
      rcases hmem with ⟨_, -, hv⟩ | hv
      · exact hv.symm
      · exact hv
    simp at hne

theorem installsLast_iff {env : Env} {ps : List (Key × Bytes)} :
    (∀ s ct, ct.txn.policyType = policyType → Sends env.params (ps.map toWrite) ct.txn.writeSet →
      InstallsLast env s ct ps) ↔ SendsLast env policyType ps := by
  constructor
  · intro h k v hlast
    -- A replica with an empty store, and a transaction with the writes in some order.
    have hinst (qs : List (Key × Bytes)) (hqs : Ordered env.params ps qs) :=
      h {} ⟨env.named
        { clientId := 0, clientSeqNum := 0, policyType, writeSet := qs.map toWrite }, none⟩
        rfl (sends_toWrite.2 ⟨qs, hqs, rfl⟩) rfl k v hlast
    refine ⟨?_, ?_⟩
    · rintro rfl hown
      refine (ordered_first (mem_of_lastOf hlast)).1 fun qs hqs => ?_
      exact (installs_row rfl rfl rfl hown (by simp)).1 ((hinst qs hqs).1 rfl hown (by simp))
    · rintro rfl
      refine (ordered_head (P := fun x => env.parsePolicy x = env.parsePolicy v)
        (mem_of_lastOf hlast)).1 fun qs hqs => ?_
      exact (installs_policy rfl rfl (by simp)).1 ((hinst qs hqs).2 rfl (by simp))
  · intro h s ct htype hsends hdigest k v hlast
    obtain ⟨qs, hqs, hsent⟩ := sends_toWrite.1 hsends
    obtain ⟨hrow, hpolicy⟩ := h k v hlast
    refine ⟨?_, ?_⟩
    · intro hnone hown hnew
      refine (installs_row hnone hdigest hsent hown hnew).2 ?_
      exact (ordered_first (mem_of_lastOf hlast)).2 (hrow (htype.symm.trans hnone) hown) qs hqs
    · intro hgov hnew
      refine (installs_policy hgov hsent hnew).2 ?_
      exact (ordered_head (P := fun x => env.parsePolicy x = env.parsePolicy v)
        (mem_of_lastOf hlast)).2 (hpolicy (htype.symm.trans hgov)) qs hqs

/-- **Own writes.** A program reads its own latest writes and leaves its last ones in the store
exactly if, wherever the first write of a key is taken, it has the value of the last. -/
theorem ownWrites_iff (env : Env) (policyType : TxnPolicyType) (ops : List (Op n)) :
    SeesOwnWrites env policyType ops ↔
      ReadsLatest policyType ops ∧ SendsLast env policyType (puts ops) := by
  constructor
  · intro h
    refine ⟨readsLatest_of_readsOwn fun c evs hevs => (h c evs hevs).1, ?_⟩
    refine installsLast_iff.1 fun s ct htype hsends => ?_
    let c : State n := ⟨policyType, [], [], [], fun _ => {}⟩
    let evs := ops.map fun op => (op, (⟨[], Timestamp.zero⟩ : Reply))
    have hevs : evs.map (·.1) = ops := by
      rw [List.map_map]
      exact List.map_id ops
    refine (h c evs hevs).2 s ct htype ?_
    rw [(tracks_run c policyType evs).writeSet, hevs]
    exact hsends
  · rintro ⟨hreads, hsends⟩ c evs rfl
    refine ⟨readsOwn_of_readsLatest hreads c, fun s ct htype hsent => ?_⟩
    rw [(tracks_run c policyType evs).writeSet] at hsent
    exact installsLast_iff.2 hsends s ct htype hsent

end

/-! ## A key that is written twice -/

def freshClient : State 1 := ⟨.none, [], [], [], fun _ => {}⟩

def emptyReply : Reply := ⟨[], Timestamp.zero⟩

theorem ownWrites_lost :
    ¬ SeesOwnWrites (n := 1) Env.sample .none [.put [1] [5] 0, .put [1] [6] 0, .get [1] 0] ∧
      ¬ SeesOwnWrites (n := 1) Env.sample .none [.put [1] [5] 0, .put [1] [6] 0] := by
  constructor
  · intro h
    have hreads := (h freshClient
      [(.put [1] [5] 0, emptyReply), (.put [1] [6] 0, emptyReply), (.get [1] 0, emptyReply)] rfl).1
    have hread := hreads [(.put [1] [5] 0, emptyReply), (.put [1] [6] 0, emptyReply)]
      (.get [1] 0, emptyReply) [] rfl [1] 0 [6] rfl rfl
    exact absurd hread (by decide)
  · intro h
    have hinst := (h freshClient
      [(.put [1] [5] 0, emptyReply), (.put [1] [6] 0, emptyReply)] rfl).2 {}
      (Mvtso.writing .none [toWrite ([1], [5]), toWrite ([1], [6])]) rfl rfl rfl [1] [6] rfl
    exact absurd (hinst.1 rfl rfl (by simp)) (by decide +kernel)

theorem ownWrites_once :
    SeesOwnWrites (n := 2) Env.sample .none
      [.put [1] [5] 0, .put [2] [6] 1, .get [1] 0, .get [2] 1] := by
  refine (ownWrites_iff Env.sample .none _).2 ⟨?_, ?_⟩
  · refine (((eachAfter_nil.snoc ?_).snoc ?_).snoc ?_).snoc ?_
    · nofun
    · nofun
    · rintro k g v ⟨⟩ hlast
      exact hlast
    · rintro k g v ⟨⟩ hlast
      exact hlast
  · refine fun k v hlast => ⟨fun _ _ => ?_, nofun⟩
    obtain heq | heq := List.mem_pair.1 (mem_of_lastOf hlast)
    · cases heq
      rfl
    · cases heq
      rfl

end Sintr.Client
