import Sintr.Cert.Signatures

/-!
# Which replicas count as members of a group

The configuration numbers the hosts of each group while it reads the file, and `IsReplicaInGroup`
compares these numbers. They start anew in every group, so they do not tell groups apart.

* `hostTable`: the loop that numbers the hosts; `replicaHost_eq` says that `Config.replicaHost` is
  what it ends with.
* `isReplicaInGroup_iff`: which numbers a group has.
-/

namespace Sintr

open List

/-! ## Numbering the hosts of a group -/

/-- The maps `hosts[g]` and `replicaHosts[g]` of a group `g`, in the order of insertion. -/
structure HostTable where
  hosts : List (Bytes × Nat) := []
  replicaHosts : List (Nat × Nat) := []

/-- One replica of the group: a host that is there already gets no number, and neither does the
replica. -/
def HostTable.add (t : HostTable) (idx : Nat) (host : Bytes) : HostTable :=
  if host ∈ t.hosts.map (·.1) then t
  else
    { hosts := t.hosts ++ [(host, t.hosts.length)]
      replicaHosts := t.replicaHosts ++ [(idx, t.hosts.length)] }

def hostTable (hosts : Nat → Bytes) (m : Nat) : HostTable :=
  (List.range m).foldl (fun t idx => t.add idx (hosts idx)) {}

namespace Config

variable (c : Config)

/-- How many hosts the first `i` replicas of the group have. -/
def distinctHosts (g i : Nat) : Nat := ((List.range i).map (c.hosts g)).dedup.length

def Fresh (g i : Nat) : Prop := c.hosts g i ∉ (List.range i).map (c.hosts g)
deriving Decidable

variable {c} {g i m k : Nat}

theorem distinctHosts_succ (c : Config) (g i : Nat) :
    c.distinctHosts g (i + 1) = c.distinctHosts g i + if c.Fresh g i then 1 else 0 := by
  unfold distinctHosts
  rw [← card_toFinset, ← card_toFinset, range_succ, map_append,
    toFinset_append, map_singleton]
  have hunion : ((range i).map (c.hosts g)).toFinset ∪ [c.hosts g i].toFinset =
      insert (c.hosts g i) ((range i).map (c.hosts g)).toFinset := by
    simp
  rw [hunion]
  by_cases hfresh : c.Fresh g i
  · rw [if_pos hfresh]
    apply Finset.card_insert_of_notMem
    rwa [mem_toFinset]
  · have hold : c.hosts g i ∈ (range i).map (c.hosts g) := not_not.1 hfresh
    rw [if_neg hfresh, Finset.insert_eq_of_mem (mem_toFinset.2 hold), Nat.add_zero]

theorem replicaHost_of_lt (hg : g < c.groups) (hi : i < c.n) :
    c.replicaHost g i = if c.Fresh g i then some (c.distinctHosts g i) else none := by
  unfold replicaHost
  by_cases hfresh : c.Fresh g i
  · rw [if_pos ⟨hg, hi, hfresh⟩, if_pos hfresh, distinctHosts]
  · rw [if_neg fun h => hfresh h.2.2, if_neg hfresh]

theorem lt_distinctHosts_iff :
    k < c.distinctHosts g m ↔ ∃ i < m, c.Fresh g i ∧ c.distinctHosts g i = k := by
  induction m with
  | zero => simp [distinctHosts]
  | succ m ih =>
    rw [distinctHosts_succ]
    constructor
    · intro hk
      by_cases hlt : k < c.distinctHosts g m
      · obtain ⟨i, hi, hfresh⟩ := ih.1 hlt
        exact ⟨i, Nat.lt_succ_of_lt hi, hfresh⟩
      · split at hk
        · rename_i hfresh
          exact ⟨m, Nat.lt_succ_self m, hfresh, by omega⟩
        · omega
    · rintro ⟨i, hi, hfresh, rfl⟩
      rcases Nat.lt_succ_iff_lt_or_eq.1 hi with hi | rfl
      · have hlt := ih.2 ⟨i, hi, hfresh, rfl⟩
        omega
      · rw [if_pos hfresh]
        omega

theorem distinctHosts_le (c : Config) (g m : Nat) : c.distinctHosts g m ≤ m := by
  induction m with
  | zero => simp [distinctHosts]
  | succ m ih =>
    rw [distinctHosts_succ]
    split <;> omega

theorem distinctHosts_eq_iff : c.distinctHosts g m = m ↔ ∀ i < m, c.Fresh g i := by
  induction m with
  | zero => simp [distinctHosts]
  | succ m ih =>
    have hle := c.distinctHosts_le g m
    rw [distinctHosts_succ]
    constructor
    · intro heq i hi
      have hfresh : c.Fresh g m := by
        by_contra hold
        rw [if_neg hold] at heq
        omega
      rw [if_pos hfresh] at heq
      rcases Nat.lt_succ_iff_lt_or_eq.1 hi with hi | rfl
      · exact ih.1 (by omega) i hi
      · exact hfresh
    · intro hall
      have heq := ih.2 fun i hi => hall i (Nat.lt_succ_of_lt hi)
      rw [if_pos (hall m (Nat.lt_succ_self m)), heq]

/-! ## The loop -/

theorem hostTable_succ (hosts : Nat → Bytes) (m : Nat) :
    hostTable hosts (m + 1) = (hostTable hosts m).add m (hosts m) := by
  rw [hostTable, range_succ, foldl_append]
  rfl

theorem hostTable_spec (c : Config) (g m : Nat) :
    (∀ h, h ∈ (hostTable (c.hosts g) m).hosts.map (·.1) ↔
      h ∈ (range m).map (c.hosts g)) ∧
    (hostTable (c.hosts g) m).hosts.length = c.distinctHosts g m ∧
    ∀ i, (hostTable (c.hosts g) m).replicaHosts.lookup i =
      if i < m ∧ c.Fresh g i then some (c.distinctHosts g i) else none := by
  induction m with
  | zero => simp [hostTable, distinctHosts]
  | succ m ih =>
    obtain ⟨hmem, hlen, hlookup⟩ := ih
    have hin : c.hosts g m ∈ (hostTable (c.hosts g) m).hosts.map (·.1) ↔ ¬ c.Fresh g m := by
      rw [hmem, Fresh, not_not]
    rw [hostTable_succ, distinctHosts_succ]
    unfold HostTable.add
    by_cases hfresh : c.Fresh g m
    · rw [if_neg (by rw [hin, not_not]; exact hfresh), if_pos hfresh]
      refine ⟨?_, by simp [hlen], ?_⟩
      · intro h
        rw [map_append, mem_append, hmem, range_succ, map_append,
          mem_append]
        simp
      · intro i
        rw [lookup_append, hlookup i, hlen]
        by_cases hi : i = m
        · subst hi
          simp [hfresh]
        · have hlt : i < m + 1 ↔ i < m := by omega
          have hne : (i == m) = false := beq_false_of_ne hi
          simp [hlt, hne, lookup_cons]
    · rw [if_pos (hin.2 hfresh), if_neg hfresh]
      refine ⟨?_, by simp [hlen], ?_⟩
      · intro h
        have hold : c.hosts g m ∈ (range m).map (c.hosts g) := not_not.1 hfresh
        rw [hmem, range_succ, map_append, mem_append]
        constructor
        · exact .inl
        · rintro (hh | hh)
          · exact hh
          · rw [map_singleton, mem_singleton] at hh
            rwa [hh]
      · intro i
        rw [hlookup i]
        by_cases hi : i = m
        · subst hi
          simp [hfresh]
        · have hlt : i < m + 1 ↔ i < m := by omega
          simp [hlt]

theorem replicaHost_eq (c : Config) (g i : Nat) :
    c.replicaHost g i =
      if g < c.groups then (hostTable (c.hosts g) c.n).replicaHosts.lookup i else none := by
  rw [(hostTable_spec c g c.n).2.2 i]
  by_cases hg : g < c.groups
  · rw [if_pos hg]
    by_cases hi : i < c.n
    · rw [replicaHost_of_lt hg hi]
      simp [hi]
    · rw [if_neg fun h => hi h.1, replicaHost, if_neg fun h => hi h.2.1]
  · rw [if_neg hg, replicaHost, if_neg fun h => hg h.1]

/-! ## Members -/

/-- The numbers of two groups tell the replica apart: it is in the group, its number is too large
for it, or it has no number and all replicas of the group have one. -/
def TellsApart (c : Config) (id : ProcessId) (g : GroupId) : Prop :=
  c.InGroup id g ∨
    if c.Fresh (id.toNat / c.n) (id.toNat % c.n) then
      c.distinctHosts g.toNat c.n ≤ c.distinctHosts (id.toNat / c.n) (id.toNat % c.n)
    else c.distinctHosts g.toNat c.n = c.n
deriving Decidable

variable {id : ProcessId}

theorem isReplicaInGroup_iff (hgroups : c.groups < 2 ^ 31) {g : GroupId}
    (hid : id.toNat < c.groups * c.n) (hg : g.toNat < c.groups) :
    c.isReplicaInGroup id g = true ↔
      if c.Fresh (id.toNat / c.n) (id.toNat % c.n) then
        c.distinctHosts (id.toNat / c.n) (id.toNat % c.n) < c.distinctHosts g.toNat c.n
      else c.distinctHosts g.toNat c.n ≠ c.n := by
  have hn : 0 < c.n := Nat.pos_of_ne_zero fun h => by simp [h] at hid
  have hown : id.toNat / c.n < c.groups := Nat.div_lt_of_lt_mul (by rwa [Nat.mul_comm])
  have hmod : id.toNat % c.n < c.n := Nat.mod_lt _ hn
  unfold isReplicaInGroup
  rw [Nat.mod_eq_of_lt (show id.toNat / c.n < 2 ^ 32 by omega),
    Nat.mod_eq_of_lt (show g.toNat < 2 ^ 32 by omega), replicaHost_of_lt hown hmod,
    any_eq_true]
  simp only [mem_range, beq_iff_eq]
  by_cases hfresh : c.Fresh (id.toNat / c.n) (id.toNat % c.n)
  · rw [if_pos hfresh, if_pos hfresh, lt_distinctHosts_iff]
    constructor
    · rintro ⟨i, hi, heq⟩
      rw [replicaHost_of_lt hg hi] at heq
      split at heq
      · rename_i hnew
        exact ⟨i, hi, hnew, (Option.some.inj heq).symm⟩
      · cases heq
    · rintro ⟨i, hi, hnew, heq⟩
      refine ⟨i, hi, ?_⟩
      rw [replicaHost_of_lt hg hi, if_pos hnew, heq]
  · rw [if_neg hfresh, if_neg hfresh, Ne, distinctHosts_eq_iff]
    constructor
    · rintro ⟨i, hi, heq⟩ hall
      rw [replicaHost_of_lt hg hi, if_pos (hall i hi)] at heq
      cases heq
    · intro hnot
      obtain ⟨i, hi, hold⟩ : ∃ i, i < c.n ∧ ¬ c.Fresh g.toNat i := by
        simpa only [not_forall, exists_prop] using hnot
      exact ⟨i, hi, by rw [replicaHost_of_lt hg hi, if_neg hold]⟩

theorem isReplicaInGroup_of_inGroup (hgroups : c.groups < 2 ^ 31) {g : GroupId}
    (hid : id.toNat < c.groups * c.n) (h : c.InGroup id g) : c.isReplicaInGroup id g = true := by
  have hn : 0 < c.n := Nat.pos_of_ne_zero fun h => by simp [h] at hid
  have hown : id.toNat / c.n < c.groups := Nat.div_lt_of_lt_mul (by rwa [Nat.mul_comm])
  have hmod : id.toNat % c.n < c.n := Nat.mod_lt _ hn
  have heq : id.toNat / c.n = g.toNat := h
  rw [isReplicaInGroup_iff hgroups hid (heq ▸ hown), heq]
  by_cases hfresh : c.Fresh g.toNat (id.toNat % c.n)
  · rw [if_pos hfresh, lt_distinctHosts_iff]
    exact ⟨_, hmod, hfresh, rfl⟩
  · rw [if_neg hfresh, Ne, distinctHosts_eq_iff]
    exact fun hall => hfresh (hall _ hmod)

theorem isReplicaInGroup_sound_iff (hgroups : c.groups < 2 ^ 31) {g : GroupId}
    (hid : id.toNat < c.groups * c.n) (hg : g.toNat < c.groups) :
    (c.isReplicaInGroup id g = true → c.InGroup id g) ↔ c.TellsApart id g := by
  rw [isReplicaInGroup_iff hgroups hid hg, TellsApart]
  by_cases hin : c.InGroup id g
  · simp [hin]
  · by_cases hfresh : c.Fresh (id.toNat / c.n) (id.toNat % c.n)
    · simp [hin, hfresh]
    · simp [hin, hfresh]

/-! ## Keys of clients

The ids of clients' keys follow those of the replicas. -/

theorem replica_of_isReplicaInGroup (hgroups : c.groups = 1) (hhosts : c.distinctHosts 0 c.n = c.n)
    (hid : id.toNat < c.n * 2 ^ 32) (h : c.isReplicaInGroup id 0 = true) : id.toNat < c.n := by
  simp only [isReplicaInGroup, any_eq_true, mem_range, beq_iff_eq] at h
  obtain ⟨i, hi, heq⟩ := h
  have hfresh : c.Fresh 0 i := distinctHosts_eq_iff.1 hhosts i hi
  rw [show (0 : GroupId).toNat % 2 ^ 32 = 0 from rfl, replicaHost_of_lt (by omega) hi,
    if_pos hfresh, replicaHost] at heq
  have hgroup : id.toNat / c.n % 2 ^ 32 < c.groups := by
    by_contra hnot
    rw [if_neg fun h => hnot h.1] at heq
    cases heq
  rw [hgroups, Nat.mod_eq_of_lt (Nat.div_lt_of_lt_mul hid)] at hgroup
  exact (Nat.div_eq_zero_iff_lt (by omega)).1 (Nat.lt_one_iff.1 hgroup)

end Config

/-! ## Validators -/

/-- No validator that asks `IsReplicaInGroup` counts the replica for a group that it is not in. -/
structure CountsMembers (env : Env) (id : ProcessId) (g : GroupId) : Prop where
  p1 : ∀ decision d me s, s.processId = id →
    (p1Ballot env decision d me g s).admitted = true → env.config.InGroup id g
  p2 : ∀ decision view d me s, s.processId = id →
    (p2Ballot env (env.config.isReplicaInGroup s.processId g) decision view d g me s).admitted =
      true → env.config.InGroup id g
  fbP2 : ∀ decision d me r s, s.processId = id →
    (fbP2Ballot env decision d g me r s).admitted = true → env.config.InGroup id g
  view : ∀ proposed catchup d myView v, v.signature.processId = id →
    (viewBallot env proposed catchup g d myView v).admitted = true → env.config.InGroup id g
  elect : ∀ decision view d me s, s.processId = id →
    (electBallot env decision view d g me s).admitted = true → env.config.InGroup id g

theorem countsMembers_of_sound {env : Env} {id : ProcessId} {g : GroupId}
    (h : env.config.isReplicaInGroup id g = true → env.config.InGroup id g) :
    CountsMembers env id g := by
  constructor
  case p1 =>
    intro decision d me s hs hadm
    simp only [p1Ballot, Bool.and_eq_true, hs] at hadm
    exact h hadm.1
  case p2 =>
    intro decision view d me s hs hadm
    exact h (hs ▸ hadm)
  case fbP2 =>
    intro decision d me r s hs hadm
    simp only [fbP2Ballot, Bool.and_eq_true, hs] at hadm
    exact h hadm.2
  case view =>
    intro proposed catchup d myView v hv hadm
    simp only [viewBallot, Bool.and_eq_true, hv] at hadm
    exact h hadm.1.1
  case elect =>
    intro decision view d me s hs hadm
    exact h (hs ▸ hadm)

/-- **Membership.** `IsReplicaInGroup` is right about a replica and a group, and validators count
the replica only if it is a member, exactly if the host numbers tell them apart. -/
theorem membership_iff (env : Env) (hgroups : env.config.groups < 2 ^ 31) (id : ProcessId)
    (g : GroupId) (hid : id.toNat < env.config.groups * env.config.n)
    (hg : g.toNat < env.config.groups) :
    ((env.config.isReplicaInGroup id g = true ↔ env.config.InGroup id g) ∧
      CountsMembers env id g) ↔ env.config.TellsApart id g := by
  rw [← Config.isReplicaInGroup_sound_iff hgroups hid hg]
  constructor
  · exact fun h => h.1.1
  · intro h
    exact ⟨⟨h, Config.isReplicaInGroup_of_inGroup hgroups hid⟩, countsMembers_of_sound h⟩

def twoGroups : Env :=
  { Env.sample with
    config := { groups := 2, n := 2, f := 0, hosts := fun g i => [UInt8.ofNat g, UInt8.ofNat i] } }

/-- Replica 0 passes as a member of group 1, and the votes of the replicas of group 0 commit a
transaction of group 1. -/
theorem membership_confused :
    twoGroups.config.isReplicaInGroup 0 1 = true ∧ ¬ twoGroups.config.InGroup 0 1 ∧
    validateP1Replies twoGroups .commit true
      { clientId := 1, clientSeqNum := 1, involvedGroups := [1] } [] [(1, [⟨0, [0]⟩, ⟨1, [1]⟩])]
      none = true := by
  decide +kernel

theorem membership_iff_sharedHost :
    let env : Env := { Env.sample with
      config := { groups := 2, n := 2, f := 0
                  hosts := fun g i => [UInt8.ofNat (g * 2 + i / (g + 1))] } }
    (env.config.isReplicaInGroup 1 1 = true ↔ env.config.InGroup 1 1) ∧ CountsMembers env 1 1 := by
  intro env
  exact (membership_iff env (by decide) 1 1 (by decide) (by decide)).2 (by decide)

end Sintr
