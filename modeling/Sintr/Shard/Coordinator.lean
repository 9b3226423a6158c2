import Sintr.Lib.Machine
import Sintr.Lib.Updates
import Sintr.Shard.Phase1

/-!
# Phase1 certificates of a client

A client that wants to finish a transaction, its own or in a fallback someone else's, asks the
shard clients of all involved groups for votes. When each group has decided, or one is for ABORT,
it sends a certificate made of their signatures: in a `Writeback` if the decision is fast, and else
in a `Phase2` to the logging group.
-/

namespace Sintr.Shard

open List Option Function

/-! ## Requests -/

/-- A transaction that the client wants to finish. -/
structure Request where
  txn : Transaction
  txnDigest : Digest
  fallback : Bool
  outstandingPhase1s : Int := txn.involvedGroups.length
  decision : CommitDecision := .commit
  fast : Bool := true
  conflict : Option CommittedProof := none
  startedPhase2 : Bool := false
  startedWriteback : Bool := false
  p1ReplySigsGrouped : GroupedSignatures := []
  slowAbortGroup : Option GroupId := none
  /-- The constructor leaves it uninitialized. -/
  fastAbortGroup : Option GroupId
  p2Replies : Nat := 0

structure P1Certificate where
  decision : CommitDecision
  fast : Bool
  sigs : GroupedSignatures

namespace Request

/-- The signatures of a group; an assertion fails if there are none. -/
def putSigs (g : GroupId) (sigs : List Signature) (req : Request) : Option Request :=
  if sigs = [] then none
  else some { req with
    p1ReplySigsGrouped := req.p1ReplySigsGrouped.filter (·.1 ≠ g) ++ [(g, sigs)] }

/-- The part of `Phase1CallbackProcessing` that keeps the evidence. -/
def keepEvidence (g : GroupId) (dec : GroupDecision) (req : Request) : Option Request :=
  match dec.decision, dec.fast, dec.conflict with
  | .abort, true, some conflict => some { req with conflict := some conflict }
  | .abort, true, none => { req with fastAbortGroup := some g }.putSigs g (dec.sigs .abstain)
  | .abort, false, _ => { req with slowAbortGroup := some g }.putSigs g (dec.sigs .abstain)
  | .commit, _, _ => req.putSigs g (dec.sigs .commit)

/-- `Phase1CallbackProcessing`; `none` if an assertion fails. -/
def phase1CallbackProcessing (g : GroupId) (dec : GroupDecision) (req : Request) :
    Option Request := do
  let req ← req.keepEvidence g dec
  let req := { req with
    fast := if dec.fast ∧ dec.decision = CommitDecision.abort then true
      else req.fast && dec.fast }
  match dec.decision with
  | .commit => some { req with outstandingPhase1s := req.outstandingPhase1s - 1 }
  | .abort => some { req with decision := .abort, outstandingPhase1s := 0 }

end Request

def keepGroup (gs : GroupedSignatures) : Option GroupId → Option GroupedSignatures
  | none => none
  | some g => if g ∈ gs.map (·.1) then some (gs.filter (·.1 = g)) else none

/-- Not more than `q` signatures of each group. -/
def trim (q : Nat) (gs : GroupedSignatures) : GroupedSignatures :=
  gs.map fun e => (e.1, e.2.take q)

section
variable (env : Env)

def Request.phase2Sigs (req : Request) : Option GroupedSignatures :=
  (if req.decision = .abort then keepGroup req.p1ReplySigsGrouped req.slowAbortGroup
    else some req.p1ReplySigsGrouped).map (trim (p1QuorumSize env req.decision false))

def Request.phase2Processing (req : Request) : Option Request :=
  (req.phase2Sigs env).map fun gs => { req with p1ReplySigsGrouped := gs, startedPhase2 := true }

def Request.writebackSigs (req : Request) : Option GroupedSignatures :=
  if req.decision = .abort ∧ req.fast ∧ req.conflict = none then
    (keepGroup req.p1ReplySigsGrouped req.fastAbortGroup).map (trim (p1QuorumSize env .abort true))
  else some req.p1ReplySigsGrouped

end

/-! ## The client -/

/-- A request, the votes of its groups, and the certificates sent. -/
structure Coordinator where
  req : Request
  pending : GroupId → Option PendingPhase1
  sent : List P1Certificate := []
  panicked : Bool := false

namespace Coordinator

def start (txn : Transaction) (d : Digest) (fallback : Bool) (junk : Option GroupId) :
    Coordinator where
  req := { txn, txnDigest := d, fallback, fastAbortGroup := junk }
  pending g := if g ∈ txn.involvedGroups then some { txn, txnDigest := d } else none

section
variable (S : ShardEnv) (s : Coordinator)

/-- `StopP1FB` for all groups; in a request of its own the client leaves the shard clients alone. -/
def stopP1 : GroupId → Option PendingPhase1 := if s.req.fallback then fun _ => none else s.pending

/-- `Phase2` or `Phase2FB`; a fallback sends Phase2 replies instead, if it has enough of them. -/
def phase2 : Coordinator :=
  if s.req.fallback ∧ S.env.config.f + 1 ≤ s.req.p2Replies then
    { s with req := { s.req with startedPhase2 := true }, pending := s.stopP1 }
  else
    match s.req.phase2Processing S.env with
    | none => { s with panicked := true }
    | some req =>
      { s with
        req
        pending := s.stopP1
        sent := s.sent ++ [⟨req.decision, false, req.p1ReplySigsGrouped⟩] }

def writeback : Coordinator :=
  match s.req.writebackSigs S.env with
  | none => { s with panicked := true }
  | some gs =>
    if s.req.fast ∧ (s.req.decision = .commit ∨ s.req.conflict = none) then
      { s with
        req := { s.req with startedWriteback := true, p1ReplySigsGrouped := [] }
        pending := s.stopP1
        sent := s.sent ++ [⟨s.req.decision, true, gs⟩] }
    else
      { s with
        req := { s.req with startedWriteback := true, p1ReplySigsGrouped := gs }
        pending := s.stopP1 }

def handleAllPhase1Received : Coordinator := if s.req.fast then writeback S s else phase2 S s

/-- `Phase1Callback` or `Phase1FBcallbackA`; `active` if the request is still there. -/
def phase1Callback (g : GroupId) (dec : GroupDecision) (active : Bool) : Coordinator :=
  if !active || s.req.startedPhase2 || s.req.startedWriteback then s
  else
    match s.req.phase1CallbackProcessing g dec with
    | none => { s with panicked := true }
    | some req =>
      if req.outstandingPhase1s = 0 then handleAllPhase1Received S { s with req }
      else { s with req }

/-- What a shard client does; after a decision it waits no more. -/
def settle (g : GroupId) (active : Bool) : Outcome → Coordinator
  | .waits p => { s with pending := Function.update s.pending g (some p) }
  | .decides dec =>
    phase1Callback S { s with pending := Function.update s.pending g none } g dec active
  | .stops => { s with panicked := true }

/-- `Phase2Callback` or `Phase2FBcallback`. The former only comes after `Phase2`. -/
def phase2Callback (decision : CommitDecision) (active : Bool) : Coordinator :=
  if !active || s.req.startedWriteback then s
  else if s.req.fallback then
    writeback S { s with req := { s.req with decision, fast := false } }
  else if s.req.startedPhase2 then writeback S { s with req := { s.req with decision } }
  else s

/-- `Phase1FBcallbackB`: the decision of the Phase2 replies is taken over, and nothing is done. -/
def phase1FBcallbackB (decision : CommitDecision) (p2Replies : Nat) (active : Bool) :
    Coordinator :=
  if !active || s.req.startedPhase2 || s.req.startedWriteback then s
  else { s with req := { s.req with decision, p2Replies } }

/-- The end of `ProcessP2FBR`: with Phase2 replies of `f + 1` replicas the group's votes are no
longer waited for. -/
def processP2FBR (g : GroupId) (decision : CommitDecision) (p2Replies : Nat) (active : Bool) :
    Coordinator :=
  if !s.req.fallback || (s.pending g).isNone then s
  else
    { s with pending := Function.update s.pending g none }.phase1FBcallbackB decision p2Replies
      active

end

end Coordinator

def ShardEnv.forGroup (S : ShardEnv) (g : GroupId) : ShardEnv := { S with group := g }

inductive CoordinatorEvent where
  | reply (g : GroupId) (r : Phase1Reply) (active : Bool)
  | decisionTimer (g : GroupId) (active : Bool)
  /-- The votes of the group are not waited for any longer, as too few have come or as a fallback
  leader is to be elected. -/
  | requestTimeout (g : GroupId)
  | phase2Callback (decision : CommitDecision) (active : Bool)
  | phase2Timeout
  | phase1FBcallbackB (g : GroupId) (decision : CommitDecision) (p2Replies : Nat) (active : Bool)
  | forwardedWriteback

section
variable (S : ShardEnv) (phase1DecisionTimeout : Nat)

def coordinatorStep (s : Coordinator) : CoordinatorEvent → Coordinator
  | .reply g r active =>
    match s.pending g with
    | none => s
    | some p => s.settle S g active (processP1R (S.forGroup g) phase1DecisionTimeout r p)
  | .decisionTimer g active =>
    match s.pending g with
    | none => s
    | some p => s.settle S g active (decisionTimer p)
  | .requestTimeout g => { s with pending := Function.update s.pending g none }
  | .phase2Callback decision active => s.phase2Callback S decision active
  | .phase2Timeout =>
    if !s.req.fallback && s.req.startedPhase2 && !s.req.startedWriteback then s.phase2 S else s
  | .phase1FBcallbackB g decision p2Replies active => s.processP2FBR g decision p2Replies active
  | .forwardedWriteback =>
    if s.req.fallback then
      { s with req := { s.req with startedWriteback := true }, pending := fun _ => none }
    else s

def coordinator : Machine Coordinator CoordinatorEvent where
  step s e := if s.panicked then s else coordinatorStep S phase1DecisionTimeout s e

/-! ## What is to be shown -/

/-- A validator that has voted itself remembers the vote that is in the certificate. -/
def P1Certificate.Agrees (c : P1Certificate) (me : Option (ProcessId × CCResult)) : Prop :=
  ∀ m, me = some m → ∀ e ∈ c.sigs, ∀ sig ∈ e.2, sig.processId = m.1 → m.2 = votedResult c.decision

structure P1Certificate.Accepted (txn : Transaction) (d : Digest) (c : P1Certificate) : Prop where
  groups : ∀ e ∈ c.sigs, e.1 ∈ txn.involvedGroups
  valid : ∀ me, c.Agrees me → validateP1Replies S.env c.decision c.fast txn d c.sigs me = true

/-- A vote is about the transaction and the group that it is counted for. -/
def Proper (s : Coordinator) : CoordinatorEvent → Prop
  | .reply g r _ => AboutVote (S.forGroup g) s.req.txnDigest r
  | _ => True

/-! ## Invariant -/

structure CommitSigs (txn : Transaction) (d : Digest) (e : GroupId × List Signature) : Prop where
  group : e.1 ∈ txn.involvedGroups
  nodup : (e.2.map (·.processId)).Nodup
  good : ∀ sig ∈ e.2, GoodVote (S.forGroup e.1) d true sig
  enough : e.2.length = S.env.config.n ∨ 3 * S.env.config.f + 1 ≤ e.2.length
  le : e.2.length ≤ S.env.config.n

/-- As long as nothing has been sent, all groups that have decided are for COMMIT, and the others
are waited for. -/
structure Collecting (txn : Transaction) (d : Digest) (req : Request) : Prop where
  sigs : ∀ e ∈ req.p1ReplySigsGrouped, CommitSigs S txn d e
  fast : req.fast = true → ∀ e ∈ req.p1ReplySigsGrouped, e.2.length = S.env.config.n
  slow : req.fast = false → 3 * S.env.config.f + 1 ≤ S.env.config.n
  waiting : ((txn.involvedGroups.filter (· ∉ req.p1ReplySigsGrouped.map (·.1))).length : Int) ≤
    req.outstandingPhase1s

/-- What was sent in `Phase2` would be sent again. -/
structure Logging (txn : Transaction) (d : Digest) (req : Request) : Prop where
  fast : req.fast = false
  again : req.fallback = false → req.phase2Processing S.env = some req
  accepted : req.fallback = false →
    P1Certificate.Accepted S txn d ⟨req.decision, false, req.p1ReplySigsGrouped⟩

structure CoordinatorBase (txn : Transaction) (d : Digest) (s : Coordinator) : Prop where
  digest : s.req.txnDigest = d
  pending : ∀ g p, s.pending g = some p → p.Inv (S.forGroup g) txn d ∧ g ∈ txn.involvedGroups
  sent : ∀ c ∈ s.sent, c.Accepted S txn d

structure CoordinatorInv (txn : Transaction) (d : Digest) (s : Coordinator) : Prop
    extends CoordinatorBase S txn d s where
  unheard : ∀ g p, s.pending g = some p → s.req.startedPhase2 = false →
    s.req.startedWriteback = false → g ∉ s.req.p1ReplySigsGrouped.map (·.1)
  collecting : s.req.startedPhase2 = false → s.req.startedWriteback = false →
    Collecting S txn d s.req
  -- a fallback that has taken over an ABORT lacks the votes of a group, and will not get them
  decided : s.req.startedPhase2 = false → s.req.startedWriteback = false →
    s.req.decision = .commit ∨ ∃ g ∈ txn.involvedGroups, s.pending g = none ∧
      g ∉ s.req.p1ReplySigsGrouped.map (·.1)
  logging : s.req.startedPhase2 = true → s.req.startedWriteback = false → Logging S txn d s.req

structure CoordinatorOk (txn : Transaction) (d : Digest) (s : Coordinator) : Prop where
  sent : ∀ c ∈ s.sent, c.Accepted S txn d
  inv : s.panicked = false → CoordinatorInv S txn d s

end

variable {S : ShardEnv} {txn : Transaction} {d : Digest} {s : Coordinator} {req : Request}
  {dec : GroupDecision} {gs kept : GroupedSignatures} {req' : Request}

/-! ## Certificates -/

theorem accepted_of_good {c : P1Certificate} (hgroups : ∀ e ∈ c.sigs, e.1 ∈ txn.involvedGroups)
    (hlen : ∀ e ∈ c.sigs, e.2.length = p1QuorumSize S.env c.decision c.fast)
    (hnodup : ∀ e ∈ c.sigs, (e.2.map (·.processId)).Nodup)
    (hgood : ∀ e ∈ c.sigs, ∀ sig ∈ e.2,
      GoodVote (S.forGroup e.1) d (c.decision == .commit) sig)
    (hall : c.decision = .commit → ∀ g ∈ txn.involvedGroups, g ∈ c.sigs.map (·.1)) :
    c.Accepted S txn d := by
  refine ⟨hgroups, fun me hme => ?_⟩
  rw [validateP1Replies_iff]
  refine ⟨fun e he => ⟨hlen e he, hnodup e he, fun sig hsig => ?_⟩, fun hdec g hg => ?_⟩
  · obtain ⟨hin, hver⟩ := hgood e he sig hsig
    constructor
    · -- the validator does not refuse a vote in its own name
      show (S.env.config.isReplicaInGroup sig.processId e.1 && !me.any _) = true
      rw [show S.env.config.isReplicaInGroup sig.processId e.1 = true from hin, Bool.true_and,
        Bool.not_eq_true', ← Bool.not_eq_true, Option.any_eq_true]
      rintro ⟨m, hm, hrefused⟩
      rw [Bool.and_eq_true, beq_iff_eq, bne_iff_ne] at hrefused
      exact hrefused.2 (hme m hm e he sig hsig hrefused.1.symm)
    · rw [Quorum.Ballot.ok, Bool.or_eq_true]
      exact .inr hver
  · obtain ⟨e, he, rfl⟩ := mem_map.1 (hall hdec g hg)
    exact ⟨e, he, rfl⟩

theorem Collecting.accepted_slow (h : Collecting S txn d req) (hslow : req.fast = false)
    (hall : ∀ g ∈ txn.involvedGroups, g ∈ req.p1ReplySigsGrouped.map (·.1)) :
    P1Certificate.Accepted S txn d
      ⟨.commit, false, trim (p1QuorumSize S.env .commit false) req.p1ReplySigsGrouped⟩ := by
  have hn := h.slow hslow
  apply accepted_of_good
  all_goals simp only [trim, List.forall_mem_map, List.map_map]
  · exact fun e he => (h.sigs e he).group
  · intro e he
    have := (h.sigs e he).enough
    rw [length_take]
    show min (3 * S.env.config.f + 1) e.2.length = 3 * S.env.config.f + 1
    omega
  · exact fun e he => ((h.sigs e he).nodup).sublist ((take_sublist _ _).map _)
  · exact fun e he sig hsig => (h.sigs e he).good sig (mem_of_mem_take hsig)
  · exact fun _ => hall

theorem Collecting.accepted_fast (h : Collecting S txn d req) (hfast : req.fast = true)
    (hall : ∀ g ∈ txn.involvedGroups, g ∈ req.p1ReplySigsGrouped.map (·.1)) :
    P1Certificate.Accepted S txn d ⟨.commit, true, req.p1ReplySigsGrouped⟩ :=
  accepted_of_good (fun e he => (h.sigs e he).group) (h.fast hfast)
    (fun e he => (h.sigs e he).nodup) (fun e he => (h.sigs e he).good) fun _ => hall

theorem accepted_abort {g : GroupId} (hg : g ∈ txn.involvedGroups) (hdec : dec.decision = .abort)
    (hconf : dec.conflict = none) (h : Supports (S.forGroup g) d dec) :
    P1Certificate.Accepted S txn d
      ⟨.abort, dec.fast, trim (p1QuorumSize S.env .abort dec.fast) [(g, dec.sigs .abstain)]⟩ := by
  unfold Supports at h
  rw [hconf, hdec] at h
  obtain ⟨hnodup, hgood, hlen, -⟩ := h
  apply accepted_of_good
  all_goals simp only [trim, map_singleton, forall_mem_singleton]
  · exact hg
  · rw [length_take]
    exact min_eq_left hlen
  · exact hnodup.sublist ((take_sublist _ _).map _)
  · exact fun sig hsig => hgood sig (mem_of_mem_take hsig)
  · exact nofun

/-! ## Phase2 and Writeback -/

theorem trim_trim (q : Nat) (gs : GroupedSignatures) : trim q (trim q gs) = trim q gs := by
  simp [trim, take_take]

theorem keepGroup_some {g : GroupId} (h : keepGroup gs (some g) = some kept) :
    g ∈ gs.map (·.1) ∧ kept = gs.filter (·.1 = g) := by
  simp only [keepGroup, ite_none_right_eq_some, some.injEq] at h
  exact ⟨h.1, h.2.symm⟩

theorem keepGroup_trim {q : Nat} {g : Option GroupId} (h : keepGroup gs g = some kept) :
    keepGroup (trim q kept) g = some (trim q kept) := by
  cases g with
  | none => cases h
  | some g =>
    obtain ⟨hmem, rfl⟩ := keepGroup_some h
    have hall : ∀ e ∈ trim q (gs.filter (·.1 = g)), e.1 = g := by
      rw [trim, List.forall_mem_map]
      intro e he
      simpa using (mem_filter.1 he).2
    have hkey : g ∈ (trim q (gs.filter (·.1 = g))).map (·.1) := by
      obtain ⟨e, he, rfl⟩ := mem_map.1 hmem
      rw [trim, List.map_map]
      exact mem_map.2 ⟨e, mem_filter.2 ⟨he, by simp⟩, rfl⟩
    show (if g ∈ (trim q (gs.filter (·.1 = g))).map (·.1) then _ else _) = _
    rw [if_pos hkey, filter_eq_self.2 fun e he => by simpa using hall e he]

theorem Request.phase2Processing_again (h : req.phase2Processing S.env = some req') :
    req'.phase2Processing S.env = some req' ∧ req'.fast = req.fast ∧
      req'.txnDigest = req.txnDigest ∧ req'.startedPhase2 = true := by
  obtain ⟨gs, hgs, rfl⟩ := map_eq_some_iff.1 h
  refine ⟨?_, rfl, rfl, rfl⟩
  obtain ⟨kept, hkept, rfl⟩ := map_eq_some_iff.1 hgs
  have hagain : ({ req with
      p1ReplySigsGrouped := trim (p1QuorumSize S.env req.decision false) kept
      startedPhase2 := true } : Request).phase2Sigs S.env =
        some (trim (p1QuorumSize S.env req.decision false) kept) := by
    unfold Request.phase2Sigs
    dsimp only
    split_ifs at hkept ⊢ with hdec
    · rw [keepGroup_trim hkept, map_some, trim_trim]
    · rw [map_some, trim_trim]
  rw [Request.phase2Processing, hagain]
  rfl

theorem CoordinatorInv.ok (h : CoordinatorInv S txn d s) : CoordinatorOk S txn d s :=
  ⟨h.sent, fun _ => h⟩

namespace CoordinatorBase

variable (h : CoordinatorBase S txn d s)
include h

theorem panic :
    CoordinatorOk S txn d { s with panicked := true } :=
  ⟨h.sent, fun hrun => by cases hrun⟩

theorem written (hwb : s.req.startedWriteback = true) :
    CoordinatorInv S txn d s :=
  { h with
    unheard := by simp [hwb]
    collecting := by simp [hwb]
    decided := by simp [hwb]
    logging := by simp [hwb] }

theorem logged (hp2 : s.req.startedPhase2 = true)
    (hlog : Logging S txn d s.req) : CoordinatorInv S txn d s :=
  { h with
    unheard := by simp [hp2]
    collecting := by simp [hp2]
    decided := by simp [hp2]
    logging := fun _ _ => hlog }

theorem stopP1 : ∀ g p, s.stopP1 g = some p →
    p.Inv (S.forGroup g) txn d ∧ g ∈ txn.involvedGroups := by
  intro g p hp
  unfold Coordinator.stopP1 at hp
  by_cases hfb : s.req.fallback = true
  · rw [if_pos hfb] at hp
    cases hp
  · rw [if_neg hfb] at hp
    exact h.pending g p hp

theorem phase2 (hfast : s.req.fast = false)
    (hproc : ∀ req', s.req.phase2Processing S.env = some req' →
      P1Certificate.Accepted S txn d ⟨req'.decision, false, req'.p1ReplySigsGrouped⟩) :
    CoordinatorOk S txn d (s.phase2 S) := by
  unfold Coordinator.phase2
  split_ifs with hp2
  · refine CoordinatorInv.ok (logged ⟨h.digest, h.stopP1, h.sent⟩ rfl ⟨hfast, ?_, ?_⟩)
    all_goals simp [hp2.1]
  · split
    · exact h.panic
    · rename_i req' hreq
      obtain ⟨hagain, hfast', hdig, hstarted⟩ := Request.phase2Processing_again hreq
      have hacc := hproc req' hreq
      refine CoordinatorInv.ok (logged ⟨hdig.trans h.digest, h.stopP1, ?_⟩ hstarted
        ⟨hfast'.trans hfast, fun _ => hagain, fun _ => hacc⟩)
      exact forall_mem_append.2 ⟨h.sent, forall_mem_singleton.2 hacc⟩

theorem writeback
    (hsigs : ∀ gs, s.req.writebackSigs S.env = some gs → s.req.fast = true →
      s.req.decision = .commit ∨ s.req.conflict = none →
      P1Certificate.Accepted S txn d ⟨s.req.decision, true, gs⟩) :
    CoordinatorOk S txn d (s.writeback S) := by
  unfold Coordinator.writeback
  split
  · exact h.panic
  · rename_i gs hgs
    split_ifs with hcert
    · refine CoordinatorInv.ok (written ⟨h.digest, h.stopP1, ?_⟩ rfl)
      exact forall_mem_append.2
        ⟨h.sent, forall_mem_singleton.2 (hsigs gs hgs hcert.1 hcert.2)⟩
    · exact CoordinatorInv.ok (written ⟨h.digest, h.stopP1, h.sent⟩ rfl)

end CoordinatorBase

/-! ## The callback of a group -/

variable {g : GroupId}

theorem length_filter_lt {l : List GroupId} {keys : List GroupId} (hg : g ∈ l) (hnew : g ∉ keys) :
    (l.filter (· ∉ keys ++ [g])).length < (l.filter (· ∉ keys)).length := by
  have hsplit : l.filter (· ∉ keys ++ [g]) = (l.filter (· ∉ keys)).filter (· ≠ g) := by
    rw [List.filter_filter]
    apply filter_congr
    intro x _
    simp [and_comm]
  rw [hsplit, length_filter_lt_length_iff_exists]
  exact ⟨g, mem_filter.2 ⟨hg, by simpa using hnew⟩, by simp⟩

theorem filter_of_unheard {gs : GroupedSignatures} (hnew : g ∉ gs.map (·.1)) :
    gs.filter (·.1 ≠ g) = gs := by
  rw [filter_eq_self]
  intro e he
  simp only [ne_eq, decide_eq_true_eq]
  rintro rfl
  exact hnew (mem_map_of_mem he)

theorem phase1CallbackProcessing_cases (hnew : g ∉ req.p1ReplySigsGrouped.map (·.1))
    (hsup : Supports (S.forGroup g) d dec) (h : req.phase1CallbackProcessing g dec = some req') :
    dec.decision = .commit ∧ dec.conflict = none ∧ req' = { req with
      p1ReplySigsGrouped := req.p1ReplySigsGrouped ++ [(g, dec.sigs .commit)]
      fast := req.fast && dec.fast
      outstandingPhase1s := req.outstandingPhase1s - 1 } ∨
    dec.decision = .abort ∧ req'.decision = .abort ∧ req'.outstandingPhase1s = 0 ∧
      req'.txnDigest = req.txnDigest ∧ (req'.fast = true ∧ req'.conflict.isSome = true ∨
        dec.conflict = none ∧
          req'.p1ReplySigsGrouped = req.p1ReplySigsGrouped ++ [(g, dec.sigs .abstain)] ∧
          (dec.fast = true ∧ req'.fast = true ∧ req'.fastAbortGroup = some g ∨
            dec.fast = false ∧ req'.fast = false ∧ req'.slowAbortGroup = some g)) := by
  obtain ⟨req₁, hkeep, hreq'⟩ := bind_eq_some_iff.1 h
  obtain ⟨decision, fast, conflict, sigs⟩ := dec
  unfold Supports at hsup
  cases decision with
  | commit =>
    cases conflict with
    | some _ => cases hsup.1
    | none =>
      simp only [Request.keepEvidence, Request.putSigs, ite_none_left_eq_some,
        some.injEq] at hkeep
      obtain ⟨-, rfl⟩ := hkeep
      cases hreq'
      refine .inl ⟨rfl, rfl, ?_⟩
      simp only [filter_of_unheard hnew, reduceCtorEq, and_false, if_false]
  | abort =>
    right
    cases conflict with
    | some conflict =>
      obtain rfl : fast = true := hsup.2
      cases hkeep
      cases hreq'
      exact ⟨rfl, rfl, rfl, rfl, .inl ⟨rfl, rfl⟩⟩
    | none =>
      cases fast with
      | true =>
        simp only [Request.keepEvidence, Request.putSigs, ite_none_left_eq_some,
          some.injEq] at hkeep
        obtain ⟨-, rfl⟩ := hkeep
        cases hreq'
        exact ⟨rfl, rfl, rfl, rfl,
          .inr ⟨rfl, by rw [filter_of_unheard hnew], .inl ⟨rfl, rfl, rfl⟩⟩⟩
      | false =>
        simp only [Request.keepEvidence, Request.putSigs, ite_none_left_eq_some,
          some.injEq] at hkeep
        obtain ⟨-, rfl⟩ := hkeep
        cases hreq'
        refine ⟨rfl, rfl, rfl, rfl, .inr ⟨rfl, ?_, .inr ⟨rfl, ?_, rfl⟩⟩⟩
        · rw [filter_of_unheard hnew]
        · simp

theorem Collecting.commit (h : Collecting S txn d req) (hg : g ∈ txn.involvedGroups)
    (hnew : g ∉ req.p1ReplySigsGrouped.map (·.1)) (hdec : dec.decision = .commit)
    (hconf : dec.conflict = none) (hsup : Supports (S.forGroup g) d dec) :
    Collecting S txn d { req with
      p1ReplySigsGrouped := req.p1ReplySigsGrouped ++ [(g, dec.sigs .commit)]
      fast := req.fast && dec.fast
      outstandingPhase1s := req.outstandingPhase1s - 1 } := by
  unfold Supports at hsup
  rw [hconf, hdec] at hsup
  obtain ⟨hnodup, hgood, hlen, hle⟩ := hsup
  have hle : (dec.sigs .commit).length ≤ S.env.config.n := hle rfl
  have hlen : p1QuorumSize S.env .commit dec.fast ≤ (dec.sigs .commit).length := hlen
  -- all replicas of the group, or enough for a slow decision
  have hfast : dec.fast = true → (dec.sigs .commit).length = S.env.config.n := by
    intro hf
    rw [hf] at hlen
    exact le_antisymm hle hlen
  have hslow : dec.fast = false → 3 * S.env.config.f + 1 ≤ (dec.sigs .commit).length := by
    intro hf
    rw [hf] at hlen
    exact hlen
  constructor
  · show ∀ e ∈ req.p1ReplySigsGrouped ++ [_], _
    rw [forall_mem_append, forall_mem_singleton]
    refine ⟨h.sigs, hg, hnodup, hgood, ?_, hle⟩
    cases hf : dec.fast with
    | true => exact .inl (hfast hf)
    | false => exact .inr (hslow hf)
  · intro hf
    obtain ⟨hreq, hdecf⟩ := Bool.and_eq_true_iff.1 hf
    show ∀ e ∈ req.p1ReplySigsGrouped ++ [_], _
    rw [forall_mem_append, forall_mem_singleton]
    exact ⟨h.fast hreq, hfast hdecf⟩
  · intro hf
    rcases Bool.and_eq_false_iff.1 hf with hreq | hdecf
    · exact h.slow hreq
    · exact (hslow hdecf).trans hle
  · have hlt := length_filter_lt hg hnew
    have hwait := h.waiting
    show ((txn.involvedGroups.filter
      (· ∉ (req.p1ReplySigsGrouped ++ [(g, dec.sigs .commit)]).map (·.1))).length : Int) ≤
        req.outstandingPhase1s - 1
    rw [map_append, map_singleton]
    dsimp only
    omega

theorem Collecting.all_heard (h : Collecting S txn d req) (hzero : req.outstandingPhase1s = 0) :
    ∀ g ∈ txn.involvedGroups, g ∈ req.p1ReplySigsGrouped.map (·.1) := by
  have hwait := h.waiting
  rw [hzero] at hwait
  have hnil := eq_nil_of_length_eq_zero (by omega :
    (txn.involvedGroups.filter (· ∉ req.p1ReplySigsGrouped.map (·.1))).length = 0)
  rw [filter_eq_nil_iff] at hnil
  intro g hg
  simpa using hnil g hg

/-! ## Steps keep the invariant -/

namespace CoordinatorInv

theorem allReceived (h : CoordinatorInv S txn d s) (hp2 : s.req.startedPhase2 = false)
    (hwb : s.req.startedWriteback = false) (hzero : s.req.outstandingPhase1s = 0) :
    CoordinatorOk S txn d (s.handleAllPhase1Received S) := by
  have hcoll := h.collecting hp2 hwb
  have hall := hcoll.all_heard hzero
  have hdec : s.req.decision = .commit :=
    (h.decided hp2 hwb).resolve_right fun ⟨g, hg, _, hnew⟩ => hnew (hall g hg)
  unfold Coordinator.handleAllPhase1Received
  split_ifs with hfast
  · apply h.toCoordinatorBase.writeback
    intro gs hgs _ _
    rw [Request.writebackSigs, hdec] at hgs
    cases hgs
    rw [hdec]
    exact hcoll.accepted_fast hfast hall
  · have hslow : s.req.fast = false := by simpa using hfast
    apply h.toCoordinatorBase.phase2 hslow
    intro req' hreq'
    rw [Request.phase2Processing, Request.phase2Sigs, hdec] at hreq'
    cases hreq'
    exact hcoll.accepted_slow hslow hall

end CoordinatorInv

theorem CoordinatorBase.aborted (h : CoordinatorBase S txn d s) {g : GroupId}
    (hg : g ∈ txn.involvedGroups) (hsup : Supports (S.forGroup g) d dec)
    {gs : GroupedSignatures} (hnew : g ∉ gs.map (·.1))
    (hdec : dec.decision = .abort) (hreq : s.req.decision = .abort)
    (hev : s.req.fast = true ∧ s.req.conflict.isSome = true ∨
      dec.conflict = none ∧ s.req.p1ReplySigsGrouped = gs ++ [(g, dec.sigs .abstain)] ∧
        (dec.fast = true ∧ s.req.fast = true ∧ s.req.fastAbortGroup = some g ∨
          dec.fast = false ∧ s.req.fast = false ∧ s.req.slowAbortGroup = some g)) :
    CoordinatorOk S txn d (s.handleAllPhase1Received S) := by
  -- only the group's signatures are left
  have hkeep : keepGroup (gs ++ [(g, dec.sigs .abstain)]) (some g) =
      some [(g, dec.sigs .abstain)] := by
    have hnone : gs.filter (·.1 = g) = [] := by
      rw [filter_eq_nil_iff]
      intro e he
      simp only [decide_eq_true_eq]
      intro heq
      exact hnew (heq ▸ mem_map_of_mem he)
    simp [keepGroup, filter_append, hnone]
  have hnot : s.req.decision ≠ .commit := by simp [hreq]
  unfold Coordinator.handleAllPhase1Received
  rcases hev with ⟨hfast, hconf⟩ | ⟨hconf, hsigs, ⟨hdf, hfast, hgroup⟩ | ⟨hdf, hfast, hgroup⟩⟩
  · rw [if_pos hfast]
    apply h.writeback
    intro gs' _ _ hcase
    rw [hcase.resolve_left hnot] at hconf
    cases hconf
  · rw [if_pos hfast]
    apply h.writeback
    intro gs' hgs' _ hcase
    rw [Request.writebackSigs, if_pos ⟨hreq, hfast, hcase.resolve_left hnot⟩, hsigs, hgroup,
      hkeep] at hgs'
    cases hgs'
    have hacc := accepted_abort hg hdec hconf hsup
    rw [hdf] at hacc
    rw [hreq]
    exact hacc
  · rw [if_neg (by simp [hfast])]
    apply h.phase2 hfast
    intro req' hreq'
    rw [Request.phase2Processing, Request.phase2Sigs, if_pos hreq, hsigs, hgroup, hkeep,
      hreq] at hreq'
    cases hreq'
    have hacc := accepted_abort hg hdec hconf hsup
    rw [hdf] at hacc
    exact hacc

namespace CoordinatorInv

variable {active : Bool}

section
variable (h : CoordinatorInv S txn d s)
include h

theorem phase1Callback {g : GroupId} {dec : GroupDecision}
    (hg : g ∈ txn.involvedGroups) (hpending : s.pending g = none)
    (hnew : s.req.startedPhase2 = false → s.req.startedWriteback = false →
      g ∉ s.req.p1ReplySigsGrouped.map (·.1))
    (hdecided : s.req.startedPhase2 = false → s.req.startedWriteback = false →
      s.req.decision = .commit ∨ ∃ g' ∈ txn.involvedGroups, g' ≠ g ∧ s.pending g' = none ∧
        g' ∉ s.req.p1ReplySigsGrouped.map (·.1))
    (hsup : Supports (S.forGroup g) d dec) :
    CoordinatorOk S txn d (s.phase1Callback S g dec active) := by
  unfold Coordinator.phase1Callback
  split_ifs with hskip
  · exact h.ok
  · simp only [Bool.or_eq_true, Bool.not_eq_true', not_or, Bool.not_eq_true] at hskip
    obtain ⟨⟨-, hp2⟩, hwb⟩ := hskip
    have hnew := hnew hp2 hwb
    split
    · exact h.panic
    · rename_i req' hreq'
      obtain ⟨hdec, hconf, rfl⟩ | ⟨hdec, habort, hzero, hdig, hev⟩ :=
        phase1CallbackProcessing_cases hnew hsup hreq'
      · have hcoll := (h.collecting hp2 hwb).commit hg hnew hdec hconf hsup
        have hinv : CoordinatorInv S txn d { s with req := { s.req with
            p1ReplySigsGrouped := s.req.p1ReplySigsGrouped ++ [(g, dec.sigs .commit)]
            fast := s.req.fast && dec.fast
            outstandingPhase1s := s.req.outstandingPhase1s - 1 } } := by
          refine { h with
            unheard := ?_, collecting := fun _ _ => hcoll, decided := fun _ _ => ?_, logging := ?_ }
          · intro g' p hp _ _
            have hne : g' ≠ g := by
              intro heq
              rw [heq, hpending] at hp
              cases hp
            have hold := h.unheard g' p hp hp2 hwb
            simpa [hne] using hold
          · obtain hcommit | ⟨g', hg', hne, hnone, hunheard⟩ := hdecided hp2 hwb
            · exact .inl hcommit
            · exact .inr ⟨g', hg', hnone, by simpa [hne] using hunheard⟩
          · intro hstarted
            exact absurd (hp2.symm.trans hstarted) (by simp)
        split_ifs with hzero
        · exact hinv.allReceived hp2 hwb hzero
        · exact hinv.ok
      · rw [if_pos hzero]
        have hbase : CoordinatorBase S txn d { s with req := req' } :=
          ⟨hdig.trans h.digest, h.pending, h.sent⟩
        exact hbase.aborted hg hsup hnew hdec habort hev

theorem setPending {g : GroupId} {o : Option PendingPhase1}
    (ho : ∀ p, o = some p → p.Inv (S.forGroup g) txn d ∧ ∃ p₀, s.pending g = some p₀) :
    CoordinatorInv S txn d { s with pending := update s.pending g o } := by
  refine { h with
    pending := fun g' p hp => ?_, unheard := fun g' p hp => ?_, decided := fun hp2 hwb => ?_ }
  · obtain ⟨rfl, heq⟩ | ⟨-, heq⟩ := update_eq_some.1 hp
    · obtain ⟨hinv, p₀, hp₀⟩ := ho p heq
      exact ⟨hinv, (h.pending g' p₀ hp₀).2⟩
    · exact h.pending g' p heq
  · obtain ⟨rfl, heq⟩ | ⟨-, heq⟩ := update_eq_some.1 hp
    · obtain ⟨-, p₀, hp₀⟩ := ho p heq
      exact h.unheard g' p₀ hp₀
    · exact h.unheard g' p heq
  · obtain hcommit | ⟨g', hg', hnone, hunheard⟩ := h.decided hp2 hwb
    · exact .inl hcommit
    · refine .inr ⟨g', hg', Option.eq_none_iff_forall_ne_some.2 fun p hp => ?_, hunheard⟩
      obtain ⟨rfl, heq⟩ | ⟨-, heq⟩ := update_eq_some.1 hp
      · obtain ⟨-, p₀, hp₀⟩ := ho p heq
        cases hnone.symm.trans hp₀
      · cases hnone.symm.trans heq

theorem settle {g : GroupId} {p : PendingPhase1} {o : Outcome}
    (hp : s.pending g = some p) (ho : o.Right (S.forGroup g) txn d) :
    CoordinatorOk S txn d (s.settle S g active o) := by
  cases o with
  | waits p' =>
    apply CoordinatorInv.ok
    apply h.setPending
    intro q hq
    cases hq
    exact ⟨ho, p, hp⟩
  | decides dec =>
    have hnone : CoordinatorInv S txn d { s with pending := update s.pending g none } :=
      h.setPending fun q hq => by cases hq
    refine hnone.phase1Callback (h.pending g p hp).2 (update_self ..) (h.unheard g p hp)
      (fun hp2 hwb => (h.decided hp2 hwb).imp_right ?_) ho
    rintro ⟨g', hg', hnone', hunheard⟩
    have hne : g' ≠ g := by
      rintro rfl
      cases hnone'.symm.trans hp
    exact ⟨g', hg', hne, (update_of_ne hne ..).trans hnone', hunheard⟩
  | stops => exact h.panic

theorem phase2Callback {decision : CommitDecision} :
    CoordinatorOk S txn d (s.phase2Callback S decision active) := by
  unfold Coordinator.phase2Callback
  split_ifs with hskip hfb hp2
  · exact h.ok
  · have hbase : CoordinatorBase S txn d { s with req := { s.req with decision, fast := false } } :=
      ⟨h.digest, h.pending, h.sent⟩
    apply hbase.writeback
    intro gs _ hfast
    cases hfast
  · have hwb : s.req.startedWriteback = false := by
      simp only [Bool.or_eq_true, not_or, Bool.not_eq_true] at hskip
      exact hskip.2
    have hbase : CoordinatorBase S txn d { s with req := { s.req with decision } } :=
      ⟨h.digest, h.pending, h.sent⟩
    apply hbase.writeback
    intro gs _ hfast
    exact absurd ((h.logging hp2 hwb).fast.symm.trans hfast) (by simp)
  · exact h.ok

theorem phase2Timeout (hfb : s.req.fallback = false)
    (hp2 : s.req.startedPhase2 = true) (hwb : s.req.startedWriteback = false) :
    CoordinatorOk S txn d (s.phase2 S) := by
  have hlog := h.logging hp2 hwb
  apply h.toCoordinatorBase.phase2 hlog.fast
  intro req' hreq'
  cases (hlog.again hfb).symm.trans hreq'
  exact hlog.accepted hfb

theorem processP2FBR {g : GroupId} {decision : CommitDecision} {p2Replies : Nat} :
    CoordinatorOk S txn d (s.processP2FBR g decision p2Replies active) := by
  unfold Coordinator.processP2FBR
  split_ifs with hstopped
  · exact h.ok
  · obtain ⟨p, hp⟩ : ∃ p, s.pending g = some p := by
      simp only [Bool.or_eq_true, not_or, Option.isNone_iff_eq_none] at hstopped
      exact Option.ne_none_iff_exists'.1 hstopped.2
    have hnone : CoordinatorInv S txn d { s with pending := update s.pending g none } :=
      h.setPending fun q hq => by cases hq
    unfold Coordinator.phase1FBcallbackB
    split_ifs with hskip
    · exact hnone.ok
    · simp only [Bool.or_eq_true, not_or, Bool.not_eq_true] at hskip
      obtain ⟨⟨-, hp2⟩, hwb⟩ := hskip
      apply CoordinatorInv.ok
      refine { hnone with collecting := fun _ _ => ?_, decided := fun _ _ => ?_, logging := ?_ }
      · exact { hnone.collecting hp2 hwb with }
      · exact .inr ⟨g, (h.pending g p hp).2, update_self .., h.unheard g p hp hp2 hwb⟩
      · intro hstarted
        exact absurd (hp2.symm.trans hstarted) (by simp)

theorem step {timeout : Nat} {e : CoordinatorEvent}
    (he : Proper S s e) : CoordinatorOk S txn d (coordinatorStep S timeout s e) := by
  cases e with
  | reply g r active =>
    dsimp only [coordinatorStep]
    split
    · exact h.ok
    · rename_i p hp
      exact h.settle hp ((h.pending g p hp).1.processP1R (h.digest ▸ he))
  | decisionTimer g active =>
    dsimp only [coordinatorStep]
    split
    · exact h.ok
    · rename_i p hp
      exact h.settle hp (h.pending g p hp).1.decisionTimer
  | requestTimeout g => exact (h.setPending fun q hq => by cases hq).ok
  | phase2Callback decision active => exact h.phase2Callback
  | phase2Timeout =>
    dsimp only [coordinatorStep]
    split_ifs with hsend
    · simp only [Bool.and_eq_true, Bool.not_eq_true'] at hsend
      obtain ⟨⟨hfb, hp2⟩, hwb⟩ := hsend
      exact h.phase2Timeout hfb hp2 hwb
    · exact h.ok
  | phase1FBcallbackB g decision p2Replies active => exact h.processP2FBR
  | forwardedWriteback =>
    dsimp only [coordinatorStep]
    split_ifs
    · exact CoordinatorInv.ok (CoordinatorBase.written ⟨h.digest, nofun, h.sent⟩ rfl)
    · exact h.ok

end

theorem init {fallback : Bool} {junk : Option GroupId} :
    CoordinatorInv S txn d (.start txn d fallback junk) where
  digest := rfl
  pending g p hp := by
    obtain ⟨hg, hp⟩ := ite_none_right_eq_some.1 hp
    cases hp
    exact ⟨PendingPhase1.Inv.init, hg⟩
  sent _ hc := by cases hc
  unheard _ _ _ _ _ hmem := by cases hmem
  collecting _ _ :=
    { sigs := fun _ he => by cases he
      fast := fun _ _ he => by cases he
      slow := fun hslow => by cases hslow
      waiting := by
        show ((txn.involvedGroups.filter _).length : Int) ≤ txn.involvedGroups.length
        exact_mod_cast length_filter_le _ _ }
  decided _ _ := .inl rfl
  logging hstarted := by cases hstarted

end CoordinatorInv

/-- **Every Phase1 certificate is accepted, if the votes that are counted are about the transaction
and the group.** -/
theorem run_accepted {timeout : Nat} {fallback : Bool} {junk : Option GroupId}
    {es : List CoordinatorEvent}
    (hes : (coordinator S timeout).Along (Proper S) (.start txn d fallback junk) es) :
    ∀ c ∈ ((coordinator S timeout).run (.start txn d fallback junk) es).sent,
      c.Accepted S txn d := by
  have hok : CoordinatorOk S txn d
      ((coordinator S timeout).run (.start txn d fallback junk) es) := by
    refine Machine.run_along (fun s e he h => ?_) CoordinatorInv.init.ok hes
    show CoordinatorOk S txn d (if s.panicked then s else coordinatorStep S timeout s e)
    split_ifs with hpanic
    · exact h
    · exact (h.inv (by simpa using hpanic)).step he
  exact hok.sent

/-! ## Certificates that are accepted, and some that are not -/

namespace ShardEnv

def sampleTwo : ShardEnv :=
  { sample with
    env := { sample.env with config := { sample.env.config with groups := 2 } }
    verify_eq := fun _ _ _ => rfl }

def voteSample (g named : GroupId) (id : ProcessId) : CoordinatorEvent :=
  .reply g { signedCC := some (signSample id (.vote true [7] named)) } true

theorem proper_vote {s : Coordinator} (hd : s.req.txnDigest = [7]) (g : GroupId) (id : ProcessId) :
    Proper sampleTwo s (voteSample g g id) := by
  intro m cc hm _ _
  cases hm
  rw [hd]
  exact ⟨true, rfl⟩

theorem run_accepted_two :
    let txn : Transaction := { clientId := 1, clientSeqNum := 1, involvedGroups := [0, 1] }
    let es := [0, 1, 2, 3, 4, 5].map (voteSample 0 0) ++ [6, 7, 8, 9].map (voteSample 1 1) ++
      [.decisionTimer 1 true]
    ((coordinator sampleTwo 1).run (.start txn [7] false none) es).sent.length = 1 ∧
      ∀ c ∈ ((coordinator sampleTwo 1).run (.start txn [7] false none) es).sent,
        c.Accepted sampleTwo txn [7] := by
  intro txn es
  refine ⟨by decide +kernel, run_accepted ?_⟩
  refine ⟨?_, ?_, ?_, ?_, ?_, ?_, ?_, ?_, ?_, ?_, trivial, trivial⟩
  all_goals exact proper_vote (by decide +kernel) _ _

/-- A certificate is refused if one replica names another group in its vote. -/
theorem run_not_accepted :
    let txn : Transaction := { clientId := 1, clientSeqNum := 1, involvedGroups := [0] }
    let votes := [0, 1, 2, 3, 4].map (voteSample 0 0) ++ [voteSample 0 1 5]
    ∃ c ∈ ((coordinator sampleTwo 1).run (.start txn [7] false none) votes).sent,
      ¬ c.Accepted sampleTwo txn [7] := by
  intro txn votes
  have hany : ((coordinator sampleTwo 1).run (.start txn [7] false none) votes).sent.any
      (fun c => !validateP1Replies sampleTwo.env c.decision c.fast txn [7] c.sigs none) = true := by
    decide +kernel
  obtain ⟨c, hmem, hc⟩ := List.any_eq_true.1 hany
  refine ⟨c, hmem, fun hacc => ?_⟩
  have hvalid := hacc.valid none fun m hm => by cases hm
  rw [hvalid] at hc
  cases hc

end ShardEnv

end Sintr.Shard
