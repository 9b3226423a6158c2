import Sintr.Phase1.Rules

/-!
# What every path to a vote keeps

One invariant for all paths, over two relations that the results about the pipeline choose:
`L d T`, the digests under which a transaction may be handled, and `G d`, the digests that may get
a vote to commit. `Inv` says that every table, closure and log entry respects them.

* `Inv.step`: every event keeps the invariant, given that the fallback path only runs for
  transactions in `G`.
-/

namespace Sintr.Phase1

open State List Option Function

section
variable (env : Env) (L : Digest → Transaction → Prop) (G : Digest → Prop)

def Named (d : Digest) : Prop := ∃ T, L d T

/-- A result that may still lead to COMMIT needs `G`. -/
def VoteOk (d : Digest) (r : CCResult) : Prop := r = .commit ∨ r = .wait → G d

/-- The endorsers of `T`, for the digest they should have signed. -/
def fullEndorsers (T : Transaction) : Endorsers := endorsers env T (env.endorsedDigest T)

/-- Endorsers that satisfy the policy extracted from `ps` give `G`. -/
def Grants (ps : PolicyStore) : Prop :=
  ∀ {T d pc E}, L d T → extractPolicy env ps T = some (true, pc) → E ⊆ fullEndorsers env T →
    0 ≤ PolicyClient.isSatisfiedInt pc E → G d

def ResultOk (T : Option Transaction) (d : Digest) (r : CCResult) : Prop :=
  (∀ t, T = some t → L d t) ∧ Named L d ∧ VoteOk G d r

def EntryOk : LogEntry → Prop
  | .endorsementCheck T c => c = env.endorsedDigest T
  | .occCheck T d => L d T
  | .execP1 T d => L d T ∧ G d
  | .prepare T d => L d T ∧ G d
  | .buffer T d r => (∀ t, T = some t → L d t) ∧ Named L d ∧ VoteOk G d r
  | .reply T d r _ => (∀ t, T = some t → L d t) ∧ Named L d ∧ VoteOk G d r
  | .fbReply d r => Named L d ∧ VoteOk G d r

/-- A closure carries digests that belong to its transaction; `txns` are those of the asynchronous
checks. -/
def TaskOk (txns : List Transaction) : Task → Prop
  | .checkProposal msg d old _ =>
    L d msg.txn ∧ checkDigestOf env msg.txn old = env.endorsedDigest msg.txn
  | .tryPrepare _ T d old _ => L d T ∧ checkDigestOf env T old = env.endorsedDigest T
  | .dispatchedCheck _ T d c _ => L d T ∧ c = env.endorsedDigest T
  | .validateEndorsement k m c =>
    ∃ T, txns[k]? = some T ∧ m ∈ T.endorsements.getD [] ∧ c = env.endorsedDigest T
  | .concurrencyCheck _ => delaysPrepare env false = true
  | .checkProposalFB msg d => L d msg.txn
  | .tryExec msg d => L d msg.txn

/-- An asynchronous check counts only valid endorsements, and enough of them give `G`. -/
structure AsyncOk (a : AsyncCheck) : Prop where
  named : L a.digest a.txn
  leak : a.avp.policyLeak = true → a.avp.cbDone = true
  counted : a.avp.policyLeak = false → a.avp.endorsers ⊆ fullEndorsers env a.txn
  promise : a.avp.policyLeak = false → ∀ E ⊆ fullEndorsers env a.txn,
    0 ≤ a.avp.policyClient.isSatisfiedInt E → G a.digest

structure Inv (s : State) : Prop where
  ongoing : ∀ {d T}, s.ongoing d = some T → L d T
  prepared : ∀ {d p}, s.prepared d = some p → L d p.2 ∧ G d
  votes : ∀ {d m}, s.p1MetaData d = some m → m.hasP1 = true → Named L d ∧ VoteOk G d m.result
  committed : ∀ {d}, (s.committed d).isSome → G d
  waiting : ∀ {d}, (s.waitingDependencies d).isSome → Named L d ∧ G d
  missing : ∀ {d w}, s.missingQueries d = some w → L d w.txn
  checks : ∀ a ∈ s.asyncChecks, AsyncOk env L G a
  tasks : ∀ t ∈ s.tasks, TaskOk env L (s.asyncChecks.map (·.txn)) t
  log : ∀ e ∈ s.log, EntryOk env L G e

end

/-! ## Updates of one table -/

section
variable {env : Env} {L : Digest → Transaction → Prop} {G : Digest → Prop} {s : State}
  {d : Digest} {txn : Transaction}

theorem voteOk_of {r : CCResult} (h : G d) : VoteOk G d r := fun _ => h

theorem voteOk_abstain : VoteOk G d .abstain := by rintro (h | h) <;> cases h

theorem ResultOk.of {r : CCResult} (hd : L d txn) (hr : VoteOk G d r) :
    ResultOk L G (some txn) d r :=
  ⟨by rintro _ ⟨⟩; exact hd, ⟨_, hd⟩, hr⟩

theorem update_some_cases {α : Type} {f : Digest → Option α} {d d' : Digest} {o : Option α} {v : α}
    (h : update f d o d' = some v) : d' = d ∧ o = some v ∨ f d' = some v := by
  by_cases hd : d' = d
  · subst hd; rw [update_self] at h; exact .inl ⟨rfl, h⟩
  · rw [update_of_ne hd] at h; exact .inr h

theorem update_none {α : Type} {f : Digest → Option α} {d d' : Digest} {v : α}
    (h : update f d none d' = some v) : f d' = some v := by
  obtain ⟨-, h⟩ | h := update_some_cases h
  · cases h
  · exact h

namespace Inv

theorem mono (h : Inv env L G s) {G' : Digest → Prop} (hG : ∀ d, G d → G' d) :
    Inv env L G' s where
  ongoing := h.ongoing
  prepared := fun hp => ⟨(h.prepared hp).1, hG _ (h.prepared hp).2⟩
  votes := fun hm hP1 => ⟨(h.votes hm hP1).1, fun hr => hG _ ((h.votes hm hP1).2 hr)⟩
  committed := fun hc => hG _ (h.committed hc)
  waiting := fun hw => ⟨(h.waiting hw).1, hG _ (h.waiting hw).2⟩
  missing := h.missing
  checks := fun a ha =>
    { h.checks a ha with promise := fun hl E hE hs => hG _ ((h.checks a ha).promise hl E hE hs) }
  tasks := h.tasks
  log := by
    intro e he
    have hok := h.log e he
    cases e with
    | endorsementCheck | occCheck => exact hok
    | execP1 | prepare => exact ⟨hok.1, hG _ hok.2⟩
    | buffer | reply => exact ⟨hok.1, hok.2.1, fun hr => hG _ (hok.2.2 hr)⟩
    | fbReply => exact ⟨hok.1, fun hr => hG _ (hok.2 hr)⟩

theorem ite {p : Prop} [Decidable p] {t : State} (hs : p → Inv env L G s)
    (ht : ¬p → Inv env L G t) : Inv env L G (if p then s else t) := by
  split
  · exact hs ‹_›
  · exact ht ‹_›

theorem panic (h : Inv env L G s) : Inv env L G s.panic :=
  ⟨h.ongoing, h.prepared, h.votes, h.committed, h.waiting, h.missing, h.checks, h.tasks, h.log⟩

theorem record (h : Inv env L G s) {e : LogEntry} (he : EntryOk env L G e) :
    Inv env L G (s.record e) where
  __ := h
  log := by
    intro e' he'
    rcases mem_append.1 he' with he' | he'
    · exact h.log e' he'
    · rw [mem_singleton.1 he']; exact he

theorem push (h : Inv env L G s) {t : Task} (ht : TaskOk env L (s.asyncChecks.map (·.txn)) t) :
    Inv env L G (s.push t) where
  __ := h
  tasks := by
    intro t' ht'
    rcases mem_append.1 ht' with ht' | ht'
    · exact h.tasks t' ht'
    · rw [mem_singleton.1 ht']; exact ht

variable {m : P1MetaData} {r : CCResult}

theorem setP1MetaData (h : Inv env L G s) (hm : m.hasP1 = true → Named L d ∧ VoteOk G d m.result) :
    Inv env L G (s.setP1MetaData d m) where
  __ := h
  votes := by
    intro d' m' hd' hP1
    obtain ⟨rfl, hm'⟩ | hold := update_some_cases hd'
    · cases hm'; exact hm hP1
    · exact h.votes hold hP1

theorem addOngoing (h : Inv env L G s) (hd : L d txn) : Inv env L G (s.addOngoing d txn) where
  __ := h
  ongoing := by
    intro d' T hT
    obtain ⟨rfl, heq⟩ | hold := update_some_cases hT
    · cases heq; exact hd
    · exact h.ongoing hold

theorem clean (h : Inv env L G s) (hard : Bool) : Inv env L G (s.clean d hard) where
  __ := h
  ongoing := fun hT => h.ongoing (update_none hT)
  prepared := fun hp => h.prepared (update_none hp)
  votes := by
    intro d' m hm
    simp only [State.clean] at hm
    split at hm
    · exact h.votes (update_none hm)
    · exact h.votes hm
  missing := fun hw => h.missing (update_none hw)

theorem cleanDependencies (h : Inv env L G s) : Inv env L G (s.cleanDependencies d) where
  __ := h
  waiting := by
    intro d' hd'
    obtain ⟨v, hv⟩ := isSome_iff_exists.1 hd'
    exact h.waiting (isSome_iff_exists.2 ⟨v, update_none hv⟩)

/-! ## Votes and dependencies -/

theorem setWaiting (h : Inv env L G s) (hd : Named L d) (hG : G d) (deps : List Digest) :
    Inv env L G { s with
      waitingDependencies := update s.waitingDependencies d (some deps) } where
  __ := h
  waiting := by
    intro d' hd'
    obtain ⟨v, hv⟩ := isSome_iff_exists.1 hd'
    obtain ⟨rfl, -⟩ | hold := update_some_cases hv
    · exact ⟨hd, hG⟩
    · exact h.waiting (isSome_iff_exists.2 ⟨v, hold⟩)

theorem rules : EndRules (Inv env L G) (fun _ s => Inv env L G s) (fun _ => ResultOk L G) where
  inv := id
  refl := id
  trans := fun _ h => h
  ok_mono := fun _ h => h
  ok_commit := fun _ h => ⟨h.1, h.2.1, fun _ => h.2.2 (.inl rfl)⟩
  stored := fun h hm hP1 hr => ⟨hr.1, h.votes hm hP1⟩
  waiting := fun h hw => ⟨nofun, (h.waiting hw).1, fun _ => (h.waiting hw).2⟩
  other := fun h _ _ _ _ _ => { h with }
  announce := by
    rintro s T d r e h hr (_ | _ | _)
    · exact h.record hr
    · exact h.record hr
    · exact h.record hr.2
  store := fun h hr => h.setP1MetaData fun _ => hr.2
  wait := fun h hr deps => h.setWaiting hr.2.1 (hr.2.2 (.inl rfl)) deps
  stopWaiting := cleanDependencies
  clean := fun h hard => h.clean hard

theorem sendPhase1Reply (h : Inv env L G s) (reqId : UInt64) (c : Option CommittedProof)
    (hd : L d txn) (hr : VoteOk G d r) :
    Inv env L G (s.sendPhase1Reply env reqId r c (some txn) d) :=
  rules.sendPhase1Reply h reqId c (.of hd hr)

theorem handlePhase1CB (h : Inv env L G s) {reqId : UInt64} {c : Option CommittedProof} {g : Bool}
    (hd : L d txn) (hr : VoteOk G d r) :
    Inv env L G (s.handlePhase1CB env reqId r c d txn g) :=
  rules.handlePhase1CB h reqId c g (.of hd hr)

theorem dependencyCheck (h : Inv env L G s) (hd : Named L d) (hG : G d) :
    Inv env L G (s.dependencyCheck env d txn).2 :=
  rules.dependencyCheck h ⟨nofun, hd, voteOk_of hG⟩

theorem commit (h : Inv env L G s) (hG : G d) (proof : CommittedProof) :
    Inv env L G (s.commit env d proof) := by
  unfold State.commit
  split
  · exact h
  · have hco : Inv env L G { s with
        committed := update s.committed d (some proof)
        policyStore := commitPolicies env s.policyStore proof.txn } := by
      refine { h with committed := ?_ }
      intro d' hd'
      obtain ⟨v, hv⟩ := isSome_iff_exists.1 hd'
      obtain ⟨rfl, -⟩ | hold := update_some_cases hv
      · exact hG
      · exact h.committed (isSome_iff_exists.2 ⟨v, hold⟩)
    exact rules.finish hco

theorem prepare (h : Inv env L G s) (hG : G d) : Inv env L G (s.prepare d txn) := by
  unfold State.prepare
  split
  · rename_i T hT _
    have hL := h.ongoing hT
    have hpr : Inv env L G { s with
        prepared := update s.prepared d (some (txn.timestamp, T)) } := by
      refine { h with prepared := ?_ }
      intro d' p hp
      obtain ⟨rfl, heq⟩ | hold := update_some_cases hp
      · cases heq; exact ⟨hL, hG⟩
      · exact h.prepared hold
    exact hpr.record (e := .prepare T d) ⟨hL, hG⟩
  · exact h

/-! ## The concurrency check -/

/-- The outcome of a check keeps the invariant; unless its effects are delayed, it may be used as
a vote. -/
structure OccOk (env : Env) (L : Digest → Transaction → Prop) (G : Digest → Prop) (d : Digest)
    (fallbackFlow : Bool) (r : OCCResult) : Prop where
  inv : Inv env L G r.state
  vote : delaysPrepare env fallbackFlow = false → VoteOk G d r.result

variable {fallbackFlow : Bool} {i : CCInput}

theorem mvtsoPassed (h : Inv env L G s) (hd : Named L d)
    (hG : delaysPrepare env fallbackFlow = false → G d) :
    OccOk env L G d fallbackFlow (s.mvtsoPassed env d txn fallbackFlow) := by
  refine ⟨?_, fun hdel => voteOk_of (hG hdel)⟩
  have hprep : Inv env L G (if (s.prepared d).isNone && !(env.params.parallelEndorsementCheck &&
      !env.params.serverSkipEndorsementCheck) then s.prepare d txn else s) := by
    refine ite (fun hp => h.prepare (hG ?_)) fun _ => h
    simp only [Bool.and_eq_true, Bool.not_eq_true'] at hp
    simp [delaysPrepare, hp.2]
  cases hdel : delaysPrepare env fallbackFlow with
  | true => simpa only [State.mvtsoPassed, hdel, if_true] using hprep
  | false =>
    simp only [State.mvtsoPassed, hdel, Bool.false_eq_true, if_false]
    exact hprep.dependencyCheck hd (hG hdel)

theorem mvtsoAborted (h : Inv env L G s) (conflict : CommittedProof) :
    OccOk env L G d fallbackFlow (s.mvtsoAborted env d conflict) := by
  refine ⟨rules.mvtsoAborted h conflict, fun _ => ?_⟩
  unfold State.mvtsoAborted
  dsimp only
  split
  · exact voteOk_abstain
  · rintro (h | h) <;> cases h

theorem doMVTSOOCCCheck (h : Inv env L G s) (hd : Named L d)
    (hG : delaysPrepare env fallbackFlow = false → G d) :
    OccOk env L G d fallbackFlow (s.doMVTSOOCCCheck env i d txn fallbackFlow) := by
  unfold State.doMVTSOOCCCheck
  split
  · exact h.mvtsoPassed hd hG
  · split
    · exact h.mvtsoPassed hd hG
    · exact ⟨h, fun _ => voteOk_abstain⟩
    · exact h.mvtsoAborted _

end Inv

end

/-! ## Names that ignore the merged read set

The merged read set is an annotation: it is not part of any digest. -/

section
variable {env : Env} {L : Digest → Transaction → Prop} {G : Digest → Prop} {s : State}
  {d : Digest} {txn : Transaction} {fallbackFlow : Bool} {i : CCInput}
  (hL : ∀ {d T} m, L d T → L d { T with mergedReadSet := m })
include hL

namespace Inv

theorem setMerged (h : Inv env L G s) (hd : L d txn) (m : Option ReadSet) :
    Inv env L G (s.setMerged d txn m) := by
  unfold State.setMerged
  split
  · exact h.addOngoing (hL m hd)
  · exact h

theorem doOCCCheck (h : Inv env L G s) (reqId : UInt64) (isGossip : Bool) (hd : L d txn)
    (hG : delaysPrepare env fallbackFlow = false → G d) :
    OccOk env L G d fallbackFlow (s.doOCCCheck env i reqId d txn fallbackFlow isGossip) := by
  unfold State.doOCCCheck
  split
  · exact ⟨h.panic, fun _ => by rintro (h | h) <;> cases h⟩
  · have hrec : Inv env L G (s.record (.occCheck txn d)) := h.record hd
    dsimp only
    split
    · refine ⟨?_, fun hdel => voteOk_of (hG hdel)⟩
      unfold State.park
      refine ite (fun _ => hrec) fun _ => { hrec with missing := ?_ }
      intro d' w hw
      obtain ⟨rfl, heq⟩ | hold := update_some_cases hw
      · cases heq; exact hd
      · exact h.missing hold
    · exact ⟨hrec, fun _ => voteOk_abstain⟩
    · exact ⟨hrec, fun _ => by rintro (h | h) <;> cases h⟩
    · exact (hrec.setMerged hL hd _).doMVTSOOCCCheck ⟨_, hd⟩ hG

end Inv

end

end Sintr.Phase1
