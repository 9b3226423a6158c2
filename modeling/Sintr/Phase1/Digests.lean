import Sintr.Phase1.Endorsed

/-!
# One digest per transaction

Every path from a Phase1 message to a vote should name the transaction by its digest, and check
endorsements against the digest that validating clients sign.

Three paths get this wrong. `HandlePhase1` passes one string for both digests when endorsements are
not hashed, and on the main thread `TryPrepare` rewrites it; a supplied transaction has its
endorsements checked against a digest that covers them; and a transaction that had to wait for a
query is hashed again when it resumes, although with cached read sets its predicates may have been
taken out. `DigestsMeet` leaves these messages out.
-/

namespace Sintr.Phase1

open State

/-- The message takes no path on which one digest is used in the place of another, or the two
happen to be equal. -/
def DigestsMeet (env : Env) : Event → Prop
  | .phase1 msg _ =>
    (aliases env = true → env.endorsedDigest msg.txn = env.digest msg.txn) ∧ env.Whole msg.txn
  | .supply _ msg _ =>
    checkDigestOf env msg.txn (env.digest msg.txn) = env.endorsedDigest msg.txn ∧
      env.Whole msg.txn
  | .phase1FB msg _ => env.Whole msg.txn
  | _ => True

variable {env : Env}

theorem digestsMeet_phase1 {msg : Phase1Msg} {i : CCInput}
    (h : env.params.hashEndorsements = true ∨ msg.txn.policyVersions = [] ∨
      (env.params.multiThreading = true ∧ env.params.signClientProposals = true))
    (hwhole : env.Whole msg.txn) : DigestsMeet env (.phase1 msg i) := by
  refine ⟨fun hal => ?_, hwhole⟩
  simp only [aliases, Bool.and_eq_true, Bool.not_eq_true', Bool.and_eq_false_iff] at hal
  rcases h with h | h | ⟨hm, hs⟩
  · rw [h] at hal; cases hal.1
  · rw [env.digest_eq_bareDigest (.inl hal.1)]
    simp [Env.endorsedDigest, policyVersionDigest, h]
  · simp [hm, hs] at hal

theorem digestsMeet_supply {txnId : Digest} {msg : Phase1Msg} {i : CCInput}
    (h : env.params.hashEndorsements = false ∨ msg.txn.endorsements.getD [] = [])
    (hwhole : env.Whole msg.txn) : DigestsMeet env (.supply txnId msg i) := by
  refine ⟨?_, hwhole⟩
  rw [env.digest_eq_bareDigest h]
  exact checkDigestOf_bareDigest env msg.txn

/-- The transaction is named by its digest, now and when its predicates are taken out. -/
def NamedWhole (env : Env) (d : Digest) (T : Transaction) : Prop := d = env.digest T ∧ env.Whole T

def DigestRight (env : Env) : LogEntry → Prop
  | .endorsementCheck T c => c = env.endorsedDigest T
  | .occCheck T d => d = env.digest T
  | .execP1 T d => d = env.digest T
  | .prepare T d => d = env.digest T
  | .buffer T d _ => (∀ t, T = some t → d = env.digest t) ∧ ∃ t, d = env.digest t
  | .reply T d _ _ => (∀ t, T = some t → d = env.digest t) ∧ ∃ t, d = env.digest t
  | .fbReply d _ => ∃ t, d = env.digest t

theorem digestRight_of_entryOk {e : LogEntry}
    (h : EntryOk env (NamedWhole env) (fun _ => True) e) : DigestRight env e := by
  cases e with
  | endorsementCheck T c => exact h
  | occCheck T d => exact h.1
  | execP1 T d => exact h.1.1
  | prepare T d => exact h.1.1
  | buffer T d r => exact ⟨fun t ht => (h.1 t ht).1, h.2.1.imp fun _ => And.left⟩
  | reply T d r reqId => exact ⟨fun t ht => (h.1 t ht).1, h.2.1.imp fun _ => And.left⟩
  | fbReply d r => exact h.1.imp fun _ => And.left

theorem inv_digests (env : Env) (ps : PolicyStore) {es : List Event}
    (hes : ∀ e ∈ es, DigestsMeet env e) :
    Inv env (NamedWhole env) (fun _ => True) ((phase1Machine env).run (initial ps) es) := by
  refine Machine.run_along (P := fun _ e => DigestsMeet env e) ?_ (inv_initial ps)
    (Machine.along_of_forall hes)
  intro s e he h
  refine h.step (fun m hd => hd) (fun _ _ => trivial) (fun _ _ _ _ => trivial) ?_
    fun _ _ _ _ => .inr trivial
  cases e with
  | phase1 msg i => exact ⟨⟨rfl, he.2⟩, fun hal => ⟨he.1 hal, he.2⟩⟩
  | supply txnId msg i => exact ⟨⟨rfl, he.2⟩, he.1⟩
  | phase1FB msg i => exact ⟨rfl, he⟩
  | _ => trivial

/-- In every run of messages that meet the condition, the transaction is entered, checked, stored
and answered under its digest, and its endorsements are checked against the digest that clients
sign; a transaction that waits for a query will still have that digest when it resumes. -/
theorem digests_of_run (env : Env) (ps : PolicyStore) (es : List Event)
    (hes : ∀ e ∈ es, DigestsMeet env e) :
    let s := (phase1Machine env).run (initial ps) es
    (∀ d T, s.ongoing d = some T → d = env.digest T) ∧
      (∀ d p, s.prepared d = some p → d = env.digest p.2) ∧
      (∀ d m, s.p1MetaData d = some m → m.hasP1 = true → ∃ T, d = env.digest T) ∧
      (∀ d w, s.missingQueries d = some w → d = env.digest w.txn ∧
        (env.params.cacheReadSet = true → ∀ k,
          env.endorsedDigest (w.txn.takePredicates env.groupIdx k) =
            env.endorsedDigest w.txn)) ∧
      ∀ e ∈ s.log, DigestRight env e := by
  have h := inv_digests env ps hes
  refine ⟨fun d T hT => (h.ongoing hT).1, fun d p hp => (h.prepared hp).1.1,
    fun d m hm hP1 => (h.votes hm hP1).1.imp fun _ => And.left, fun d w hw => ?_,
    fun e he => digestRight_of_entryOk (h.log e he)⟩
  obtain ⟨hd, hwhole⟩ := h.missing hw
  exact ⟨hd, fun hcache k => (env.digest_takePredicates hwhole hcache env.groupIdx k).2⟩

/-! ## The paths that use the wrong digest -/

def versionedWrite : Transaction :=
  { endorsedWrite with policyVersions := [⟨[], Timestamp.zero⟩] }

def oneEndorser : PolicyStore := fun _ => OrdMap.empty.insertNew Timestamp.zero (.weight 1)

def hashingEnv : Env := { Env.sample with params := { hashEndorsements := true } }

def cachingEnv : Env := { Env.sample with params := { cacheReadSet := true } }

/-- It carries a predicate on table 3 in the read set of its first query. -/
def predicateWrite : Transaction :=
  { endorsedWrite with querySet :=
      [⟨[1], 0, [(0, { queryReadSet := some { readPredicates := [{ tableName := [3] }] } })]⟩,
        ⟨[2], 0, [(0, { readSetHash := some [9] })]⟩] }

/-- On the main thread the check, the stored result and the reply use another digest than `ongoing`.
The endorsements of a supplied transaction are checked against another digest than the signed one.
So are those of a transaction whose first query has been merged when it waits for the second.
-/
theorem digests_go_wrong :
    (let T := versionedWrite
      let s := (phase1Machine Env.sample).run (initial oneEndorser)
        [.phase1 { reqId := 1, txn := T } {}]
      s.ongoing (Env.sample.digest T) = some T ∧ s.prepared (Env.sample.digest T) = none ∧
        ∃ d, d ≠ Env.sample.digest T ∧ .occCheck T d ∈ s.log ∧
          .buffer (some T) d .commit ∈ s.log ∧ .reply (some T) d .commit 1 ∈ s.log) ∧
    (let T := versionedWrite
      let s := (phase1Machine hashingEnv).run (initial oneEndorser)
        [.supply (hashingEnv.digest T) { reqId := 1, txn := T } {}]
      ∃ c, c ≠ hashingEnv.endorsedDigest T ∧ .endorsementCheck T c ∈ s.log) ∧
    let T := predicateWrite
    let s := (phase1Machine cachingEnv).run (initial oneEndorser)
      [.phase1 { reqId := 1, txn := T } { merge := .wait }]
    s.missingQueries (cachingEnv.digest T) = some ⟨1, T, false⟩ ∧
      cachingEnv.endorsedDigest (T.takePredicates 0 1) ≠ cachingEnv.endorsedDigest T := by
  refine ⟨⟨rfl, rfl, Env.sample.endorsedDigest versionedWrite, by decide, ?_, ?_, ?_⟩,
    ⟨policyVersionDigest hashingEnv.H versionedWrite (hashingEnv.digest versionedWrite),
    by decide, List.mem_cons_self⟩, rfl, by decide⟩
  · exact List.mem_cons_of_mem _ List.mem_cons_self
  · exact List.mem_cons_of_mem _ (List.mem_cons_of_mem _ List.mem_cons_self)
  · exact List.mem_cons_of_mem _ (List.mem_cons_of_mem _
      (List.mem_cons_of_mem _ List.mem_cons_self))

theorem digests_of_run_hashing :
    let T := versionedWrite
    let es : List Event := [.phase1 { reqId := 1, txn := T } {},
      .supply (hashingEnv.digest blindWrite) { reqId := 2, txn := blindWrite } {}]
    let s := (phase1Machine hashingEnv).run (initial oneEndorser) es
    (∀ e ∈ es, DigestsMeet hashingEnv e) ∧
      s.prepared (hashingEnv.digest T) = some (T.timestamp, T) ∧
      ∀ e ∈ s.log, DigestRight hashingEnv e := by
  intro T es s
  have hes : ∀ e ∈ es, DigestsMeet hashingEnv e := by
    refine List.forall_mem_cons.2 ⟨?_, List.forall_mem_singleton.2 ?_⟩
    · exact digestsMeet_phase1 (.inl rfl) (by decide)
    · exact digestsMeet_supply (.inr rfl) (by decide)
  exact ⟨hes, by decide +kernel, (digests_of_run hashingEnv oneEndorser es hes).2.2.2.2⟩

end Sintr.Phase1
