import Sintr.Phase1.Paths

/-!
# Votes need endorsements

A replica that checks endorsements prepares a transaction, or votes to commit it, only after the
endorsement check let it pass: `Endorsed` held for it in some state of the run.

The fallback path does not look at endorsements, so the result is about runs in which that path is
only taken by endorsed transactions (`FallbackEndorsed`); `voted_without_endorsement` is a run in
which it is not.
-/

namespace Sintr.Phase1

open State List

/-! ## Votes -/

def Voted (d : Digest) (s : State) : Prop :=
  (s.prepared d).isSome ∨ (∃ T, .prepare T d ∈ s.log) ∨
    (∃ m, s.p1MetaData d = some m ∧ m.hasP1 = true ∧ m.result = .commit) ∨
    (∃ T, .buffer T d .commit ∈ s.log) ∨ (∃ T reqId, .reply T d .commit reqId ∈ s.log) ∨
    .fbReply d .commit ∈ s.log

/-- The digests under which a transaction is handled. The second one is used when `TryPrepare`
rewrites the digest it was given. -/
def Handles (env : Env) (d : Digest) (T : Transaction) : Prop :=
  d = env.digest T ∨ d = env.endorsedDigest T

theorem Inv.voted {env : Env} {L : Digest → Transaction → Prop} {G : Digest → Prop} {s : State}
    {d : Digest} (h : Inv env L G s) (hv : Voted d s) : G d := by
  rcases hv with hp | ⟨T, hl⟩ | ⟨m, hm, hP1, hr⟩ | ⟨T, hl⟩ | ⟨T, reqId, hl⟩ | hl
  · obtain ⟨p, hp⟩ := Option.isSome_iff_exists.1 hp
    exact (h.prepared hp).2
  · exact (h.log _ hl).2
  · exact (h.votes hm hP1).2 (.inl hr)
  · exact (h.log _ hl).2.2 (.inl rfl)
  · exact (h.log _ hl).2.2 (.inl rfl)
  · exact (h.log _ hl).2 (.inl rfl)

/-! ## Runs of messages -/

def Event.sent : Event → Option Transaction
  | .phase1 msg _ => some msg.txn
  | .phase1FB msg _ => some msg.txn
  | _ => none

/-- Events of a replica that takes no transactions from other replicas. -/
def Event.fromClients : Event → Bool
  | .supply .. => false
  | _ => true

def DistinctDigests (env : Env) (es : List Event) : Prop :=
  ∀ T ∈ es.filterMap Event.sent, ∀ T' ∈ es.filterMap Event.sent, ∀ d, Handles env d T →
    Handles env d T' → T = T'

def FallbackEndorsed (env : Env) (s : State) (e : Event) : Prop :=
  StoredWeightsFit s.policyStore ∧ ∀ T d, .execP1 T d ∈ (step env s e).log →
    .execP1 T d ∈ s.log ∨ Endorsed env s.policyStore T

def initial (ps : PolicyStore) : State := { policyStore := ps }

section
variable (env : Env) (s₀ : State) (sent : Transaction → Prop)

def SentAs (d : Digest) (T : Transaction) : Prop :=
  Handles env d T ∧ ∃ T₀, sent T₀ ∧ T = { T₀ with mergedReadSet := T.mergedReadSet }

def Granted (es : List Event) (d : Digest) : Prop :=
  (∃ proof, .commit d proof ∈ es) ∨ ∃ es₀, es₀ <+: es ∧ ∃ T, sent T ∧ Handles env d T ∧
    Endorsed env ((phase1Machine env).run s₀ es₀).policyStore T

variable {env s₀ sent}

variable {es : List Event} {G : Digest → Prop}

theorem Granted.append {d : Digest} (h : Granted env s₀ sent es d) (fs : List Event) :
    Granted env s₀ sent (es ++ fs) d := by
  rcases h with ⟨proof, hp⟩ | ⟨es₀, hes, hT⟩
  · exact .inl ⟨proof, mem_append_left _ hp⟩
  · exact .inr ⟨es₀, hes.trans (prefix_append _ _), hT⟩

theorem Granted.of_endorsed {d : Digest} {T : Transaction} (hd : SentAs env sent d T)
    (hT : Endorsed env ((phase1Machine env).run s₀ es).policyStore T) (fs : List Event) :
    Granted env s₀ sent (es ++ fs) d := by
  obtain ⟨hh, T₀, hsent, heq⟩ := hd
  refine .inr ⟨es, prefix_append _ _, T₀, hsent, ?_, ?_⟩
  · rw [heq] at hh; exact hh
  · rw [heq, Endorsed, extractPolicy_mergedReadSet] at hT; exact hT

theorem eventOk_of_sent {e : Event} (hsent : ∀ T, e.sent = some T → sent T)
    (hcl : e.fromClients = true) (hG : ∀ d proof, e = .commit d proof → G d) :
    EventOk env (SentAs env sent) G e := by
  cases e with
  | phase1 msg i =>
    have hT := hsent _ rfl
    exact ⟨⟨.inl rfl, _, hT, rfl⟩, fun _ => ⟨.inr rfl, _, hT, rfl⟩⟩
  | phase1FB msg i => exact ⟨.inl rfl, _, hsent _ rfl, rfl⟩
  | supply => cases hcl
  | commit d proof => exact hG d proof rfl
  | _ => trivial

theorem inv_initial {L : Digest → Transaction → Prop} (ps : PolicyStore) :
    Inv env L G (initial ps) where
  ongoing := by simp [initial]
  prepared := by simp [initial]
  votes := by simp [initial]
  committed := by simp [initial]
  waiting := by simp [initial]
  missing := by simp [initial]
  checks := by simp [initial]
  tasks := by simp [initial]
  log := by simp [initial]

theorem inv_run (hskip : env.params.serverSkipEndorsementCheck = false) (ps : PolicyStore)
    (hsent : ∀ e ∈ es, (∀ T, e.sent = some T → sent T) ∧ e.fromClients = true)
    (hes : (phase1Machine env).Along (FallbackEndorsed env) (initial ps) es) :
    Inv env (SentAs env sent) (Granted env (initial ps) sent es)
      ((phase1Machine env).run (initial ps) es) := by
  refine Machine.run_history (I := fun es s =>
    Inv env (SentAs env sent) (Granted env (initial ps) sent es) s) (inv_initial ps) ?_
    (hes.and_forall hsent)
  rintro es e hinv ⟨⟨hfit, hexec⟩, hmsg, hcl⟩
  refine (hinv.mono fun d hd => hd.append [e]).step ?_ ?_ ?_ ?_ ?_
  · rintro d T m ⟨hh, T₀, hT₀, heq⟩
    exact ⟨hh, T₀, hT₀, by rw [heq]⟩
  · rw [hskip]; nofun
  · intro T d pc E hd hx hE hsat
    have hsat := PolicyClient.isSatisfiedInt_sound (extractPolicy_fits hfit hx) hsat
    exact .of_endorsed hd ⟨pc, hx, PolicyClient.isSatisfied_mono hE hsat⟩ [e]
  · refine eventOk_of_sent hmsg hcl fun d proof he => .inl ⟨proof, ?_⟩
    rw [he]; exact mem_append_right _ (mem_singleton_self _)
  · intro T d hd hmem
    exact (hexec T d hmem).imp_right fun hT => .of_endorsed hd hT [e]

end

/-- In every run of Phase1 and Phase1FB messages in which only endorsed transactions take the
fallback path, a transaction without a commit certificate is prepared or voted for only if it was
endorsed. -/
theorem endorsed_of_voted (env : Env) (hskip : env.params.serverSkipEndorsementCheck = false)
    (ps : PolicyStore) (es : List Event) (hcl : ∀ e ∈ es, e.fromClients = true)
    (hdist : DistinctDigests env es)
    (hes : (phase1Machine env).Along (FallbackEndorsed env) (initial ps) es)
    (T : Transaction) (hT : T ∈ es.filterMap Event.sent) (d : Digest) (hd : Handles env d T)
    (hcert : ∀ proof, .commit d proof ∉ es)
    (hvote : Voted d ((phase1Machine env).run (initial ps) es)) :
    ∃ es₀, es₀ <+: es ∧ Endorsed env ((phase1Machine env).run (initial ps) es₀).policyStore T := by
  have hsent : ∀ e ∈ es, (∀ T, e.sent = some T → T ∈ es.filterMap Event.sent) ∧
      e.fromClients = true :=
    fun e he => ⟨fun T hT => List.mem_filterMap.2 ⟨e, he, hT⟩, hcl e he⟩
  have hgranted := (inv_run hskip ps hsent hes).voted hvote
  rcases hgranted with ⟨proof, hp⟩ | ⟨es₀, hpre, T', hT', hd', hend⟩
  · exact absurd hp (hcert proof)
  · obtain rfl := hdist T hT T' hT' d hd hd'
    exact ⟨es₀, hpre, hend⟩

/-! ## A vote without endorsements -/

def twoEndorsers : PolicyStore := fun _ => OrdMap.empty.insertNew Timestamp.zero (.weight 2)

def blindWrite : Transaction :=
  { clientId := 1, clientSeqNum := 1, involvedGroups := [0], timestamp := ⟨20000, 1⟩
    writeSet := [{ key := [7], value := some [8] }] }

def endorsedWrite : Transaction :=
  { blindWrite with
    endorsements := some [
      { processId := 2, data := Env.sample.endorsedDigest blindWrite, signature := [2] }] }

theorem twoEndorsers_fit : StoredWeightsFit twoEndorsers := by
  intro policyId e he
  obtain he | ⟨rfl, -⟩ := OrdMap.mem_insertNew.1 he
  · cases he
  · exact show (2 : UInt64).toNat ≤ 2 ^ 31 by decide

theorem blindWrite_not_endorsed : ¬ Endorsed Env.sample twoEndorsers blindWrite := by
  rintro ⟨pc, hx, hsat⟩
  have hpc : extractPolicy Env.sample twoEndorsers blindWrite = some (true, some (.weight 2)) := rfl
  rw [hpc] at hx
  cases hx
  revert hsat
  decide

theorem distinctDigests_of_same {env : Env} {es : List Event} (T₀ : Transaction)
    (h : ∀ T ∈ es.filterMap Event.sent, T = T₀) : DistinctDigests env es :=
  fun T hT T' hT' _ _ _ => (h T hT).trans (h T' hT').symm

/-- A Phase1FB message is enough to have an unendorsed transaction prepared and voted for. -/
theorem voted_without_endorsement :
    let es : List Event := [.phase1FB { reqId := 1, txn := blindWrite } {}]
    let d := Env.sample.digest blindWrite
    Env.sample.params.serverSkipEndorsementCheck = false ∧ (∀ e ∈ es, e.fromClients = true) ∧
      DistinctDigests Env.sample es ∧ (∀ proof, .commit d proof ∉ es) ∧
      Voted d ((phase1Machine Env.sample).run (initial twoEndorsers) es) ∧
      ¬ ∃ es₀, es₀ <+: es ∧ Endorsed Env.sample
        ((phase1Machine Env.sample).run (initial twoEndorsers) es₀).policyStore blindWrite := by
  intro es d
  refine ⟨rfl, by simp [es, Event.fromClients],
    distinctDigests_of_same blindWrite (by simp [es, Event.sent]), by simp [es],
    .inl (by decide), ?_⟩
  rintro ⟨es₀, hpre, hend⟩
  obtain rfl | ⟨t, rfl, ht⟩ := List.prefix_cons_iff.1 hpre
  · exact blindWrite_not_endorsed hend
  · obtain rfl := List.prefix_nil.1 ht
    exact blindWrite_not_endorsed hend

/-- The client's message, and then that of one who takes over. -/
theorem endorsed_of_voted_endorsedWrite :
    let es : List Event := [.phase1 { reqId := 1, txn := endorsedWrite } {},
      .phase1FB { reqId := 2, txn := endorsedWrite } {}]
    Voted (Env.sample.digest endorsedWrite)
      ((phase1Machine Env.sample).run (initial twoEndorsers) es) ∧
      ∃ es₀, es₀ <+: es ∧ Endorsed Env.sample
        ((phase1Machine Env.sample).run (initial twoEndorsers) es₀).policyStore endorsedWrite := by
  intro es
  have hvote : Voted (Env.sample.digest endorsedWrite)
      ((phase1Machine Env.sample).run (initial twoEndorsers) es) := .inl (by decide)
  -- the second message finds the vote stored, so nothing is executed on the fallback path
  have hlog : ∀ e ∈ ((phase1Machine Env.sample).run (initial twoEndorsers) es).log,
      ∀ T d, e ≠ .execP1 T d := by
    have hentries : ((phase1Machine Env.sample).run (initial twoEndorsers) es).log =
        [.endorsementCheck endorsedWrite (Env.sample.endorsedDigest endorsedWrite),
          .occCheck endorsedWrite (Env.sample.digest endorsedWrite),
          .prepare endorsedWrite (Env.sample.digest endorsedWrite),
          .buffer (some endorsedWrite) (Env.sample.digest endorsedWrite) .commit,
          .reply (some endorsedWrite) (Env.sample.digest endorsedWrite) .commit 1,
          .fbReply (Env.sample.digest endorsedWrite) .commit] := rfl
    simp [hentries]
  refine ⟨hvote, endorsed_of_voted Env.sample rfl twoEndorsers es (by simp [es, Event.fromClients])
    (distinctDigests_of_same endorsedWrite (by simp [es, Event.sent]))
    ⟨⟨twoEndorsers_fit, fun T d h => ?_⟩,
      ⟨twoEndorsers_fit, fun T d h => absurd rfl (hlog _ h T d)⟩, trivial⟩ endorsedWrite
    (by simp [es, Event.sent]) _ (.inl rfl) (by simp [es]) hvote⟩
  exact absurd rfl (hlog _ (List.mem_append_left [_] h) T d)

end Sintr.Phase1
