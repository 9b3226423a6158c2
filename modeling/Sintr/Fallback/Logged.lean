import Sintr.Fallback.Replies

/-!
# First decisions that a fallback brings

With a Phase2FB or InvokeFB message another client has a decision logged for a transaction, with the
votes or the replies that prove it. How many votes it takes, and of which groups, is read off the
transaction. If the replica does not know it, it takes the one in the message, and nothing compares
its digest with the one the decision is logged under.
-/

namespace Sintr.Fallback

open Quorum List

/-- What is logged: whether there is a decision, and which. -/
def State.logged (s : State) (d : Digest) : Bool × CommitDecision :=
  ((s.p2MetaDatas d).hasP2, (s.p2MetaDatas d).p2Decision)

def ValidatedFor (env : Env) (p2fb : Phase2FBMsg) (d : Digest) : Prop :=
  ∃ txn, env.digest txn = d ∧ Validated env p2fb txn d

/-! ## Runs -/

inductive Brings (s : State) : Event → Phase2FBMsg → Digest → Prop where
  | phase2FB (msg : Phase2FBMsg) (schedule : List Nat) :
      Brings s (.phase2FB msg schedule) msg msg.txnDigest
  | invokeFB (msg : InvokeFBMsg) (p2fb : Phase2FBMsg) (schedule : List Nat)
      (h : msg.p2fb = some p2fb) : Brings s (.invokeFB msg schedule) p2fb msg.txnDigest
  | phase2FBCallback (k : Nat) (schedule : List Nat) (stale : Digest) (msg : Phase2FBMsg)
      (valid : Bool) (h : s.tasks[k]? = some (.processP2FBCallback msg valid)) :
      Brings s (.task k schedule stale) msg msg.txnDigest
  | invokeFBCallback (k : Nat) (schedule : List Nat) (stale : Digest) (msg : InvokeFBMsg)
      (p2fb : Phase2FBMsg) (valid : Bool)
      (h : s.tasks[k]? = some (.invokeFBProcessP2FBCallback msg p2fb valid)) :
      Brings s (.task k schedule stale) p2fb msg.txnDigest

def FromFallback (s : State) : Event → Prop
  | .phase2FB .. => True
  | .invokeFB .. => True
  | .task k _ _ => ∃ t, s.tasks[k]? = some t ∧
      match t with
      | .processP2FBCallback .. => True
      | .invokeFBProcessP2FBCallback .. => True
      | .invokeFBcallback .. => True
      | _ => False
  | _ => False

/-- A fallback message about an unknown transaction brings the right one; unsigned, a Phase2FB has
enough replies and an InvokeFB is about the transaction of the message inside. -/
structure FallbacksMeet (env : Env) (s : State) (e : Event) : Prop where
  phase2FB : ∀ msg schedule txn, e = .phase2FB msg schedule → s.fallbackTxn msg = some txn →
    env.digest txn = msg.txnDigest
  invokeFB : ∀ msg schedule p2fb txn, e = .invokeFB msg schedule → msg.p2fb = some p2fb →
    (s.ongoing msg.txnDigest).or p2fb.txn = some txn → env.digest txn = msg.txnDigest
  counted : ∀ msg schedule rs, e = .phase2FB msg schedule → env.params.signedMessages = false →
    msg.p2Replies = some rs → countP2Replies env msg.decision msg.txnDigest rs = true
  sameDigest : ∀ msg schedule p2fb, e = .invokeFB msg schedule →
    env.params.signedMessages = false → msg.p2fb = some p2fb → p2fb.txnDigest = msg.txnDigest

def FallbackOk (env : Env) : Task → Prop
  | .processP2FBCallback msg true => ValidatedFor env msg msg.txnDigest
  | .invokeFBProcessP2FBCallback msg p2fb true => ValidatedFor env p2fb msg.txnDigest
  | _ => True

theorem fallbackOk_of_pushes {env : Env} {s : State} {e : Event} (he : FallbacksMeet env s e)
    {t : Task} (h : Pushes env s e t) : FallbackOk env t := by
  cases h with
  | phase2FB msg schedule txn valid htxn hvalid =>
    cases valid with
    | false => trivial
    | true => exact ⟨txn, he.phase2FB msg schedule txn rfl htxn, hvalid rfl⟩
  | invokeFB msg schedule p2fb txn valid hp2fb htxn hvalid =>
    cases valid with
    | false => trivial
    | true => exact ⟨txn, he.invokeFB msg schedule p2fb txn rfl hp2fb htxn, hvalid rfl⟩
  | _ => trivial

/-- What is logged for a transaction changes only with a decision that the event brings. -/
theorem logged_change {env : Env} {s : State} {e : Event} {d : Digest}
    (h : (step env s e).logged d ≠ s.logged d) :
    (∃ c, Stores env s e d c) ∨ ∃ v c, Adopts env s e d v c := by
  let P : Ledger → Prop := fun l => ((l.p2 d).hasP2, (l.p2 d).p2Decision) ≠ s.logged d →
    (∃ c, Stores env s e d c) ∨ ∃ v c, Adopts env s e d v c
  have hset {l : Ledger} {d' : Digest} {m : P2MetaData} (hl : P l)
      (hm : d = d' → (m.hasP2, m.p2Decision) = ((l.p2 d').hasP2, (l.p2 d').p2Decision)) :
      P (l.set d' m) := by
    intro hne
    by_cases hd : d = d'
    · refine hl ?_
      subst hd
      rwa [← hm rfl, ← show (l.set d m).p2 d = m from Function.update_self ..]
    · exact hl (by rwa [← show (l.set d' m).p2 d = l.p2 d from Function.update_of_ne hd ..])
  have hkeep : ∀ l l', Move env s e l l' → P l → P l' := by
    intro l l' hm hl
    cases hm with
    | note | reply | misreply | finished | echo | electAll => exact hl
    | original | reset | moveTo | elect => exact hset hl fun _ => rfl
    | store d' c _ hc =>
      by_cases hd : d = d'
      · exact fun _ => .inl ⟨c, hd ▸ hc⟩
      · exact hset hl fun heq => absurd heq hd
    | adopt d' v c _ hc =>
      by_cases hd : d = d'
      · exact fun _ => .inr ⟨v, c, hd ▸ hc⟩
      · exact hset hl fun heq => absurd heq hd
  exact (step_moves env s e).keep hkeep (fun hne => absurd rfl hne) h

theorem step_validated {env : Env} {s : State} {e : Event} (h : Waiting env (FallbackOk env) s)
    (he : FallbacksMeet env s e) (hfrom : FromFallback s e) {d : Digest}
    (hchange : (step env s e).logged d ≠ s.logged d) :
    ∃ p2fb, Brings s e p2fb d ∧ ValidatedFor env p2fb d := by
  have hok {k : Nat} {t : Task} (hk : s.tasks[k]? = some t) : FallbackOk env t :=
    h.tasks t (mem_of_getElem? hk)
  obtain ⟨c, hc⟩ | ⟨v, c, hc⟩ := logged_change hchange
  · cases hc with
    | equivocation => exact hfrom.elim
    | phase2CB k schedule stale msg d valid hk =>
      obtain ⟨t, ht, hkind⟩ := hfrom
      rw [hk] at ht
      cases ht
      exact hkind.elim
    | phase2FB msg schedule txn htxn hvalid =>
      refine ⟨msg, .phase2FB msg schedule, txn, he.phase2FB msg schedule txn rfl htxn,
        hvalid.elim id ?_⟩
      rintro ⟨rs, hsigned, hrs, hfew⟩
      rw [he.counted msg schedule rs rfl hsigned hrs] at hfew
      cases hfew
    | phase2FBCallback k schedule stale msg hk =>
      exact ⟨msg, .phase2FBCallback k schedule stale msg true hk, hok hk⟩
    | invokeFB msg schedule p2fb txn hp2fb htxn haccepted =>
      refine ⟨p2fb, .invokeFB msg p2fb schedule hp2fb, txn,
        he.invokeFB msg schedule p2fb txn rfl hp2fb htxn, haccepted.elim id ?_⟩
      rintro ⟨rs, hsigned, hrs, hcounted⟩
      rw [he.sameDigest msg schedule p2fb rfl hsigned hp2fb] at hcounted
      exact .counted hrs (by simp [hsigned]) hcounted
    | invokeFBCallback k schedule stale msg p2fb hk =>
      exact ⟨p2fb, .invokeFBCallback k schedule stale msg p2fb true hk, hok hk⟩
  · cases hc with
    | decisionFB | electFB => exact hfrom.elim
    | fbDecisionCallback k schedule stale msg hk | electFBcallback k schedule stale msg hk
    | ownElect k schedule stale d v c hk =>
      obtain ⟨t, ht, hkind⟩ := hfrom
      rw [hk] at ht
      cases ht
      exact hkind.elim

/-- In a run whose fallback messages meet the conditions, such a message has a decision logged only
after its proof was validated against the transaction that the decision is logged for. -/
theorem logged_validated (env : Env) (s : State) (hs : Idle env s) (es : List Event) (e : Event)
    (hes : (fallbackMachine env).Along (FallbacksMeet env) s (es ++ [e]))
    (hfrom : FromFallback ((fallbackMachine env).run s es) e) (d : Digest)
    (hchange : (step env ((fallbackMachine env).run s es) e).logged d ≠
      ((fallbackMachine env).run s es).logged d) :
    ∃ p2fb, Brings ((fallbackMachine env).run s es) e p2fb d ∧ ValidatedFor env p2fb d := by
  obtain ⟨hes, he, -⟩ := Machine.Along.append.1 hes
  have hwaiting : Waiting env (FallbackOk env) ((fallbackMachine env).run s es) := by
    refine Machine.run_along (fun t e' ht hw => ?_) (hs.waiting _) hes
    exact step_waiting (fun _ => fallbackOk_of_pushes ht) hw
  exact step_validated hwaiting he hfrom hchange

/-! ## A proof for another transaction -/

def noGroups : Transaction := { clientId := 1, clientSeqNum := 1 }

def forged (d : Digest) : Phase2FBMsg :=
  { reqId := 1, decision := .commit, txn := some noGroups, txnDigest := d, p1Sigs := some [] }

theorem length_digest (txn : Transaction) : 16 ≤ (Env.sample.digest txn).length := by
  have hdigest : Env.sample.digest txn = transactionBytes txn false false := rfl
  rw [hdigest]
  simp only [transactionBytes, length_append, le64, length_cons, length_nil]
  omega

/-- Without a single vote COMMIT is logged for a transaction of group 0, which needs four, and for a
digest that no transaction has. -/
theorem logged_for_another :
    let d := Env.sample.digest loggedWrite
    let s := step Env.sample {} (.phase2FB (forged d) [])
    let s' := step Env.sample {} (.phase2FB (forged [0]) [])
    (({} : State).logged d = (false, .commit) ∧ s.logged d = (true, .commit) ∧
      ({} : State).fallbackTxn (forged d) = some noGroups ∧ Env.sample.digest noGroups ≠ d ∧
      validateP1Replies Env.sample .commit false loggedWrite d [] none = false) ∧
    (s'.logged [0] ≠ ({} : State).logged [0] ∧
      ¬∃ p2fb, Brings {} (.phase2FB (forged [0]) []) p2fb [0] ∧
        ValidatedFor Env.sample p2fb [0]) := by
  intro d s s'
  refine ⟨by decide +kernel, by decide +kernel, ?_⟩
  rintro ⟨p2fb, -, txn, hdigest, -⟩
  have hlength := length_digest txn
  rw [hdigest] at hlength
  exact absurd hlength (by decide)

def proven : Phase2FBMsg :=
  { reqId := 1, decision := .commit, txn := some loggedWrite
    txnDigest := Env.sample.digest loggedWrite
    p1Sigs := some [(0, [1, 2, 3, 4].map fun i => ⟨i, [i.toUInt8]⟩)] }

theorem logged_validated_proven :
    let d := Env.sample.digest loggedWrite
    (step Env.sample {} (.phase2FB proven [])).logged d ≠ ({} : State).logged d ∧
      ∃ p2fb, Brings {} (.phase2FB proven []) p2fb d ∧ ValidatedFor Env.sample p2fb d := by
  intro d
  have hchange : (step Env.sample {} (.phase2FB proven [])).logged d ≠ ({} : State).logged d := by
    decide +kernel
  have hsigned : Env.sample.params.signedMessages = true := rfl
  have hmeets : FallbacksMeet Env.sample {} (.phase2FB proven []) := by
    constructor
    · intro msg schedule txn heq htxn
      cases heq
      have hsome : some loggedWrite = some txn := htxn
      rw [← Option.some.inj hsome]
      rfl
    · simp
    · simp [hsigned]
    · simp
  exact ⟨hchange, logged_validated Env.sample {} ⟨rfl, by simp⟩ [] (.phase2FB proven [])
    ⟨hmeets, trivial⟩ trivial d hchange⟩

end Sintr.Fallback
