import Sintr.Phase1.Pipeline

/-!
# Rules for storing and announcing votes

Several results follow the state through the functions that store a vote, announce it, and wake
the transactions that wait for another one. Each is a relation `R` between the states before and
after, over states with an invariant `I`, and says which results may be stored or sent (`ok`).
`VoteRules` lists the changes that these functions make; a relation that allows them is kept by
each function.
-/

namespace Sintr.Phase1

open State

inductive Announces (T : Option Transaction) (d : Digest) (r : CCResult) : LogEntry → Prop where
  | buffer : Announces T d r (.buffer T d r)
  | reply (reqId : UInt64) : Announces T d r (.reply T d r reqId)
  | fbReply : Announces T d r (.fbReply d r)

structure VoteRules (I : State → Prop) (R : State → State → Prop)
    (ok : State → Option Transaction → Digest → CCResult → Prop) : Prop where
  inv : ∀ {s s'}, R s s' → I s'
  refl : ∀ {s}, I s → R s s
  trans : ∀ {s s' s''}, R s s' → R s' s'' → R s s''
  ok_mono : ∀ {s s' T d r}, R s s' → ok s T d r → ok s' T d r
  /-- A transaction that may get COMMIT may get any result. -/
  ok_commit : ∀ {s T d} r, ok s T d .commit → ok s T d r
  stored : ∀ {s T d r m}, I s → s.p1MetaData d = some m → m.hasP1 = true → ok s T d r →
    ok s T d m.result
  waiting : ∀ {s d}, I s → (s.waitingDependencies d).isSome → ok s none d .commit
  other : ∀ {s}, I s → ∀ aborted writebackMessages interestedClients dependents crashed,
    R s { s with aborted, writebackMessages, interestedClients, dependents, crashed }
  announce : ∀ {s T d r e}, I s → ok s T d r → Announces T d r e → R s (s.record e)
  store : ∀ {s T d m}, I s → ok s T d m.result → R s (s.setP1MetaData d m)
  wait : ∀ {s d}, I s → ok s none d .commit → ∀ deps : List Digest,
    R s { s with waitingDependencies := Function.update s.waitingDependencies d (some deps) }
  stopWaiting : ∀ {s d}, I s → R s (s.cleanDependencies d)

theorem mergeResult_of {P : CCResult → Prop} {m : P1MetaData} {r : CCResult}
    {c : Option CommittedProof} (hm : m.hasP1 = true → P m.result) (hr : P r) :
    P (State.mergeResult m r c).1.result ∧ P (State.mergeResult m r c).2 := by
  unfold State.mergeResult
  cases hP1 : m.hasP1 with
  | false => exact ⟨hr, hr⟩
  | true =>
    have hold := hm hP1
    by_cases hw : r = .wait
    · simpa [hw] using ⟨hold, hw ▸ hr⟩
    · by_cases hmw : m.result = .wait
      · simpa [hw, hmw] using hr
      · simpa [hw, hmw] using hold

@[simp] theorem subscribe_result (m : P1MetaData) (r : CCResult) (reqId : UInt64) (g : Bool)
    (c : Caller) : (State.subscribe m r reqId g c).result = m.result := by
  unfold State.subscribe
  split
  · cases c <;> rfl
  · rfl

section
variable {I : State → Prop} {R : State → State → Prop}
  {ok : State → Option Transaction → Digest → CCResult → Prop} {env : Env} {s : State}
  {d : Digest} {r : CCResult} {T : Option Transaction} {txn : Transaction}

namespace VoteRules

variable (h : VoteRules I R ok)
include h

theorem panic (hs : I s) : R s s.panic := h.other hs _ _ _ _ _

theorem sendPhase1Reply (hs : I s) (reqId : UInt64)
    (c : Option CommittedProof) (hr : ok s T d r) :
    R s (s.sendPhase1Reply env reqId r c T d) := by
  unfold State.sendPhase1Reply
  split
  · exact h.panic hs
  · exact h.announce hs hr (.reply reqId)

theorem bufferP1Result (hs : I s) (c : Option CommittedProof)
    (reqId : UInt64) (g : Bool) (caller : Caller) (hr : ok s T d r)
    (hclean : r = .ignore → R s (s.clean d true)) :
    R s (s.bufferP1Result r c T d reqId g caller).state ∧
      ok s T d (s.bufferP1Result r c T d reqId g caller).result := by
  unfold State.bufferP1Result
  split
  · rename_i hignore
    exact ⟨hclean hignore, hignore ▸ hr⟩
  · have hold : ((s.p1MetaData d).getD {}).hasP1 = true →
        ok s T d ((s.p1MetaData d).getD {}).result := by
      cases hm : s.p1MetaData d with
      | none => exact nofun
      | some m => exact fun hP1 => h.stored hs hm hP1 hr
    obtain ⟨hentry, hresult⟩ := mergeResult_of (c := c) hold hr
    have hput : ∀ m : P1MetaData,
        m.result = (State.mergeResult ((s.p1MetaData d).getD {}) r c).1.result →
        R s ((s.setP1MetaData d m).record (.buffer T d m.result)) := by
      intro m hm
      rw [← hm] at hentry
      have hset := h.store hs hentry
      exact h.trans hset (h.announce (h.inv hset) (h.ok_mono hset hentry) .buffer)
    dsimp only
    split
    · exact ⟨hput _ (subscribe_result ..), hresult⟩
    · exact ⟨hput { subscribe _ _ reqId g caller with
        subOriginal := none, fallbacksInterested := false } (subscribe_result ..), hresult⟩

theorem wakeAllInterestedFallbacks (hs : I s) (hr : ok s T d r) :
    R s (s.wakeAllInterestedFallbacks d r) := by
  unfold State.wakeAllInterestedFallbacks
  split
  · exact h.refl hs
  · split
    · exact h.other hs _ _ _ _ _
    · exact h.announce hs hr .fbReply

theorem handlePhase1CB (hs : I s) (reqId : UInt64)
    (c : Option CommittedProof) (g : Bool) (hr : ok s (some txn) d r) :
    R s (s.handlePhase1CB env reqId r c d txn g) := by
  unfold State.handlePhase1CB
  split
  · exact h.refl hs
  · rename_i hignore
    obtain ⟨hb, hvote⟩ := h.bufferP1Result hs c reqId g .original hr fun hr => absurd hr hignore
    generalize s.bufferP1Result r c (some txn) d reqId g .original = b at hb hvote ⊢
    have hsend : R b.state (if (b.result ≠ .wait ∧ !g) ∨ b.subOriginal.isSome
        then b.state.sendPhase1Reply env reqId b.result c (some txn) d else b.state) := by
      split
      · exact h.sendPhase1Reply (h.inv hb) reqId c (h.ok_mono hb hvote)
      · exact h.refl (h.inv hb)
    refine h.trans hb (iteInduction (fun _ => ?_) fun _ => hsend)
    exact h.trans hsend (h.wakeAllInterestedFallbacks (h.inv hsend)
      (h.ok_mono hsend (h.ok_mono hb hvote)))

theorem answer (hs : I s) (o : Option UInt64) (c : Option CommittedProof)
    (hr : ok s T d r) : R s (match o with
      | some reqId => s.sendPhase1Reply env reqId r c T d
      | none => s) := by
  cases o with
  | none => exact h.refl hs
  | some reqId => exact h.sendPhase1Reply hs reqId c hr

theorem execP1 (s₀ : State) {i : CCInput} {reqId : UInt64} {o : OCCResult}
    (ho : (s.record (.execP1 txn d)).doOCCCheck env i reqId d txn true false = o)
    (hs : R s₀ o.state) (hr : ok o.state (some txn) d o.result)
    (hclean : o.result = .ignore → R o.state (o.state.clean d true)) :
    R s₀ (s.execP1 env i reqId d txn) := by
  subst ho
  unfold State.execP1
  generalize (s.record (.execP1 txn d)).doOCCCheck env i reqId d txn true false = o
    at hs hr hclean ⊢
  obtain ⟨hb, hvote⟩ := h.bufferP1Result (h.inv hs) o.conflict 0 false .fallback hr hclean
  dsimp only
  generalize o.state.bufferP1Result o.result o.conflict (some txn) d 0 false .fallback = b
    at hb hvote ⊢
  have hans : R b.state (match b.subOriginal with
      | some reqId => b.state.sendPhase1Reply env reqId b.result o.conflict (some txn) d
      | none => b.state) := h.answer (h.inv hb) _ _ (h.ok_mono hb hvote)
  have hall := h.trans hs (h.trans hb hans)
  refine iteInduction (fun _ => hs) fun _ => iteInduction (fun _ => hall) fun _ => ?_
  exact h.trans hall (h.announce (h.inv hans) (h.ok_mono hans (h.ok_mono hb hvote)) .fbReply)

theorem manageDependencies (hs : I s) (hr : ok s none d .commit) :
    R s (s.manageDependencies env d txn).2 := by
  unfold State.manageDependencies
  split
  · exact h.refl hs
  · dsimp only
    split
    · exact h.refl hs
    · split
      · exact h.refl hs
      · have hwait := h.wait hs hr
        exact h.trans (hwait _) (h.other (h.inv (hwait _)) _ _ _ _ _)

theorem dependencyCheck (hs : I s) (hr : ok s none d .commit) :
    R s (s.dependencyCheck env d txn).2 := by
  unfold State.dependencyCheck
  dsimp only
  split
  · exact h.manageDependencies hs hr
  · exact h.manageDependencies hs hr

end VoteRules

structure EndRules (I : State → Prop) (R : State → State → Prop)
    (ok : State → Option Transaction → Digest → CCResult → Prop) : Prop
    extends VoteRules I R ok where
  clean : ∀ {s d}, I s → ∀ hard, R s (s.clean d hard)

namespace EndRules

variable (h : EndRules I R ok)
include h

theorem wakeDependent (hs : I s) (hw : (s.waitingDependencies d).isSome) :
    R s (s.wakeDependent env d) := by
  have hok := h.waiting hs hw
  unfold State.wakeDependent
  split
  · exact h.panic hs
  · rename_i r _
    obtain ⟨hb, hvote⟩ := h.bufferP1Result hs none 0 false .dependency (h.ok_commit r hok)
      fun _ => h.clean hs true
    generalize s.bufferP1Result r none none d 0 false .dependency = b at hb hvote ⊢
    have hans : R b.state (match b.subOriginal with
        | some reqId => b.state.sendPhase1Reply env reqId b.result none none d
        | none => b.state) := h.answer (h.inv hb) _ _ (h.ok_mono hb hvote)
    have hwake : ∀ s₁, R b.state s₁ →
        R b.state (if s₁.crashed then s₁ else s₁.wakeAllInterestedFallbacks d b.result) :=
      fun s₁ hs₁ => iteInduction (fun _ => hs₁) fun _ => h.trans hs₁
        (h.wakeAllInterestedFallbacks (h.inv hs₁) (h.ok_mono hs₁ (h.ok_mono hb hvote)))
    exact h.trans (h.trans hb (hwake _ hans)) (h.stopWaiting (h.inv (hwake _ hans)))

theorem checkDependent (hs : I s) (dependent : Digest) :
    R s (State.checkDependent env d s dependent) := by
  unfold State.checkDependent
  split
  · exact h.refl hs
  · split
    · exact h.refl hs
    · rename_i deps hdeps
      have hw : (s.waitingDependencies dependent).isSome := Option.isSome_iff_exists.2 ⟨deps, hdeps⟩
      split
      · exact h.wakeDependent hs hw
      · exact h.wait hs (h.waiting hs hw) _

theorem foldl {α : Type} {f : State → α → State}
    (hf : ∀ s a, I s → R s (f s a)) (hs : I s) (l : List α) : R s (l.foldl f s) := by
  induction l generalizing s with
  | nil => exact h.refl hs
  | cons a l ih => exact h.trans (hf s a hs) (ih (h.inv (hf s a hs)))

theorem checkDependents (hs : I s) : R s (s.checkDependents env d) := by
  have hall : R s ((s.dependents d).foldl (State.checkDependent env d) s) :=
    h.foldl (fun _ a hs => h.checkDependent hs a) hs _
  exact h.trans hall (h.other (h.inv hall) _ _ _ _ _)

theorem finish (hs : I s) :
    R s (((s.clean d false).checkDependents env d).cleanDependencies d) := by
  have hclean : R s (s.clean d false) := h.clean hs false
  have hdeps : R _ (State.checkDependents env _ d) := h.checkDependents (h.inv hclean)
  exact h.trans (h.trans hclean hdeps) (h.stopWaiting (h.inv hdeps))

theorem abort (hs : I s) : R s (s.abort env d) := by
  have hmark : R s { s with aborted := Function.update s.aborted d true } :=
    h.other hs _ _ _ _ _
  exact h.trans hmark (h.finish (h.inv hmark))

theorem mvtsoAborted (hs : I s) (c : CommittedProof) :
    R s (s.mvtsoAborted env d c).state := by
  have hmark : R s { s with writebackMessages := Function.update s.writebackMessages d true } :=
    h.other hs _ _ _ _ _
  have hab : R s (State.abort env _ d) := h.trans hmark (h.abort (h.inv hmark))
  unfold State.mvtsoAborted
  dsimp only
  split
  · exact hab
  · exact hab

end EndRules

end

end Sintr.Phase1
