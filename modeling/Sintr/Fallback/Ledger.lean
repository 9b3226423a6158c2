import Sintr.Fallback.Acts

/-!
# Decisions and the history

What the handlers do to the logged decisions and to the history is one of a few moves. `Move` lists
them, on a `Ledger` that has nothing else. `step_moves` takes them from the actions of the handlers,
and `run_ledger` is the rule for what every move keeps.
-/

namespace Sintr.Fallback

open Quorum Relation

structure Ledger where
  p2 : Digest → P2MetaData
  log : List Entry

namespace Ledger

def add (l : Ledger) (e : Entry) : Ledger := { l with log := l.log ++ [e] }

def set (l : Ledger) (d : Digest) (m : P2MetaData) : Ledger :=
  { l with p2 := Function.update l.p2 d m }

end Ledger

/-- An entry that says nothing of decisions. -/
def Entry.Neutral : Entry → Prop
  | .view .. => True
  | .decisionFB .. => True
  | .moveView .. => True
  | .raise .. => True
  | _ => False

/-- What a handler may do for `e`, which has come in the state `s₀`. -/
inductive Move (env : Env) (s₀ : State) (e : Event) (l : Ledger) : Ledger → Prop where
  | note (x : Entry) (hx : x.Neutral) : Move env s₀ e l (l.add x)
  | original (d : Digest) (r : Option UInt64) :
      Move env s₀ e l (l.set d { l.p2 d with original := r })
  | reply (d : Digest) (v : Option UInt64) (h : (l.p2 d).hasP2 = true)
      (hv : ∀ w, v = some w → w = (l.p2 d).decisionView) :
      Move env s₀ e l (l.add (.reply d (l.p2 d).p2Decision v))
  | misreply (d : Digest) (c : CommitDecision) (v : Option UInt64) (h : Stale s₀ e) :
      Move env s₀ e l (l.add (.reply d c v))
  | finished (d : Digest) (c : CommitDecision) (h : (l.p2 d).hasP2 = false)
      (hc : s₀.ended d c = true) :
      Move env s₀ e l ((l.add (.finished d c)).add (.reply d c (some 0)))
  | echo (d : Digest) (c : CommitDecision) (h : (l.p2 d).hasP2 = false) :
      Move env s₀ e l (l.add (.reply d c none))
  | reset (d : Digest) (h : (l.p2 d).hasP2 = false) :
      Move env s₀ e l (l.set d { l.p2 d with decisionView := 0 })
  | store (d : Digest) (c : CommitDecision) (h : (l.p2 d).hasP2 = false)
      (hc : Stores env s₀ e d c) :
      Move env s₀ e l ((l.set d { l.p2 d with p2Decision := c, hasP2 := true }).add (.store d c))
  | elect (d : Digest) (v : UInt64) (h : (l.p2 d).hasP2 = true) (hv : (l.p2 d).currentView < v) :
      Move env s₀ e l ((l.set d { l.p2 d with currentView := v }).add
        (.elect d v (l.p2 d).p2Decision))
  | electAll (d : Digest) (v : UInt64) (h : (l.p2 d).hasP2 = true)
      (ha : env.params.allToAllFb = true) :
      Move env s₀ e l (l.add (.elect d v (l.p2 d).p2Decision))
  | adopt (d : Digest) (v : UInt64) (c : CommitDecision) (hv : (l.p2 d).currentView ≤ v)
      (hc : Adopts env s₀ e d v c) :
      Move env s₀ e l (((l.set d (State.adopted (l.p2 d) v c)).add
        (.adopt d v c ((l.p2 d).decisionView < v))).add (.reply d c (some v)))
  | moveTo (d : Digest) (v : UInt64)
      (hv : env.params.allToAllFb = true ∨ (l.p2 d).currentView < v) :
      Move env s₀ e l (l.set d { l.p2 d with currentView := v })

def State.ledger (s : State) : Ledger := ⟨s.p2MetaDatas, s.log⟩

def Moves (env : Env) (s₀ : State) (e : Event) (s s' : State) : Prop :=
  ReflTransGen (Move env s₀ e) s.ledger s'.ledger

namespace State

/-- The view the replica is in after it has adopted a decision of `view`. -/
def viewAfter (m : P2MetaData) (view : UInt64) : UInt64 :=
  if m.currentView < view then view else m.currentView

variable {m : P2MetaData} {view : UInt64}

theorem viewAfter_of_le (h : m.currentView ≤ view) :
    viewAfter m view = view := by
  unfold viewAfter
  by_cases hlt : m.currentView < view
  · exact if_pos hlt
  · rw [if_neg hlt]
    exact UInt64.le_antisymm h (UInt64.not_lt.1 hlt)

theorem adopted_later (h : m.decisionView < view) (decision : CommitDecision) :
    adopted m view decision =
      { m with currentView := viewAfter m view, decisionView := view, p2Decision := decision,
               hasP2 := true } := by
  unfold adopted viewAfter
  by_cases hview : m.currentView < view <;> simp [hview, h]

theorem adopted_same (h : ¬m.decisionView < view) (decision : CommitDecision) :
    adopted m view decision = { m with currentView := viewAfter m view } := by
  unfold adopted viewAfter
  by_cases hview : m.currentView < view <;> simp [hview, h]

end State

/-! ## From actions to moves -/

section
variable {env : Env} {s₀ : State} {e : Event} {s s' : State}

theorem Moves.of_eq (h : s'.ledger = s.ledger) : Moves env s₀ e s s' := by
  unfold Moves
  rw [h]

theorem Moves.castMoveView (s : State) (d : Digest) (v : UInt64) :
    Moves env s₀ e s (s.castMoveView d v).1 :=
  ReflTransGen.single (.note (.moveView d v) trivial)

theorem Moves.countMoveView (s : State) (d : Digest) (v : UInt64) (self : Bool) :
    Moves env s₀ e s (s.countMoveView d v self).1 := by
  unfold State.countMoveView
  dsimp only
  split_ifs
  · exact .castMoveView s d v
  · exact .of_eq rfl
  · exact .of_eq rfl

theorem Moves.processMoveView (s : State) (d : Digest) (v : UInt64) (self : Bool) :
    Moves env s₀ e s (s.processMoveView env d v self) := by
  have hcount : Moves env s₀ e s _ := .countMoveView s d v self
  unfold State.processMoveView
  generalize s.countMoveView d v self = r at hcount ⊢
  dsimp only
  split
  · exact hcount
  · rename_i hview
    rw [UInt64.not_le] at hview
    obtain ⟨r', hr', hmoves, hp2⟩ : ∃ r', r' = (if r.2 = env.config.f + 1 ∧
        (r.1.moveViewCounts d v).2 = true then r.1.castMoveView d v else r) ∧
        Moves env s₀ e r.1 r'.1 ∧ r'.1.p2MetaDatas = r.1.p2MetaDatas := by
      refine ⟨_, rfl, ?_⟩
      split
      · exact ⟨.castMoveView r.1 d v, rfl⟩
      · exact ⟨.of_eq rfl, rfl⟩
    rw [← hr']
    split
    · have hmove : Move env s₀ e r'.1.ledger (r'.1.moveTo d v).ledger :=
        .moveTo d v (.inr (by rwa [← hp2] at hview))
      exact ReflTransGen.trans hcount (ReflTransGen.trans hmoves
        (ReflTransGen.tail (ReflTransGen.single hmove) (.note (.raise d v) trivial)))
    · exact ReflTransGen.trans hcount hmoves

theorem Moves.adoptDecision {d : Digest} {v : UInt64} {c : CommitDecision}
    (hc : Adopts env s₀ e d v c) (s : State) : Moves env s₀ e s (s.adoptDecision d v c) := by
  unfold State.adoptDecision
  split
  · exact .of_eq rfl
  · rename_i hv
    exact ReflTransGen.single (.adopt d v c (UInt64.not_lt.1 hv) hc)

theorem Moves.processElectFB {d : Digest} {v : UInt64} {c : CommitDecision}
    (hc : (s.electQuorums d v c).sigs.length = 2 * env.config.f → Adopts env s₀ e d v c)
    (sig : Signature) : Moves env s₀ e s (s.processElectFB env d v c sig) := by
  unfold State.processElectFB
  dsimp only
  split_ifs with _ _ hlen
  · exact .of_eq rfl
  · exact .of_eq rfl
  · refine ReflTransGen.trans ?_ (Moves.adoptDecision (hc (by simpa using hlen)) _)
    exact ReflTransGen.single (.note (.decisionFB d v c _) trivial)
  · exact .of_eq rfl

theorem Does.moves (h : Does env s₀ e s s') : Moves env s₀ e s s' := by
  cases h with
  | sendView d => exact ReflTransGen.single (.note (.view d _) trivial)
  | original d r => exact ReflTransGen.single (.original d r)
  | reply d v h hv => exact ReflTransGen.single (.reply d v h hv)
  | misreply d c v h => exact ReflTransGen.single (.misreply d c v h)
  | replyFinished d c h hc => exact ReflTransGen.single (.finished d c h hc)
  | echo d c h => exact ReflTransGen.single (.echo d c h)
  | reset d h => exact ReflTransGen.single (.reset d h)
  | store d c h hc => exact ReflTransGen.single (.store d c h hc)
  | elect d v h hv => exact ReflTransGen.single (.elect d v h hv)
  | electAll d v h ha => exact ReflTransGen.single (.electAll d v h ha)
  | adoptDecision d v c hc => exact .adoptDecision hc s
  | moveTo d v ha => exact ReflTransGen.single (.moveTo d v (.inl ha))
  | moveView d v self _ => exact .processMoveView s d v self
  | preProcessElectFB d v c voter s' h _ =>
    rw [(s.preProcessElectFB_some d h).2]
    exact .of_eq rfl
  | processElectFB d v c sig _ hc => exact .processElectFB hc sig
  | push | panic | clearInterested => exact .of_eq rfl

theorem step_moves (env : Env) (s : State) (e : Event) : Moves env s e s (step env s e) := by
  obtain ⟨o, rfl, -, heq⟩ | ⟨s', hs', hacts⟩ := step_acts env s e
  · rw [heq]
    cases o <;> exact .of_eq rfl
  · have hmoves : Moves env s e s' (step env s e) := by
      generalize step env s e = t at hacts ⊢
      induction hacts with
      | refl => exact .of_eq rfl
      | tail _ hdoes ih => exact ReflTransGen.trans ih hdoes.moves
    obtain rfl | ⟨k, schedule, stale, t, -, -, rfl⟩ := hs' <;> exact hmoves

/-! ## Invariants -/

theorem Moves.keep {P : Ledger → Prop} (move : ∀ l l', Move env s₀ e l l' → P l → P l')
    (h : Moves env s₀ e s s') (hs : P s.ledger) : P s'.ledger := by
  unfold Moves at h
  generalize s'.ledger = l' at h ⊢
  induction h with
  | refl => exact hs
  | tail _ hmove ih => exact move _ _ hmove ih

/-- What the moves keep of the steps that meet `Q` holds after every run of such steps. -/
theorem run_ledger_along {Q : State → Event → Prop} {P : Ledger → Prop}
    (move : ∀ s e, Q s e → ∀ l l', Move env s e l l' → P l → P l') (init : P s.ledger)
    {es : List Event} (hes : (fallbackMachine env).Along Q s es) :
    P ((fallbackMachine env).run s es).ledger :=
  Machine.run_along (I := fun t => P t.ledger)
    (fun t e he => (step_moves env t e).keep (move t e he)) init hes

theorem run_ledger {P : Ledger → Prop}
    (move : ∀ s e l l', Move env s e l l' → P l → P l') (init : P s.ledger) (es : List Event) :
    P ((fallbackMachine env).run s es).ledger :=
  run_ledger_along (Q := fun _ _ => True) (fun s e _ => move s e) init
    (Machine.along_of_forall fun _ _ => trivial)

end

/-! ## Logged decisions -/

/-- A decision that is logged stays so, and changes only with a later view. -/
def Stays (m m' : P2MetaData) : Prop :=
  m.hasP2 = true → m'.hasP2 = true ∧ m.decisionView ≤ m'.decisionView ∧
    (m'.decisionView = m.decisionView → m'.p2Decision = m.p2Decision)

theorem Stays.move {m : P2MetaData} {env : Env} {s : State} {e : Event} {l l' : Ledger}
    {d : Digest} (hm : Move env s e l l') (hs : Stays m (l.p2 d)) : Stays m (l'.p2 d) := by
  have hset {d' : Digest} {m' : P2MetaData} (h' : d = d' → Stays m m') :
      Stays m ((l.set d' m').p2 d) := by
    by_cases hd : d = d'
    · simpa [Ledger.set, hd] using h' hd
    · simpa [Ledger.set, Function.update_of_ne hd] using hs
  cases hm with
  | note | reply | misreply | finished | echo | electAll => exact hs
  | original d' r => exact hset fun hd => hd ▸ hs
  | elect d' v | moveTo d' v => exact hset fun hd => hd ▸ hs
  | reset d' hP2 | store d' c hP2 =>
    refine hset fun hd hlogged => ?_
    rw [← hd, (hs hlogged).1] at hP2
    cases hP2
  | adopt d' v c =>
    refine hset fun hd hlogged => ?_
    subst hd
    obtain ⟨hP2, hle, heq⟩ := hs hlogged
    by_cases hv : (l.p2 d).decisionView < v
    · rw [State.adopted_later hv]
      have hlt := UInt64.lt_of_le_of_lt hle hv
      exact ⟨rfl, UInt64.le_of_lt hlt, fun hv' => absurd (hv' ▸ hlt) (UInt64.lt_irrefl _)⟩
    · rw [State.adopted_same hv]
      exact ⟨hP2, hle, heq⟩

/-- **A logged decision stays**, whatever messages come. -/
theorem decisions_stay (env : Env) (s : State) (es : List Event) (d : Digest) :
    Stays (s.p2MetaDatas d) (((fallbackMachine env).run s es).p2MetaDatas d) :=
  run_ledger (P := fun l => Stays (s.p2MetaDatas d) (l.p2 d))
    (fun _ _ _ _ hm h => h.move hm) (fun hl => ⟨hl, UInt64.le_refl _, fun _ => rfl⟩) es

end Sintr.Fallback
