import Sintr.Fallback.Callbacks
import Sintr.Fallback.Ledger

/-!
# Phase2 replies of one view

A Phase2 reply says which decision a replica has logged, and in which view. Every such reply goes
back to an entry of the history that decided for this view (`Backed`): the first decision that was
logged or found finished (view 0), or one that `AdoptDecision` let pass.

First decisions are unique, whichever of Phase2, Phase2FB and InvokeFB brought them. What
`AdoptDecision` lets pass is not: the guard refuses earlier views only, and a second decision for
the same view is answered though it is not logged. Nor need the first decision be the one that the
transaction ends with, and a callback of Phase2 may answer for another transaction.
-/

namespace Sintr.Fallback

open List Function

inductive Entry.Decides (d : Digest) : UInt64 → CommitDecision → Entry → Prop where
  | store {c : CommitDecision} : Decides d 0 c (.store d c)
  | finished {c : CommitDecision} : Decides d 0 c (.finished d c)
  | adopt {v : UInt64} {c : CommitDecision} {logged : Bool} : Decides d v c (.adopt d v c logged)

def Decided (log : List Entry) (d : Digest) (v : UInt64) (c : CommitDecision) : Prop :=
  ∃ e ∈ log, e.Decides d v c

theorem Decided.append {log es : List Entry} {d : Digest} {v : UInt64} {c : CommitDecision}
    (h : Decided log d v c) : Decided (log ++ es) d v c := by
  obtain ⟨e, he, hd⟩ := h
  exact ⟨e, mem_append_left es he, hd⟩

/-! ## The invariant -/

/-- What is logged for `d` has a cause in the history. -/
structure BackedAt (log : List Entry) (d : Digest) (m : P2MetaData) : Prop where
  logged : m.hasP2 = true → Decided log d m.decisionView m.p2Decision
  unlogged : m.hasP2 = false → m.decisionView = 0 ∧ ∀ c, .store d c ∉ log

structure Backed (l : Ledger) : Prop where
  backedAt : ∀ d, BackedAt l.log d (l.p2 d)
  replies : ∀ d c v, .reply d c (some v) ∈ l.log → Decided l.log d v c
  storeOnce : ∀ d c c', .store d c ∈ l.log → .store d c' ∈ l.log → c = c'

theorem BackedAt.append {log es : List Entry} {d : Digest} {m : P2MetaData}
    (h : BackedAt log d m) (hes : ∀ c, .store d c ∉ es) : BackedAt (log ++ es) d m where
  logged hP2 := (h.logged hP2).append
  unlogged hP2 := by
    refine ⟨(h.unlogged hP2).1, fun c hmem => ?_⟩
    rcases mem_append.1 hmem with hold | hnew
    · exact (h.unlogged hP2).2 c hold
    · exact hes c hnew

namespace Backed

variable {l : Ledger}

theorem add (h : Backed l) {e : Entry} (hstore : ∀ d c, e ≠ .store d c)
    (hreply : ∀ d c v, e = .reply d c (some v) → Decided l.log d v c) : Backed (l.add e) where
  backedAt d := by
    refine (h.backedAt d).append fun c hmem => ?_
    exact hstore d c (mem_singleton.1 hmem).symm
  replies d c v hmem := by
    rcases mem_append.1 hmem with hold | hnew
    · exact (h.replies d c v hold).append
    · exact (hreply d c v (mem_singleton.1 hnew).symm).append
  storeOnce d c c' hmem hmem' := by
    have hold : ∀ c, .store d c ∈ l.log ++ [e] → .store d c ∈ l.log := by
      intro c hm
      rcases mem_append.1 hm with hm | hm
      · exact hm
      · exact absurd (mem_singleton.1 hm).symm (hstore d c)
    exact h.storeOnce d c c' (hold c hmem) (hold c' hmem')

variable {d : Digest}

theorem set (h : Backed l) {m : P2MetaData} (hm : BackedAt l.log d m) :
    Backed (l.set d m) where
  backedAt d' := by
    by_cases hd : d' = d
    · subst hd
      simpa [Ledger.set] using hm
    · simpa [Ledger.set, update_of_ne hd] using h.backedAt d'
  replies := h.replies
  storeOnce := h.storeOnce

theorem addStore (h : Backed l) (hP2 : (l.p2 d).hasP2 = false) (c : CommitDecision) :
    Backed ((l.set d { l.p2 d with p2Decision := c, hasP2 := true }).add (.store d c)) where
  backedAt d' := by
    by_cases hd : d' = d
    · subst hd
      simp only [Ledger.add, Ledger.set, update_self]
      refine ⟨fun _ => ⟨.store d' c, by simp, ?_⟩, fun hf => by cases hf⟩
      rw [((h.backedAt d').unlogged hP2).1]
      exact .store
    · simp only [Ledger.add, Ledger.set, update_of_ne hd]
      exact (h.backedAt d').append fun c' hmem => hd (by simp at hmem; exact hmem.1)
  replies d' c' v hmem := by
    rcases mem_append.1 hmem with hold | hnew
    · exact (h.replies d' c' v hold).append
    · simp at hnew
  storeOnce d' c₁ c₂ h₁ h₂ := by
    -- the new decision is the first for `d`
    have hfirst := ((h.backedAt d).unlogged hP2).2
    simp only [Ledger.add, Ledger.set, mem_append, mem_singleton,
      Entry.store.injEq] at h₁ h₂
    rcases h₁ with h₁ | ⟨rfl, rfl⟩ <;> rcases h₂ with h₂ | ⟨hd, hc⟩
    · exact h.storeOnce d' c₁ c₂ h₁ h₂
    · subst hd
      exact absurd h₁ (hfirst c₁)
    · exact absurd h₂ (hfirst c₂)
    · exact hc.symm

theorem addReply (h : Backed l) {c : CommitDecision} {v : UInt64} (hd : Decided l.log d v c) :
    Backed (l.add (.reply d c (some v))) := by
  refine h.add (by simp) ?_
  rintro d' c' v' heq
  cases heq
  exact hd

theorem move {env : Env} {s : State} {e : Event} {l' : Ledger} (he : ¬ Stale s e)
    (hm : Move env s e l l') (h : Backed l) : Backed l' := by
  cases hm with
  | misreply d c v hstale => exact absurd hstale he
  | note e he =>
    refine h.add ?_ ?_
    · rintro d c rfl
      exact he
    · rintro d c v rfl
      exact he.elim
  | original d r => exact h.set ⟨(h.backedAt d).logged, (h.backedAt d).unlogged⟩
  | reply d v hP2 hv =>
    refine h.add (by simp) ?_
    rintro d' c' w heq
    cases heq
    rw [hv w rfl]
    exact (h.backedAt d).logged hP2
  | finished d c _ _ =>
    have hadd : Backed (l.add (.finished d c)) := h.add (by simp) (by simp)
    exact hadd.addReply ⟨.finished d c, by simp [Ledger.add], .finished⟩
  | echo d c _ => exact h.add (by simp) (by simp)
  | reset d hP2 =>
    refine h.set ⟨fun ht => ?_, fun _ => ⟨rfl, ((h.backedAt d).unlogged hP2).2⟩⟩
    rw [hP2] at ht
    cases ht
  | store d c hP2 _ => exact h.addStore hP2 c
  | elect d v _ _ =>
    have hset : Backed (l.set d { l.p2 d with currentView := v }) :=
      h.set ⟨(h.backedAt d).logged, (h.backedAt d).unlogged⟩
    exact hset.add (by simp) (by simp)
  | electAll d v _ _ => exact h.add (by simp) (by simp)
  | adopt d v c _ _ =>
    have hadd : Backed (l.add (.adopt d v c ((l.p2 d).decisionView < v))) :=
      h.add (by simp) (by simp)
    have hdecided : Decided (l.add (.adopt d v c ((l.p2 d).decisionView < v))).log d v c :=
      ⟨_, mem_append_right _ (mem_singleton.2 rfl), .adopt⟩
    refine (hadd.set ?_).addReply hdecided
    by_cases hlater : (l.p2 d).decisionView < v
    · rw [State.adopted_later hlater]
      exact ⟨fun _ => hdecided, fun hf => by cases hf⟩
    · rw [State.adopted_same hlater]
      exact ⟨(hadd.backedAt d).logged, (hadd.backedAt d).unlogged⟩
  | moveTo d v _ => exact h.set ⟨(h.backedAt d).logged, (h.backedAt d).unlogged⟩

end Backed

/-! ## Runs -/

structure Fresh (s : State) : Prop where
  p2 : ∀ d, s.p2MetaDatas d = {}
  log : s.log = []

theorem Fresh.backed {s : State} (hs : Fresh s) : Backed s.ledger := by
  refine ⟨fun d => ⟨?_, ?_⟩, ?_, ?_⟩
  · simp [State.ledger, hs.p2]
  · simp [State.ledger, hs.p2, hs.log]
  · simp [State.ledger, hs.log]
  · simp [State.ledger, hs.log]

/-- What an event brings agrees with `chosen`, the decisions of the views, and with `ended`, how
transactions end: a leader's decision is that of its view, which is not the first, and a first
decision is not for a transaction that ends otherwise. A callback of Phase2 finds its digest. -/
structure Agrees (env : Env) (chosen : Digest → UInt64 → CommitDecision)
    (ended : Digest → CommitDecision → Bool) (s : State) (e : Event) : Prop where
  found : ¬ Stale s e
  adopts : ∀ d v c, Adopts env s e d v c → v ≠ 0 ∧ c = chosen d v
  stores : ∀ d c c', Stores env s e d c → ended d c' = true → c = c'

section
variable {env : Env} {chosen : Digest → UInt64 → CommitDecision}
  {ended : Digest → CommitDecision → Bool} {l l' : Ledger}

/-- The history agrees with both as well. -/
structure AgreesSoFar (chosen : Digest → UInt64 → CommitDecision)
    (ended : Digest → CommitDecision → Bool) (log : List Entry) : Prop where
  adopted : ∀ d v c b, .adopt d v c b ∈ log → v ≠ 0 ∧ c = chosen d v
  finished : ∀ d c, .finished d c ∈ log → ended d c = true
  stored : ∀ d c c', .store d c ∈ log → ended d c' = true → c = c'

theorem AgreesSoFar.snoc {log : List Entry} (h : AgreesSoFar chosen ended log) {x : Entry}
    (hadopt : ∀ d v c b, x = .adopt d v c b → v ≠ 0 ∧ c = chosen d v)
    (hfinished : ∀ d c, x = .finished d c → ended d c = true)
    (hstore : ∀ d c c', x = .store d c → ended d c' = true → c = c') :
    AgreesSoFar chosen ended (log ++ [x]) := by
  refine ⟨fun d v c b hm => ?_, fun d c hm => ?_, fun d c c' hm => ?_⟩
  · exact (mem_append.1 hm).elim (h.adopted d v c b) fun hx =>
      hadopt d v c b (mem_singleton.1 hx).symm
  · exact (mem_append.1 hm).elim (h.finished d c) fun hx => hfinished d c (mem_singleton.1 hx).symm
  · exact (mem_append.1 hm).elim (h.stored d c c') fun hx =>
      hstore d c c' (mem_singleton.1 hx).symm

theorem AgreesSoFar.reply {log : List Entry} (h : AgreesSoFar chosen ended log) (d : Digest)
    (c : CommitDecision) (v : Option UInt64) : AgreesSoFar chosen ended (log ++ [.reply d c v]) :=
  h.snoc (by simp) (by simp) (by simp)

theorem AgreesSoFar.move {s : State} {e : Event} (he : Agrees env chosen ended s e)
    (hended : ∀ d c, s.ended d c = true → ended d c = true) (hm : Move env s e l l')
    (h : AgreesSoFar chosen ended l.log) : AgreesSoFar chosen ended l'.log := by
  cases hm with
  | original | reset | moveTo => exact h
  | reply d v | misreply d c v | echo d c => exact h.reply d _ _
  | elect | electAll => exact h.snoc (by simp) (by simp) (by simp)
  | note x hx =>
    refine h.snoc ?_ ?_ ?_
    · rintro d v c b rfl
      exact hx.elim
    · rintro d c rfl
      exact hx.elim
    · rintro d c c' rfl
      exact hx.elim
  | finished d c hP2 hc =>
    refine (h.snoc (by simp) ?_ (by simp)).reply d c (some 0)
    rintro _ _ ⟨⟩
    exact hended d c hc
  | store d c hP2 hc =>
    refine h.snoc (by simp) (by simp) ?_
    rintro _ _ c' ⟨⟩
    exact he.stores d c c' hc
  | adopt d v c hv hc =>
    refine (h.snoc ?_ (by simp) (by simp)).reply d c (some v)
    rintro _ _ _ _ ⟨⟩
    exact he.adopts d v c hc

theorem Decided.unique (h : Backed l) (ha : AgreesSoFar chosen ended l.log)
    (hended : ∀ d, ¬ (ended d .commit = true ∧ ended d .abort = true)) {d : Digest} {v : UInt64}
    {c c' : CommitDecision} (hc : Decided l.log d v c) (hc' : Decided l.log d v c') : c = c' := by
  obtain ⟨x, hx, hd⟩ := hc
  obtain ⟨x', hx', hd'⟩ := hc'
  cases hd with
  | store =>
    cases hd' with
    | store => exact h.storeOnce _ _ _ hx hx'
    | finished => exact ha.stored _ _ _ hx (ha.finished _ _ hx')
    | adopt => exact absurd rfl (ha.adopted _ _ _ _ hx').1
  | finished =>
    cases hd' with
    | store => exact (ha.stored _ _ _ hx' (ha.finished _ _ hx)).symm
    | finished =>
      have hboth := hended d
      have hfin := ha.finished _ _ hx
      have hfin' := ha.finished _ _ hx'
      cases c <;> cases c' <;> simp_all
    | adopt => exact absurd rfl (ha.adopted _ _ _ _ hx').1
  | adopt =>
    cases hd' with
    | store | finished => exact absurd rfl (ha.adopted _ _ _ _ hx).1
    | adopt => exact (ha.adopted _ _ _ _ hx).2.trans (ha.adopted _ _ _ _ hx').2.symm

end

/-- In a run whose accepted proofs agree, two Phase2 replies for the same transaction and view have
the same decision. -/
theorem replies_agree (env : Env) (s : State) (hs : Fresh s) (es : List Event)
    (chosen : Digest → UInt64 → CommitDecision)
    (hes : (fallbackMachine env).Along
      (Agrees env chosen ((fallbackMachine env).run s es).ended) s es)
    (hended : ∀ d, ¬ (((fallbackMachine env).run s es).ended d .commit = true ∧
      ((fallbackMachine env).run s es).ended d .abort = true)) (d : Digest) (v : UInt64)
    (c c' : CommitDecision) (hc : .reply d c (some v) ∈ ((fallbackMachine env).run s es).log)
    (hc' : .reply d c' (some v) ∈ ((fallbackMachine env).run s es).log) : c = c' := by
  generalize hend : ((fallbackMachine env).run s es).ended = ended at hes hended
  have hinv : Backed ((fallbackMachine env).run s es).ledger ∧
      AgreesSoFar chosen ended ((fallbackMachine env).run s es).ledger.log := by
    refine run_ledger_along (P := fun l => Backed l ∧ AgreesSoFar chosen ended l.log)
      (fun t e he l l' hm h => ?_) ⟨hs.backed, ?_⟩ (hes.and (along_ended s es))
    · exact ⟨h.1.move he.1.found hm, h.2.move he.1 (hend ▸ he.2) hm⟩
    · constructor <;> simp [State.ledger, hs.log]
  exact Decided.unique hinv.1 hinv.2 hended (hinv.1.replies d c v hc) (hinv.1.replies d c' v hc')

/-! ## Two leaders of one view -/

def loggedWrite : Transaction :=
  { clientId := 1, clientSeqNum := 1, involvedGroups := [0], timestamp := ⟨20000, 1⟩
    writeSet := [{ key := [7], value := some [8] }] }

def threaded : Env := { Env.sample with params := { multiThreading := true } }

def leaderDecision (c : CommitDecision) (voters : List ProcessId) : DecisionFBMsg :=
  { txnDigest := threaded.digest loggedWrite, decision := c, view := 1
    electSigs := voters.map fun i => ⟨i, [i.toUInt8]⟩ }

theorem fresh_initial : Fresh {} := ⟨fun _ => rfl, rfl⟩

/-- Two leaders were elected, one by each half of the group: both decisions are announced. -/
theorem replies_disagree :
    let d := threaded.digest loggedWrite
    let m := leaderDecision .commit [0, 1, 2]
    let m' := leaderDecision .abort [3, 4, 5]
    let s := (fallbackMachine threaded).run {} [.outside (.addOngoing loggedWrite),
      .decisionFB m [], .task 0 [], .decisionFB m' [], .task 0 []]
    validateFBDecision threaded .commit 1 loggedWrite d m.electSigs none = .accept ∧
      validateFBDecision threaded .abort 1 loggedWrite d m'.electSigs none = .accept ∧
      .reply d .commit (some 1) ∈ s.log ∧ .reply d .abort (some 1) ∈ s.log := by
  decide +kernel

theorem Adopts.of_callback {env : Env} {s : State} {k : Nat} {schedule : List Nat}
    {stale d : Digest} {v : UInt64} {c : CommitDecision} {msg : DecisionFBMsg} {valid : Bool}
    (hk : s.tasks[k]? = some (.fbDecisionCallback msg valid))
    (h : Adopts env s (.task k schedule stale) d v c) : v = msg.view ∧ c = msg.decision := by
  cases h <;> simp_all

theorem replies_agree_sameLeader :
    let d := threaded.digest loggedWrite
    let m := leaderDecision .commit [0, 1, 2]
    let s := (fallbackMachine threaded).run {} [.outside (.addOngoing loggedWrite),
      .decisionFB m [], .task 0 [], .decisionFB m [], .task 0 []]
    .reply d .commit (some 1) ∈ s.log ∧ ∀ c, .reply d c (some 1) ∈ s.log → c = .commit := by
  intro d m s
  have hreply : .reply d .commit (some 1) ∈ s.log := by decide +kernel
  have hended : s.ended = ({} : State).ended := run_ended (by simp) {}
  have houtside : Agrees threaded (fun _ _ => .commit) s.ended {}
      (.outside (.addOngoing loggedWrite)) := by
    constructor
    · exact not_false
    · intro d v c h
      cases h
    · intro d c c' h
      cases h
  have hmessage (t : State) :
      Agrees threaded (fun _ _ => .commit) s.ended t (.decisionFB m []) := by
    refine ⟨not_false, fun d v c h => ?_, fun d c c' h => by cases h⟩
    cases h with
    | decisionFB _ _ _ hmt => cases hmt
  have hcallback (t : State) (ht : t.tasks[0]? = some (.fbDecisionCallback m true)) :
      Agrees threaded (fun _ _ => .commit) s.ended t (.task 0 []) := by
    refine ⟨by simp [Stale, ht], fun d v c h => ?_, fun d c c' _ hc => ?_⟩
    · obtain ⟨rfl, rfl⟩ := h.of_callback ht
      exact ⟨by decide, rfl⟩
    · rw [hended] at hc
      cases c' <;> cases hc
  have hes : (fallbackMachine threaded).Along (Agrees threaded (fun _ _ => .commit) s.ended) {}
      [.outside (.addOngoing loggedWrite), .decisionFB m [], .task 0 [], .decisionFB m [],
        .task 0 []] :=
    ⟨houtside, hmessage _, hcallback _ (by decide +kernel), hmessage _,
      hcallback _ (by decide +kernel), trivial⟩
  refine ⟨hreply, fun c hc => ?_⟩
  refine replies_agree threaded {} fresh_initial _ (fun _ _ => .commit) hes ?_ d 1 c .commit hc
    hreply
  change ∀ d, ¬ (s.ended d .commit = true ∧ s.ended d .abort = true)
  rw [hended]
  simp [State.ended]

end Sintr.Fallback
