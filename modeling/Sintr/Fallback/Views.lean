import Sintr.Fallback.Replies
import Sintr.Lib.History

/-!
# Views and elections of one replica

When replicas change views on their own (`all_to_all_fb` off), a vote for a leader takes the replica
to a later view, and decisions of earlier views are refused from then on. This makes a vote a
promise: it carries the latest decision, and later replies of earlier views repeat it. The promise
is broken by a callback of Phase2 that answers for another transaction, as its pointer to the digest
dangles.
-/

namespace Sintr.Fallback

open List Function

/-- `c` is the decision of the latest view `w` that was adopted, or the first decision if none
was. -/
inductive Latest (log : List Entry) (d : Digest) : UInt64 → CommitDecision → Prop where
  | first (c : CommitDecision) (hmem : .store d c ∈ log)
      (hnone : ∀ w c', .adopt d w c' true ∉ log) : Latest log d 0 c
  | later (w : UInt64) (c : CommitDecision) (hmem : .adopt d w c true ∈ log)
      (hmax : ∀ w' c', .adopt d w' c' true ∈ log → w' < w ∨ w' = w ∧ c' = c) : Latest log d w c

/-- One vote for each view, with the latest decision. -/
structure ElectionsRight (log : List Entry) : Prop where
  once : log.Pairwise fun e e' => ∀ d v c c', e = .elect d v c → e' ≠ .elect d v c'
  carried : EachAfter (fun before e => ∀ d v c, e = .elect d v c → ∃ w, Latest before d w c) log

/-- After a vote the replies of earlier views repeat it. -/
def PromisesKept (log : List Entry) : Prop :=
  log.Pairwise fun e e' => ∀ d v c w c', e = .elect d v c → e' = .reply d c' (some w) →
    w < v → c' = c

/-- The fields of a transaction, given the history. -/
structure At (log : List Entry) (d : Digest) (m : P2MetaData) : Prop where
  below : m.decisionView ≤ m.currentView
  latest : m.hasP2 = true → Latest log d m.decisionView m.p2Decision
  unlogged : m.hasP2 = false → m.decisionView = 0 ∧ ∀ w c, .adopt d w c true ∉ log
  elected : ∀ v c, .elect d v c ∈ log →
    m.hasP2 = true ∧ v ≤ m.currentView ∧ (m.decisionView < v → m.p2Decision = c)

/-! ## Histories that grow -/

section
variable {log es : List Entry} {d : Digest} {m : P2MetaData} {e : Entry}

theorem Latest.append {w : UInt64} {c : CommitDecision} (h : Latest log d w c)
    (hes : ∀ w c, .adopt d w c true ∉ es) : Latest (log ++ es) d w c := by
  cases h with
  | first _ hmem hnone =>
    refine .first c (mem_append_left es hmem) fun w c' hm => ?_
    rcases mem_append.1 hm with hm | hm
    · exact hnone w c' hm
    · exact hes w c' hm
  | later _ _ hmem hmax =>
    refine .later w c (mem_append_left es hmem) fun w' c' hm => ?_
    rcases mem_append.1 hm with hm | hm
    · exact hmax w' c' hm
    · exact absurd hm (hes w' c' )

theorem At.append (h : At log d m) (hadopt : ∀ w c, .adopt d w c true ∉ es)
    (helect : ∀ v c, .elect d v c ∉ es) : At (log ++ es) d m where
  below := h.below
  latest hP2 := (h.latest hP2).append hadopt
  unlogged hP2 := by
    refine ⟨(h.unlogged hP2).1, fun w c hm => ?_⟩
    rcases mem_append.1 hm with hm | hm
    · exact (h.unlogged hP2).2 w c hm
    · exact hadopt w c hm
  elected v c hm := by
    rcases mem_append.1 hm with hm | hm
    · exact h.elected v c hm
    · exact absurd hm (helect v c)

theorem ElectionsRight.snoc (h : ElectionsRight log)
    (helect : ∀ d v c, e = .elect d v c →
      (∀ c', .elect d v c' ∉ log) ∧ ∃ w, Latest log d w c) : ElectionsRight (log ++ [e]) where
  once := by
    refine pairwise_append.2 ⟨h.once, pairwise_singleton _ _, ?_⟩
    rintro x hx y hy d v c c' rfl rfl
    exact (helect d v c' (mem_singleton.1 hy).symm).1 c hx
  carried := h.carried.snoc fun d v c he => (helect d v c he).2

theorem ElectionsRight.other (h : ElectionsRight log) (helect : ∀ d v c, e ≠ .elect d v c) :
    ElectionsRight (log ++ [e]) :=
  h.snoc fun d v c he => absurd he (helect d v c)

theorem PromisesKept.snoc (h : PromisesKept log)
    (hreply : ∀ d c' w, e = .reply d c' (some w) →
      ∀ v c, .elect d v c ∈ log → w < v → c' = c) : PromisesKept (log ++ [e]) := by
  refine pairwise_append.2 ⟨h, pairwise_singleton _ _, ?_⟩
  rintro x hx y hy d v c w c' rfl rfl
  exact hreply d c' w (mem_singleton.1 hy).symm v c hx

theorem PromisesKept.other (h : PromisesKept log) (hreply : ∀ d c w, e ≠ .reply d c (some w)) :
    PromisesKept (log ++ [e]) :=
  h.snoc fun d c w he => absurd he (hreply d c w)

theorem PromisesKept.reply (h : PromisesKept log) {c' : CommitDecision} {w : UInt64}
    (hc : ∀ v c, .elect d v c ∈ log → w < v → c' = c) :
    PromisesKept (log ++ [.reply d c' (some w)]) := by
  refine h.snoc ?_
  rintro _ _ _ heq
  cases heq
  exact hc

end

/-! ## Every move keeps the invariant -/

structure ViewInv (l : Ledger) : Prop where
  elections : ElectionsRight l.log
  atDigest : ∀ d, At l.log d (l.p2 d)

namespace ViewInv

variable {l : Ledger}

theorem atUpdate (h : ViewInv l) {d : Digest} {m : P2MetaData} {es : List Entry}
    (hm : At (l.log ++ es) d m)
    (hadopt : ∀ d' w c, .adopt d' w c true ∈ es → d' = d)
    (helect : ∀ d' v c, .elect d' v c ∈ es → d' = d) (d' : Digest) :
    At (l.log ++ es) d' (update l.p2 d m d') := by
  by_cases hd : d' = d
  · subst hd
    rwa [update_self]
  · rw [update_of_ne hd]
    exact (h.atDigest d').append (fun w c hmem => hd (hadopt d' w c hmem))
      fun v c hmem => hd (helect d' v c hmem)

theorem set (h : ViewInv l) {d : Digest} {m : P2MetaData} (hm : At l.log d m) :
    ViewInv (l.set d m) where
  elections := h.elections
  atDigest := by
    have hat : ∀ d', At (l.log ++ []) d' _ :=
      h.atUpdate (by rwa [append_nil]) (by simp) (by simp)
    simpa [Ledger.set] using hat

theorem add (h : ViewInv l) {e : Entry} (hadopt : ∀ d w c, e ≠ .adopt d w c true)
    (helect : ∀ d v c, e ≠ .elect d v c) : ViewInv (l.add e) where
  elections := h.elections.other helect
  atDigest d := by
    refine (h.atDigest d).append (fun w c hmem => ?_) fun v c hmem => ?_
    · exact hadopt d w c (mem_singleton.1 hmem).symm
    · exact helect d v c (mem_singleton.1 hmem).symm

theorem not_elected (h : ViewInv l) {d : Digest} (hP2 : (l.p2 d).hasP2 = false) (v : UInt64)
    (c : CommitDecision) : .elect d v c ∉ l.log := by
  intro hmem
  have hlogged := ((h.atDigest d).elected v c hmem).1
  rw [hP2] at hlogged
  cases hlogged

theorem store (h : ViewInv l) {d : Digest} (c : CommitDecision) (hP2 : (l.p2 d).hasP2 = false) :
    ViewInv ((l.set d { l.p2 d with p2Decision := c, hasP2 := true }).add (.store d c)) where
  elections := h.elections.other (by simp)
  atDigest := by
    obtain ⟨hzero, hnone⟩ := (h.atDigest d).unlogged hP2
    refine h.atUpdate ⟨(h.atDigest d).below, fun _ => ?_, (fun hf => by cases hf), ?_⟩ (by simp)
      (by simp)
    · rw [show (l.p2 d).decisionView = 0 from hzero]
      exact .first c (by simp) (by simpa using hnone)
    · intro v c' hmem
      exact absurd (by simpa using hmem) (h.not_elected hP2 v c')

variable {v : UInt64}

theorem elect (h : ViewInv l) {d : Digest} (hP2 : (l.p2 d).hasP2 = true)
    (hv : (l.p2 d).currentView < v) :
    ViewInv ((l.set d { l.p2 d with currentView := v }).add
      (.elect d v (l.p2 d).p2Decision)) where
  elections := by
    refine h.elections.snoc ?_
    rintro _ _ _ heq
    cases heq
    refine ⟨fun c' hmem => ?_, _, (h.atDigest d).latest hP2⟩
    -- an earlier vote for this view would have taken the replica there
    have hle := ((h.atDigest d).elected v c' hmem).2.1
    exact absurd hv (UInt64.not_lt.2 hle)
  atDigest := by
    have hd := h.atDigest d
    refine h.atUpdate ⟨UInt64.le_of_lt (UInt64.lt_of_le_of_lt hd.below hv), fun _ => ?_, ?_, ?_⟩
      (by simp) (by simp +contextual)
    · exact (hd.latest hP2).append (by simp)
    · intro hf
      rw [show (l.p2 d).hasP2 = false from hf] at hP2
      cases hP2
    · intro v' c' hmem
      rcases mem_append.1 hmem with hold | hnew
      · obtain ⟨_, hle, hkeep⟩ := hd.elected v' c' hold
        exact ⟨hP2, UInt64.le_of_lt (UInt64.lt_of_le_of_lt hle hv), hkeep⟩
      · cases mem_singleton.1 hnew
        exact ⟨hP2, UInt64.le_refl v, fun _ => rfl⟩

theorem adopted_lt (h : ViewInv l) {d : Digest} (hv : (l.p2 d).decisionView < v) {w : UInt64}
    {c : CommitDecision} (hmem : .adopt d w c true ∈ l.log) : w < v := by
  by_cases hP2 : (l.p2 d).hasP2 = true
  · have hlatest := (h.atDigest d).latest hP2
    generalize (l.p2 d).decisionView = w₀, (l.p2 d).p2Decision = c₀ at hlatest hv
    cases hlatest with
    | first _ _ hnone => exact absurd hmem (hnone w c)
    | later _ _ _ hmax =>
      rcases hmax w c hmem with hlt | ⟨rfl, -⟩
      · exact UInt64.lt_trans hlt hv
      · exact hv
  · exact absurd hmem (((h.atDigest d).unlogged (Bool.eq_false_iff.2 hP2)).2 w c)

theorem at_adopted (h : ViewInv l) {d : Digest} (c : CommitDecision)
    (hv : (l.p2 d).currentView ≤ v) :
    At (l.log ++ [.adopt d v c ((l.p2 d).decisionView < v)]) d
      (State.adopted (l.p2 d) v c) := by
  have hd := h.atDigest d
  by_cases hlater : (l.p2 d).decisionView < v
  · rw [State.adopted_later hlater, State.viewAfter_of_le hv]
    simp only [hlater, decide_true]
    refine ⟨UInt64.le_refl v, fun _ => ?_, (fun hf => by cases hf), fun v' c' hmem => ?_⟩
    · refine .later v c (by simp) fun w' c' hmem => ?_
      rcases mem_append.1 hmem with hold | hnew
      · exact .inl (h.adopted_lt hlater hold)
      · cases mem_singleton.1 hnew
        exact .inr ⟨rfl, rfl⟩
    · have hle := (hd.elected v' c' (by simpa using hmem)).2.1
      have hle' : v' ≤ v := UInt64.le_trans hle hv
      exact ⟨rfl, hle', fun hlt => absurd hlt (UInt64.not_lt.2 hle')⟩
  · rw [State.adopted_same hlater, State.viewAfter_of_le hv]
    simp only [hlater, decide_false]
    have happ : At (l.log ++ [.adopt d v c false]) d (l.p2 d) := hd.append (by simp) (by simp)
    refine ⟨UInt64.le_trans hd.below hv, happ.latest, happ.unlogged, fun v' c' hmem => ?_⟩
    obtain ⟨hP2, hle, hkeep⟩ := happ.elected v' c' hmem
    exact ⟨hP2, UInt64.le_trans hle hv, hkeep⟩

theorem adopt (h : ViewInv l) {d : Digest} (c : CommitDecision) (hv : (l.p2 d).currentView ≤ v) :
    ViewInv (((l.set d (State.adopted (l.p2 d) v c)).add
      (.adopt d v c ((l.p2 d).decisionView < v))).add (.reply d c (some v))) := by
  have hadopt : ViewInv ((l.set d (State.adopted (l.p2 d) v c)).add
      (.adopt d v c ((l.p2 d).decisionView < v))) :=
    ⟨h.elections.other (by simp), h.atUpdate (h.at_adopted c hv)
      (fun d' w c' hmem => by simp at hmem; exact hmem.1) (by simp)⟩
  exact hadopt.add (by simp) (by simp)

variable {env : Env} {s : State} {e : Event} {l' : Ledger}

theorem move (hall : env.params.allToAllFb = false) (hm : Move env s e l l') (h : ViewInv l) :
    ViewInv l' := by
  cases hm with
  | note x hx =>
    refine h.add ?_ ?_
    · rintro d w c rfl
      exact hx
    · rintro d v c rfl
      exact hx
  | original d r =>
    have hd := h.atDigest d
    exact h.set ⟨hd.below, hd.latest, hd.unlogged, hd.elected⟩
  | reply d v | misreply d c v | echo d c => exact h.add (by simp) (by simp)
  | finished d c =>
    have hfin : ViewInv (l.add (.finished d c)) := h.add (by simp) (by simp)
    exact hfin.add (by simp) (by simp)
  | reset d hP2 =>
    -- nothing is logged, so the view is 0 already
    have hd := h.atDigest d
    have hzero : (0 : UInt64) = (l.p2 d).decisionView := (hd.unlogged hP2).1.symm
    refine h.set ?_
    rw [hzero]
    exact hd
  | store d c hP2 _ => exact h.store c hP2
  | elect d v hP2 hv => exact h.elect hP2 hv
  | electAll d v _ ha => simp [hall] at ha
  | adopt d v c hv _ => exact h.adopt c hv
  | moveTo d v hv =>
    have hd := h.atDigest d
    have hlt : (l.p2 d).currentView < v := hv.resolve_left (by simp [hall])
    refine h.set ⟨UInt64.le_of_lt (UInt64.lt_of_le_of_lt hd.below hlt), hd.latest, hd.unlogged, ?_⟩
    intro v' c hmem
    obtain ⟨hP2, hle, hkeep⟩ := hd.elected v' c hmem
    exact ⟨hP2, UInt64.le_of_lt (UInt64.lt_of_le_of_lt hle hlt), hkeep⟩

theorem kept (h : ViewInv l) (hfound : ¬ Stale s e) (hm : Move env s e l l')
    (hk : PromisesKept l.log) : PromisesKept l'.log := by
  cases hm with
  | original | reset | moveTo => exact hk
  | note x hx => exact hk.other (by rintro d c w rfl; exact hx)
  | store | elect | electAll | echo => exact hk.other (by simp)
  | misreply _ _ _ hstale => exact absurd hstale hfound
  | reply d v hP2 hv =>
    cases v with
    | none => exact hk.other (by simp)
    | some w =>
      refine hk.reply fun v c hmem hlt => ?_
      rw [hv w rfl] at hlt
      exact ((h.atDigest d).elected v c hmem).2.2 hlt
  | finished d c hP2 =>
    -- nothing is logged, so there was no vote
    refine (hk.other (by simp)).reply fun v c' hmem _ => ?_
    exact absurd (by simpa using hmem) (h.not_elected hP2 v c')
  | adopt d v c hv =>
    refine (hk.other (by simp)).reply fun v' c' hmem hlt => ?_
    -- the view is not below any the replica has voted for
    have hold : .elect d v' c' ∈ l.log := by simpa [Ledger.add, Ledger.set] using hmem
    have hle := ((h.atDigest d).elected v' c' hold).2.1
    exact absurd hlt (UInt64.not_lt.2 (UInt64.le_trans hle hv))

end ViewInv

/-! ## Views do not go back -/

def NotBefore (m m' : P2MetaData) : Prop :=
  m.decisionView ≤ m'.decisionView ∧ m.currentView ≤ m'.currentView

theorem NotBefore.refl (m : P2MetaData) : NotBefore m m :=
  ⟨UInt64.le_refl _, UInt64.le_refl _⟩

theorem NotBefore.trans {m m' m'' : P2MetaData} (h : NotBefore m m') (h' : NotBefore m' m'') :
    NotBefore m m'' :=
  ⟨UInt64.le_trans h.1 h'.1, UInt64.le_trans h.2 h'.2⟩

theorem notBefore_adopted {m : P2MetaData} {v : UInt64} (c : CommitDecision)
    (hv : m.currentView ≤ v) : NotBefore m (State.adopted m v c) := by
  by_cases hlater : m.decisionView < v
  · rw [State.adopted_later hlater, State.viewAfter_of_le hv]
    exact ⟨UInt64.le_of_lt hlater, hv⟩
  · rw [State.adopted_same hlater, State.viewAfter_of_le hv]
    exact ⟨UInt64.le_refl _, hv⟩

theorem notBefore_set {l : Ledger} {d : Digest} {m : P2MetaData} (h : NotBefore (l.p2 d) m)
    (d' : Digest) : NotBefore (l.p2 d') ((l.set d m).p2 d') := by
  by_cases hd : d' = d
  · subst hd
    simpa [Ledger.set] using h
  · simpa [Ledger.set, update_of_ne hd] using NotBefore.refl (l.p2 d')

theorem ViewInv.notBefore {env : Env} {s : State} {e : Event} {l l' : Ledger} (h : ViewInv l)
    (hall : env.params.allToAllFb = false) (hm : Move env s e l l') (d : Digest) :
    NotBefore (l.p2 d) (l'.p2 d) := by
  cases hm with
  | original d' r =>
    refine notBefore_set ?_ d
    exact ⟨UInt64.le_refl _, UInt64.le_refl _⟩
  | reset d' hP2 =>
    refine notBefore_set ?_ d
    exact ⟨UInt64.le_of_eq ((h.atDigest d').unlogged hP2).1, UInt64.le_refl _⟩
  | store d' _ _ _ =>
    refine notBefore_set (l := l) ?_ d
    exact ⟨UInt64.le_refl _, UInt64.le_refl _⟩
  | elect d' v _ hv =>
    refine notBefore_set (l := l) ?_ d
    exact ⟨UInt64.le_refl _, UInt64.le_of_lt hv⟩
  | adopt d' v c hv _ => exact notBefore_set (notBefore_adopted c hv) d
  | moveTo d' v hv =>
    refine notBefore_set ?_ d
    exact ⟨UInt64.le_refl _, UInt64.le_of_lt (hv.resolve_left (by simp [hall]))⟩
  | _ => exact .refl _

/-! ## Runs -/

theorem viewInv_fresh {s : State} (hs : Fresh s) : ViewInv s.ledger := by
  simp only [State.ledger, funext hs.p2, hs.log]
  refine ⟨⟨List.Pairwise.nil, eachAfter_nil⟩, fun d => ?_⟩
  exact ⟨UInt64.le_refl _, (fun hf => by cases hf), fun _ => ⟨rfl, by simp⟩, by simp⟩

/-- A replica votes once per view, with its latest decision, and repeats it for earlier views, if
its callbacks find the digest; a decision's view is never beyond the current one, and neither goes
back. -/
theorem elections_run (env : Env) (hall : env.params.allToAllFb = false) (s : State) (hs : Fresh s)
    (es : List Event) :
    let M := fallbackMachine env
    ElectionsRight (M.run s es).log ∧
      (M.Along (fun t e => ¬ Stale t e) s es → PromisesKept (M.run s es).log) ∧
      ∀ d, ((M.run s es).p2MetaDatas d).decisionView ≤ ((M.run s es).p2MetaDatas d).currentView ∧
        ∀ fs, ((M.run s es).p2MetaDatas d).decisionView ≤
            ((M.run s (es ++ fs)).p2MetaDatas d).decisionView ∧
          ((M.run s es).p2MetaDatas d).currentView ≤
            ((M.run s (es ++ fs)).p2MetaDatas d).currentView := by
  intro M
  have hinv : ViewInv (M.run s es).ledger :=
    run_ledger (fun _ _ _ _ => ViewInv.move hall) (viewInv_fresh hs) es
  refine ⟨hinv.elections, fun hfound => ?_,
    fun d => ⟨(hinv.atDigest d).below, fun fs => ?_⟩⟩
  · have hkept : ViewInv (M.run s es).ledger ∧ PromisesKept (M.run s es).ledger.log :=
      run_ledger_along (P := fun l => ViewInv l ∧ PromisesKept l.log)
        (fun t e he l l' hm h => ⟨h.1.move hall hm, h.1.kept he hm h.2⟩)
        ⟨viewInv_fresh hs, by simp [State.ledger, hs.log, PromisesKept]⟩ hfound
    exact hkept.2
  have hrun : ViewInv (M.run (M.run s es) fs).ledger ∧
      NotBefore ((M.run s es).ledger.p2 d) ((M.run (M.run s es) fs).ledger.p2 d) := by
    refine run_ledger (P := fun l => ViewInv l ∧ NotBefore ((M.run s es).ledger.p2 d) (l.p2 d))
      (fun _ _ l l' hm h => ?_) ⟨hinv, .refl _⟩ fs
    exact ⟨h.1.move hall hm, h.2.trans (h.1.notBefore hall hm d)⟩
  rw [Machine.run_append]
  exact hrun.2

def invokeNext : InvokeFBMsg :=
  let d := threaded.digest loggedWrite
  { reqId := 2, txnDigest := d, proposedView := 2
    viewSigned := some ([0, 1, 2, 3].map fun i =>
      { view := 1, digest := d, replicaId := i, signature := ⟨i, [i.toUInt8]⟩ }) }

/-- Two replicas abstain; the transaction comes without its digest. -/
def unnamedPhase2 : Phase2Msg :=
  { reqId := 1, decision := .abort, txn := some loggedWrite
    groupedSigs := [(0, [⟨1, [1]⟩, ⟨2, [2]⟩])] }

/-- The digest was a local variable when the Phase2 message came. By the time of its callback there
are other bytes in its place, and the reply says that the transaction aborts in view 0, though the
replica has voted for COMMIT in view 2. -/
theorem promise_broken :
    let d := threaded.digest loggedWrite
    let s := (fallbackMachine threaded).run {} [.outside (.addOngoing loggedWrite),
      .phase2 unnamedPhase2 [], .decisionFB (leaderDecision .commit [0, 1, 2]) [], .task 1 [],
      .invokeFB invokeNext [], .task 1 [], .task 0 [] [9]]
    s.log = [.adopt d 1 .commit true, .reply d .commit (some 1), .elect d 2 .commit,
      .store [9] .abort, .reply d .abort (some 0)] ∧ ¬ PromisesKept s.log := by
  intro d s
  have hlog : s.log = [.adopt d 1 .commit true, .reply d .commit (some 1), .elect d 2 .commit,
      .store [9] .abort, .reply d .abort (some 0)] := by decide +kernel
  refine ⟨hlog, fun h => ?_⟩
  rw [hlog] at h
  simp only [PromisesKept, pairwise_cons, mem_cons, not_mem_nil] at h
  have hsame :=
    h.2.2.1 (.reply d .abort (some 0)) (by simp) d 2 .commit 0 .abort rfl rfl (by decide)
  cases hsame

theorem elections_run_invokeNext :
    let d := threaded.digest loggedWrite
    let s := (fallbackMachine threaded).run {} [.outside (.addOngoing loggedWrite),
      .decisionFB (leaderDecision .commit [0, 1, 2]) [], .task 0 [], .invokeFB invokeNext [],
      .task 0 []]
    .elect d 2 .commit ∈ s.log ∧ ElectionsRight s.log ∧ PromisesKept s.log ∧
      (s.p2MetaDatas d).decisionView ≤ (s.p2MetaDatas d).currentView := by
  intro d s
  obtain ⟨helections, hkept, hviews⟩ := elections_run threaded rfl {} fresh_initial
    [.outside (.addOngoing loggedWrite), .decisionFB (leaderDecision .commit [0, 1, 2]) [],
      .task 0 [], .invokeFB invokeNext [], .task 0 []]
  exact ⟨by decide +kernel, helections, hkept (by decide +kernel), (hviews d).1⟩

end Sintr.Fallback
