import Sintr.Lib.ExceptFold
import Sintr.Mvtso.Invariant

/-!
# What a check that passes has excluded

`Safe` is multiversion timestamp ordering as one would state it. The check grants less
(`check_not_safe`): it is skipped for a transaction that is prepared already, and a read of a row
that was not there is not compared with what lies below a deletion.
-/

namespace Sintr.Mvtso

open State List

variable {env : Env}

/-! ## Passing the checks -/

def Result.Refuses (r : Result) : Prop := r.result = .abort ∨ r.result = .abstain

variable {r : ReadMessage} {s : State} {ts : Timestamp} {x : Result} {w : WriteMessage}
  {reads : List (Bytes × Timestamp)} {txn : Transaction} {i : Input} {policyId : Bytes}
  {es : List Event}

theorem preparedWriteConflict_refuses (h : s.preparedWriteConflict ts r = some x) : x.Refuses := by
  unfold preparedWriteConflict at h
  split at h
  · cases h
  · split_ifs at h
    cases h
    exact .inr rfl

theorem readConflict_refuses (h : s.readConflict env ts r = some x) : x.Refuses := by
  unfold readConflict at h
  split at h
  · exact preparedWriteConflict_refuses h
  · split_ifs at h
    · cases h
      exact .inl rfl
    · cases h
      exact .inl rfl
    · exact preparedWriteConflict_refuses h

theorem committedReadConflict_refuses
    {reads : List ((Timestamp ×ₗ Timestamp) × Option CommittedProof)}
    (h : committedReadConflict env ts w reads = some x) : x.Refuses := by
  induction reads with
  | nil => cases h
  | cons e reads ih =>
    unfold committedReadConflict at h
    split_ifs at h
    · cases h
      exact .inl rfl
    · cases h
      exact .inl rfl
    · exact ih h

theorem policyCheckHelper_refuses (h : s.policyCheckHelper policyId ts = .error x) : x.Refuses := by
  unfold policyCheckHelper at h
  dsimp only at h
  split at h
  · cases h
    exact .inr rfl
  · split_ifs at h
    cases h
    exact .inr rfl

theorem readPolicy_refuses (h : s.readPolicy ts reads policyId = .error x) :
    x.Refuses := by
  unfold readPolicy at h
  split_ifs at h
  cases hp : s.policyCheckHelper policyId ts with
  | error y =>
    rw [hp] at h
    cases h
    exact policyCheckHelper_refuses hp
  | ok t =>
    rw [hp] at h
    cases h

theorem readPolicies_refuses (h : s.readPolicies env txn reads w = .error x) :
    x.Refuses := by
  unfold readPolicies at h
  split at h
  · cases h
  · exact readPolicy_refuses h

theorem writeConflict_refuses (h : s.writeConflict env i ts w = some x) : x.Refuses := by
  unfold writeConflict at h
  cases hc : committedReadConflict env ts w (s.committedReads w.key).entries.reverse with
  | some r =>
    rw [hc] at h
    cases h
    exact committedReadConflict_refuses hc
  | none =>
    rw [hc] at h
    dsimp only at h
    split_ifs at h
    cases h
    exact .inr rfl

theorem checkWrite_ok {reads' : List (Bytes × Timestamp)}
    (h : s.checkWrite env i txn reads w = .ok reads') :
    s.readPolicies env txn reads w = .ok reads' ∧
      s.writeConflict env i txn.timestamp w = none := by
  unfold checkWrite at h
  rw [Except.bind_eq_ok] at h
  obtain ⟨c, hc, h⟩ := h
  split at h
  · cases h
  · cases h
    exact ⟨hc, ‹_›⟩

theorem checkWrite_refuses (h : s.checkWrite env i txn reads w = .error x) : x.Refuses := by
  unfold checkWrite at h
  rw [Except.bind_eq_error] at h
  rcases h with h | ⟨c, -, h⟩
  · exact readPolicies_refuses h
  · split at h
    · cases h
      exact writeConflict_refuses ‹_›
    · cases h

theorem validate_passes (h : ∀ x, s.validate env i txn = .error x → ¬ x.Refuses) :
    s.checkReads env txn.timestamp (mergedSets env txn).readSet = none ∧
      ∃ policyReads, s.checkWrites env i txn = .ok policyReads := by
  unfold validate at h
  dsimp only at h
  by_cases hmark : i.highWatermark < txn.timestamp
  · rw [if_pos hmark] at h
    exact absurd (.inr rfl) (h _ rfl)
  rw [if_neg hmark] at h
  by_cases hmono : env.params.useSemanticCC && !txn.writeSet.isEmpty && !i.monotonic
  · rw [if_pos hmono] at h
    exact absurd (.inr rfl) (h _ rfl)
  rw [if_neg hmono] at h
  cases hr : s.checkReads env txn.timestamp (mergedSets env txn).readSet with
  | some x =>
    rw [hr] at h
    obtain ⟨r, -, hx⟩ := exists_of_findSome?_eq_some hr
    exact absurd (readConflict_refuses hx) (h x rfl)
  | none =>
    refine ⟨rfl, ?_⟩
    cases hw : s.checkWrites env i txn with
    | ok policyReads => exact ⟨policyReads, rfl⟩
    | error x =>
      rw [hr, hw] at h
      obtain ⟨w, -, c, hx⟩ := foldlM_error hw
      exact absurd (checkWrite_refuses hx) (h x rfl)

theorem validate_noConflict (h : ∀ x, s.validate env i txn = .error x → ¬ x.Refuses) :
    (∀ r ∈ (mergedSets env txn).readSet, ownedRead env r →
      s.readConflict env txn.timestamp r = none) ∧
    ∀ w ∈ txn.writeSet, ownedWrite env txn w →
      s.writeConflict env i txn.timestamp w = none := by
  obtain ⟨hreads, policyReads, hwrites⟩ := validate_passes h
  refine ⟨fun r hr hown => ?_, fun w hw hown => ?_⟩
  · exact findSome?_eq_none_iff.1 hreads r (mem_filter.2 ⟨hr, hown⟩)
  · obtain ⟨c, c', hc⟩ := foldlM_ok hwrites w (mem_filter.2 ⟨hw, hown⟩)
    exact (checkWrite_ok hc).2

/-- **A check that passes**: unless the transaction is prepared already, no read and no write of it
has a conflict in the indexes. -/
theorem check_passes
    (hnew : s.prepared (env.digest txn) = none)
    (h : (s.doMVTSOOCCCheck env txn i).2.result = .commit ∨
      (s.doMVTSOOCCCheck env txn i).2.result = .wait) :
    (∀ r ∈ (mergedSets env txn).readSet, ownedRead env r →
      s.readConflict env txn.timestamp r = none) ∧
    ∀ w ∈ txn.writeSet, ownedWrite env txn w →
      s.writeConflict env i txn.timestamp w = none := by
  refine validate_noConflict fun x hx hr => ?_
  unfold doMVTSOOCCCheck at h
  dsimp only at h
  rw [hnew, hx] at h
  rcases hr with hr | hr <;> simp [hr] at h

/-! ## What the indexes then exclude -/

/-- No row was read, and the last version stored before `ts` is a deletion. -/
def BelowDeletion (s : State) (ts : Timestamp) (r : ReadMessage) : Prop :=
  r.readtime = .zero ∧ ∃ e, (s.store r.key).latestLT ts = some e ∧ e.2.val = deletion

theorem preparedWriteConflict_none (h : s.preparedWriteConflict ts r = none) :
    ∀ e ∈ s.preparedWrites r.key, e.1 < ts → e.1 ≤ r.readtime := by
  intro e he hlt
  unfold preparedWriteConflict at h
  cases hl : (s.preparedWrites r.key).latestLT ts with
  | none => exact absurd hlt (OrdMap.latestLT_none hl e he)
  | some last =>
    rw [hl] at h
    dsimp only at h
    split_ifs at h with hr
    exact ((OrdMap.latestLT_some hl).2.2 e he hlt).trans (not_lt.1 hr)

theorem readConflict_none (h : s.readConflict env ts r = none) (hvis : ¬ BelowDeletion s ts r) :
    (∀ e ∈ s.store r.key, e.1 < ts → e.1 ≤ r.readtime) ∧
      ∀ e ∈ s.preparedWrites r.key, e.1 < ts → e.1 ≤ r.readtime := by
  unfold readConflict at h
  cases hl : (s.store r.key).latestLT ts with
  | none =>
    rw [hl] at h
    exact ⟨fun e he hlt => absurd hlt (OrdMap.latestLT_none hl e he),
      preparedWriteConflict_none h⟩
  | some last =>
    have hdel : ¬ (r.readtime = .zero ∧ last.2.val = deletion) :=
      fun hd => hvis ⟨hd.1, last, hl, hd.2⟩
    rw [hl] at h
    dsimp only at h
    rw [if_neg hdel] at h
    by_cases hr : r.readtime < last.1
    · rw [if_pos hr] at h
      cases h
    · rw [if_neg hr] at h
      refine ⟨fun e he hlt => ?_, preparedWriteConflict_none h⟩
      exact ((OrdMap.latestLT_some hl).2.2 e he hlt).trans (not_lt.1 hr)

theorem overwrites_false {rt : Timestamp} (h : overwrites ts w rt = false) (hlt : rt < ts) :
    rt = .zero ∧ w.value = some deletion := by
  unfold overwrites at h
  rw [decide_eq_true hlt, Bool.true_and, Bool.not_eq_false', Bool.and_eq_true, beq_iff_eq,
    beq_iff_eq] at h
  obtain ⟨hz, hv⟩ := h
  refine ⟨hz, ?_⟩
  cases hw : w.value with
  | none =>
    rw [hw] at hv
    cases hv
  | some v =>
    rw [hw] at hv
    rw [← hv]
    rfl

/-- The loop over the committed reads stops at the first reader that is not later, and those after
it are not later either. -/
theorem committedReadConflict_none {reads : List ((Timestamp ×ₗ Timestamp) × Option CommittedProof)}
    (hs : reads.Pairwise fun a b => b.1 < a.1) (h : committedReadConflict env ts w reads = none) :
    ∀ e ∈ reads, ts < (ofLex e.1).1 → overwrites ts w (ofLex e.1).2 = false := by
  induction reads with
  | nil => exact fun e he => nomatch he
  | cons x reads ih =>
    obtain ⟨hx, hs⟩ := pairwise_cons.1 hs
    unfold committedReadConflict at h
    intro e he hts
    by_cases hle : (ofLex x.1).1 ≤ ts
    · rcases mem_cons.1 he with rfl | he
      · exact absurd hts (not_lt.2 hle)
      · have hfst : (ofLex e.1).1 ≤ (ofLex x.1).1 := by
          rcases Prod.Lex.lt_iff.1 (hx e he) with hlt | ⟨heq, -⟩
          · exact hlt.le
          · exact heq.le
        exact absurd hts (not_lt.2 (hfst.trans hle))
    · rw [if_neg hle] at h
      by_cases how : overwrites ts w (ofLex x.1).2
      · rw [if_pos how] at h
        cases h
      · rw [if_neg how] at h
        rcases mem_cons.1 he with rfl | he
        · exact Bool.not_eq_true _ ▸ how
        · exact ih hs h e he hts

theorem preparedReadConflict_false (h : s.preparedReadConflict ts w = false) :
    ∀ txn ∈ s.preparedReads w.key, ts < txn.timestamp →
      ∀ rt, preparedReadtime w.key txn = some rt → overwrites ts w rt = false := by
  intro txn ht hts rt hrt
  have hany := any_eq_false.1 h txn ht
  rw [decide_eq_true hts, hrt] at hany
  simpa using hany

theorem writeConflict_none (h : s.writeConflict env i ts w = none) :
    (∀ e ∈ s.committedReads w.key, ts < (ofLex e.1).1 → overwrites ts w (ofLex e.1).2 = false) ∧
    ∀ txn ∈ s.preparedReads w.key, ts < txn.timestamp →
      ∀ rt, preparedReadtime w.key txn = some rt → overwrites ts w rt = false := by
  unfold writeConflict at h
  cases hc : committedReadConflict env ts w (s.committedReads w.key).entries.reverse with
  | some r =>
    rw [hc] at h
    cases h
  | none =>
    rw [hc] at h
    dsimp only at h
    split_ifs at h with hp
    rw [Bool.or_eq_true, not_or, Bool.not_eq_true] at hp
    refine ⟨fun e he => ?_, preparedReadConflict_false hp.1⟩
    refine committedReadConflict_none ?_ hc e (mem_reverse.2 he)
    rw [pairwise_reverse]
    exact (s.committedReads w.key).sorted

/-! ## Timestamp ordering -/

/-- `reader` read an older version of a row than `writer`, which comes before it, has written.
Missing the deletion of a row that was not there is fine. -/
def Missed (env : Env) (reader : Transaction) (reads : List ReadMessage) (writer : Transaction) :
    Prop :=
  ∃ r ∈ reads, ∃ w ∈ writer.writeSet, ownedRead env r ∧ RowWrite env writer w ∧ w.key = r.key ∧
    r.readtime < writer.timestamp ∧ writer.timestamp < reader.timestamp ∧
    ¬ (r.readtime = .zero ∧ w.value = some deletion)
deriving Decidable

inductive Present (env : Env) (s : State) : Transaction → List ReadMessage → Prop where
  | committed {d : Digest} {c : Committed} (h : s.committed d = some c) :
    Present env s c.txn (mergedSets env c.txn).readSet
  | prepared {d : Digest} {p : Prepared} (h : s.prepared d = some p) :
    Present env s p.txn p.readSet

def Safe (env : Env) (s : State) (txn : Transaction) : Prop :=
  ∀ o reads, Present env s o reads →
    ¬ Missed env txn (mergedSets env txn).readSet o ∧ ¬ Missed env o reads txn

structure Respects (env : Env) (s : State) (txn : Transaction) : Prop where
  reads : ∀ r ∈ (mergedSets env txn).readSet, ownedRead env r →
    ¬ BelowDeletion s txn.timestamp r → ∀ o reads, Present env s o reads →
      ∀ w, RowWrite env o w → w.key = r.key → r.readtime < o.timestamp →
        ¬ o.timestamp < txn.timestamp
  committed : ∀ d c, s.committed d = some c →
    ¬ Missed env c.txn (mergedSets env c.txn).readSet txn
  prepared : ∀ d p, s.prepared d = some p → ∀ w, RowWrite env txn w →
    (∃ r ∈ p.readSet, ownedRead env r ∧ r.key = w.key) →
      ∀ rt, preparedReadtime w.key p.txn = some rt → rt < txn.timestamp →
        txn.timestamp < p.txn.timestamp → rt = .zero ∧ w.value = some deletion

theorem Inv.written {txns : List Transaction} (h : Inv env txns s) (hlive : s.crashed = false)
    {o : Transaction} {reads : List ReadMessage} (ho : Present env s o reads)
    (hw : RowWrite env o w) :
    (∃ v, (o.timestamp, v) ∈ s.store w.key) ∨ (o.timestamp, o) ∈ s.preparedWrites w.key := by
  cases ho with
  | committed hc => exact .inl (h.committed.stored hlive hc hw)
  | prepared hp =>
    refine .inr ?_
    rw [← h.prepared.timestamp hp]
    exact (h.prepared.written hp hw.2).resolve_right id

/-- **Timestamp ordering at a replica.** If transactions are told apart by their timestamps, nobody
has overwritten what a transaction that passes the check has read, and it overwrites nothing that
later ones have read. -/
theorem check_respects {s₀ : State} (h₀ : Loaded s₀) {es : List Event}
    (hes : TellApart env (checkedTxns es)) {txn : Transaction} {i : Input}
    (hlive : ((machine env).run s₀ es).crashed = false)
    (hnew : ((machine env).run s₀ es).prepared (env.digest txn) = none)
    (h : (((machine env).run s₀ es).doMVTSOOCCCheck env txn i).2.result = .commit ∨
      (((machine env).run s₀ es).doMVTSOOCCCheck env txn i).2.result = .wait) :
    Respects env ((machine env).run s₀ es) txn := by
  have hinv := run_inv h₀ hes
  generalize (machine env).run s₀ es = s at *
  obtain ⟨hreads, hwrites⟩ := check_passes hnew h
  refine ⟨?_, ?_, ?_⟩
  · intro r hr hown hvis o reads ho w hw hkey hlt hts
    obtain ⟨hstore, hprep⟩ := readConflict_none (hreads r hr hown) hvis
    rcases hinv.written hlive ho hw with ⟨v, hv⟩ | hv
    · rw [hkey] at hv
      exact absurd hlt (not_lt.2 (hstore _ hv hts))
    · rw [hkey] at hv
      exact absurd hlt (not_lt.2 (hprep _ hv hts))
  · rintro d c hc ⟨r, hr, w, -, hown, hw, hkey, hlt, hts, hdel⟩
    obtain ⟨proof, hproof⟩ := hinv.committed.recorded hc hr hown
    rw [← hkey] at hproof
    have how := (writeConflict_none (hwrites w hw.2.1 hw.2.2)).1 _ hproof hts
    exact hdel (overwrites_false how hlt)
  · rintro d p hp w hw ⟨r, hr, hown, hkey⟩ rt hrt hlt hts
    have hread := (hinv.prepared.read hp hr hown).resolve_right id
    rw [hkey] at hread
    have how := (writeConflict_none (hwrites w hw.2.1 hw.2.2)).2 _ hread hts rt hrt
    exact overwrites_false how hlt

/-! ## Small transactions on one row -/

def row : Key := [1]

def readAt (time : Timestamp) : ReadMessage := { key := row, readtime := time }

def put (value : Bytes) : WriteMessage := { key := row, value := some value }

def smallTxn (time client : UInt64) (reads : List ReadMessage) (writes : List WriteMessage) :
    Transaction :=
  Env.sample.named
    { clientId := client
      clientSeqNum := time
      involvedGroups := [0]
      timestamp := ⟨time, client⟩
      readSet := reads
      writeSet := writes }

def plain : Input := { highWatermark := ⟨90000, 0⟩ }

theorem loaded_empty : Loaded {} :=
  ⟨fun _ => rfl, fun _ => rfl, fun _ => rfl, fun _ => rfl, fun _ => rfl, fun _ => rfl, rfl⟩

def writer : Transaction := smallTxn 20000 2 [] [put [7]]

def reader : Transaction := smallTxn 30000 1 [readAt ⟨20000, 2⟩] []

def blindReader : Transaction := smallTxn 30000 1 [readAt .zero] []

theorem check_respects_reader :
    (((machine .sample).run {} [.check writer plain, .commit writer (.p1 []) 0]).doMVTSOOCCCheck
      .sample reader plain).2.result = .commit ∧
    Respects .sample ((machine .sample).run {} [.check writer plain, .commit writer (.p1 []) 0])
      reader :=
  ⟨by decide +kernel,
    check_respects (i := plain) loaded_empty (by decide +kernel) (by decide +kernel)
      (by decide +kernel) (.inl (by decide +kernel))⟩

def PassesUnsafe (env : Env) (es : List Event) (txn : Transaction) : Prop :=
  (((machine env).run {} es).doMVTSOOCCCheck env txn plain).2.result = .commit ∧
    ¬ Safe env ((machine env).run {} es) txn

theorem PassesUnsafe.of_committed {d : Digest} {c : Committed}
    (hres : (((machine env).run {} es).doMVTSOOCCCheck env txn plain).2.result = .commit)
    (hc : ((machine env).run {} es).committed d = some c)
    (hm : Missed env txn (mergedSets env txn).readSet c.txn) : PassesUnsafe env es txn :=
  ⟨hres, fun h => (h _ _ (.committed hc)).1 hm⟩

theorem PassesUnsafe.of_prepared {d : Digest} {p : Prepared}
    (hres : (((machine env).run {} es).doMVTSOOCCCheck env txn plain).2.result = .commit)
    (hp : ((machine env).run {} es).prepared d = some p)
    (hm : Missed env txn (mergedSets env txn).readSet p.txn ∨ Missed env p.txn p.readSet txn) :
    PassesUnsafe env es txn :=
  ⟨hres, fun h => hm.elim (h _ _ (.prepared hp)).1 (h _ _ (.prepared hp)).2⟩

def eraser (time : UInt64) : Transaction := smallTxn time 3 [] [put deletion]

def queryReader : Transaction :=
  { smallTxn 30000 1 [] [] with
    querySet := [{ queryId := [1], retryVersion := 0 }]
    mergedReadSet := some { readSet := [readAt .zero] } }

def doubleReader : Transaction := smallTxn 30000 1 [readAt ⟨25000, 2⟩, readAt .zero] []

def twin (seqNum : UInt64) : Transaction :=
  Env.sample.named { writer with clientSeqNum := seqNum }

def valueless : Transaction :=
  smallTxn 20000 2 [] [{ key := [2], value := some deletion }, { key := row }]

def sqlEnv : Env := { Env.sample with params := { sqlMode := true } }

/-- **The check does not make transactions safe.** By design it passes a transaction prepared before
the other one committed, and a read below a deletion. Besides, it overlooks queries and second reads
of prepared transactions and prepared writes below a deletion, and forgets one of two writes with
the same timestamp. -/
theorem check_not_safe :
    PassesUnsafe .sample [.check blindReader plain, .commit writer (.p1 []) 0] blindReader ∧
    PassesUnsafe .sample [.commit writer (.p1 []) 0, .commit (eraser 25000) (.p1 []) 0]
      blindReader ∧
    PassesUnsafe .sample [.commit (eraser 15000) (.p1 []) 0, .check writer plain] blindReader ∧
    PassesUnsafe .sample [.check queryReader plain] writer ∧
    PassesUnsafe .sample [.check doubleReader plain] writer ∧
    PassesUnsafe .sample [.check (twin 1) plain, .check (twin 2) plain,
      .abort (Env.digest .sample (twin 1))] blindReader ∧
    PassesUnsafe sqlEnv [.commit valueless (.p1 []) 0] blindReader := by
  refine ⟨?_, ?_, ?_, ?_, ?_, ?_, ?_⟩
  · exact .of_committed (d := Env.digest .sample writer)
      (c := ⟨writer, committedProof .sample writer (.p1 []) 0⟩) (by decide +kernel)
      (by decide +kernel) (by decide +kernel)
  · exact .of_committed (d := Env.digest .sample writer)
      (c := ⟨writer, committedProof .sample writer (.p1 []) 0⟩) (by decide +kernel)
      (by decide +kernel) (by decide +kernel)
  · exact .of_prepared (d := Env.digest .sample writer) (p := ⟨⟨20000, 2⟩, writer, []⟩)
      (by decide +kernel) (by decide +kernel) (by decide +kernel)
  · exact .of_prepared (d := Env.digest .sample queryReader)
      (p := ⟨⟨30000, 1⟩, queryReader, [readAt .zero]⟩) (by decide +kernel) (by decide +kernel)
      (by decide +kernel)
  · exact .of_prepared (d := Env.digest .sample doubleReader)
      (p := ⟨⟨30000, 1⟩, doubleReader, doubleReader.readSet⟩) (by decide +kernel)
      (by decide +kernel) (by decide +kernel)
  · exact .of_prepared (d := Env.digest .sample (twin 2)) (p := ⟨⟨20000, 2⟩, twin 2, []⟩)
      (by decide +kernel) (by decide +kernel) (by decide +kernel)
  · exact .of_committed (d := Env.digest sqlEnv valueless)
      (c := ⟨valueless, committedProof sqlEnv valueless (.p1 []) 0⟩) (by decide +kernel)
      (by decide +kernel) (by decide +kernel)

end Sintr.Mvtso
