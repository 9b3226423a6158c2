import Sintr.Client.ReplayState
import Sintr.Data.Layout

/-!
# Completeness of validation

When an honest client forwards what its program reads, the clients that validate the transaction
should sign the digest that it expects.

* `digests_agree_iff`: the digests agree if the participants do.
-/

namespace Sintr.Client

open Quorum Marks Sorting Validation List Option

/-! ## Validation of replayable programs -/

section
variable {venv : ValidationEnv} {t : TxnPolicyType}
  {calls : List (ProgramCall venv.config.groups)} {s : Replay}

theorem readMessage_key (r : ForwardReadResult) : (readMessage venv r).key = r.key := by
  unfold readMessage
  split <;> rfl

variable {rs : List ProgramRead}

theorem FirstNew.keys (h : FirstNew rs) :
    ((rs.filter (·.new)).map (·.key)).toFinset = (rs.map (·.key)).toFinset := by
  ext k
  simp only [List.mem_toFinset]
  constructor
  · intro hk
    obtain ⟨r, hr, rfl⟩ := mem_map.1 hk
    exact mem_map_of_mem (mem_filter.1 hr).1
  · intro hk
    obtain ⟨v, hv⟩ := isSome_iff_exists.1 (h.lastOf_isSome hk)
    obtain ⟨r, hr, hnew, rfl⟩ := mem_of_lastOf_newValues hv
    exact mem_map_of_mem (mem_filter.2 ⟨hr, hnew⟩)

theorem FirstNew.take (h : FirstNew rs) (m : Nat) :
    FirstNew (rs.take m) := by
  intro before r after heq
  refine h before r (after ++ rs.drop m) ?_
  rw [← cons_append, ← append_assoc, ← heq, take_append_drop]

theorem Follows.commit_alive (hp : Replayable venv t calls)
    (h : Follows venv (reads t calls) t calls s) (halive : s.val.crashed = false)
    (hmade : s.made = calls.length) (hrun : s.val.runnable = true) :
    (s.val.commit venv).crashed = false := by
  simp only [runnable, Bool.and_eq_true, isNone_iff_eq_none, Bool.not_eq_true'] at hrun
  have hkeys := reads_keys t calls
  have hall := h.all_handled hkeys hmade hrun.1
  have hpending := h.matched.pending_nil hrun.1
    (by rw [hmade, take_length, ← hkeys, length_map])
  have hreads : s.val.readsMatch venv = true := by
    have hset : (s.val.readSet.map (·.key)).toFinset = s.val.seenReads := by
      rw [h.heard.readSet, h.ran.seenReads, hall, hmade, take_length, take_length,
        ← hkeys, ← hp.first.keys, List.map_map]
      congr 1
      refine map_congr_left fun r _ => ?_
      rw [Function.comp_apply, readMessage_key, message_key]
    unfold readsMatch
    simp only [hset]
    split <;> simp
  have hignored : s.val.ignoredWritten = true := by
    rw [ignoredWritten_iff, h.heard.ignored, h.ran.writeValues, hall, hmade, take_length,
      take_length]
    exact hp.written
  unfold Validation.commit
  rw [if_neg (by simp [hpending, hreads, hignored])]
  split <;> exact halive

theorem Follows.moves_alive (hp : Replayable venv t calls)
    (h : Follows venv (reads t calls) t calls s) (halive : s.val.crashed = false)
    {e : ReplayEvent} {s' : Replay} (he : Timely e)
    (hmove : s.Moves venv ((reads t calls).map (·.message venv.toEnv)) calls e s') :
    s'.val.crashed = false := by
  cases hmove with
  | arrive hmsg =>
    obtain ⟨r, hr, rfl⟩ := sent_at hmsg
    rw [receive_eq, if_neg]
    · exact halive
    · rintro ⟨hcheck, hno⟩
      simp only [message_addReadset, Bool.and_eq_true] at hcheck
      exact hno (hp.evidence hcheck.1.2 r (mem_of_getElem? hr) hcheck.1.1)
  | handle hlt =>
    obtain ⟨x, hx⟩ : ∃ x, s.val.arrivals[s.handled]? = some x := ⟨_, getElem?_eq_getElem hlt⟩
    obtain ⟨r, hr, hmsg⟩ := h.vouched.read_at hx
    rw [handle_eq hx (h.vouched.queue.fresh _ x hx (Nat.le_refl _)), process_eq, hmsg, if_neg]
    · rw [processed_crashed]
      exact halive
    · rintro ⟨hnew, hnone⟩
      rw [message_addReadset] at hnew
      have hvalue : lastOf r.key (newValues ((reads t calls).take s.handled)) = none := by
        rw [← h.heard.readValues]
        rw [message_key] at hnone
        exact hnone
      -- a read that is not new is not the first of its key, and the first one is new
      have hsplit : reads t calls =
          (reads t calls).take s.handled ++ r :: (reads t calls).drop (s.handled + 1) := by
        obtain ⟨hi, heq⟩ := List.getElem?_eq_some_iff.1 hr
        rw [← heq, ← drop_eq_getElem_cons hi, take_append_drop]
      by_cases hkey : r.key ∈ ((reads t calls).take s.handled).map (·.key)
      · have hsome := (hp.first.take s.handled).lastOf_isSome hkey
        rw [hvalue] at hsome
        cases hsome
      · rw [hp.first _ r _ hsplit hkey] at hnew
        cases hnew
  | @check i x hx hun =>
    obtain ⟨r, hr, hmsg⟩ := h.vouched.read_at hx
    have haccept : readSigHelper venv x.msg = .accept := by
      have hnew := hun.2.1
      rw [hmsg, message_addReadset] at hnew
      rw [hmsg]
      exact hp.evidence hun.2.2.1 r (mem_of_getElem? hr) hnew
    rcases check_cases venv s.val i with ⟨hsame, -⟩ | ⟨y, hy, -, hcheck⟩
    · rw [hsame]
      exact halive
    · obtain rfl : x = y := some.inj (hx.symm.trans hy)
      rw [hcheck, if_pos haccept, (accepted_arrivals s.val i x).2.1]
      exact halive
  | @perform c hrun hc => exact (perform_frame c s.val).2.1.trans halive
  | commit hrun hc => exact h.commit_alive hp halive (Nat.le_antisymm h.made_le hc) hrun
  | expire hwait => exact absurd rfl he

theorem run_alive (hp : Replayable venv start.policyType calls) {es : List ReplayEvent}
    (hes : ∀ e ∈ es, Timely e) :
    ((replay venv ((reads start.policyType calls).map (·.message venv.toEnv)) calls).run
      (Replay.init start) es).val.crashed = false := by
  refine (Machine.run_along (P := fun _ e => Timely e)
    (I := fun s => s.val.crashed = false ∧
      Follows venv (reads start.policyType calls) start.policyType calls s) (fun s e he h => ?_)
    ⟨rfl, follows_init start⟩ (Machine.along_of_forall hes)).1
  rcases step_cases s e with hsame | ⟨-, hmove⟩
  · rw [hsame]
    exact h
  · have halive := h.2.moves_alive hp h.1 he hmove
    exact ⟨halive, h.2.moves (reads_keys _ _) hmove halive⟩

theorem Follows.finished_of_quiescent (hkeys : rs.map (·.key) = gets calls)
    (h : Follows venv rs t calls s) (halive : s.val.crashed = false)
    (hq : (replay venv (rs.map (·.message venv.toEnv)) calls).Quiescent Timely s) :
    s.handled = rs.length ∧ s.val.arrivals.length = rs.length ∧ s.val.finished = true := by
  have hlen := h.vouched.length_le
  have hle := h.vouched.queue.handled_le
  have harrived : s.val.arrivals.length = rs.length := by
    by_contra hne
    have hmsg : (rs.map (·.message venv.toEnv))[s.val.arrivals.length]? = some _ :=
      getElem?_eq_getElem (by rw [length_map]; omega)
    exact not_moves_of_quiescent hq (by decide) halive (.arrive hmsg)
  have hhandled : s.handled = s.val.arrivals.length := by
    by_contra hne
    exact not_moves_of_quiescent hq (by decide) halive (.handle (by omega))
  refine ⟨hhandled.trans harrived, harrived, ?_⟩
  by_contra hnot
  have hidle : s.val.pendingGet = none := by
    by_contra hwait
    obtain ⟨k, hk⟩ := ne_none_iff_exists'.1 hwait
    have hcount := h.matched.count
    have htaken := h.matched.length_taken
    have hlast := (gets_take_isPrefix hkeys s.made).length_le
    rw [hk, toList_some, length_singleton] at hcount
    rw [(h.matched.waiting k hk).1, length_nil] at htaken
    rw [length_map] at hlast
    omega
  have hrun : s.val.runnable = true := by
    rw [Bool.not_eq_true] at hnot
    simp [runnable, hidle, hnot]
  cases hc : calls[s.made]? with
  | some c => exact not_moves_of_quiescent hq (by decide) halive (.perform hrun hc)
  | none =>
    exact not_moves_of_quiescent hq (by decide) halive
      (.commit hrun (getElem?_eq_none_iff.1 hc))

theorem Follows.committed_of_quiescent (hp : Replayable venv t calls)
    (h : Follows venv (reads t calls) t calls s) (halive : s.val.crashed = false)
    (hq : (replay venv ((reads t calls).map (·.message venv.toEnv)) calls).Quiescent Timely s) :
    s.val.committed = true := by
  obtain ⟨hhandled, harrived, hfin⟩ := h.finished_of_quiescent (reads_keys t calls) halive hq
  rcases h.ended.told hfin with hc | hwait
  · exact hc
  · -- some evidence is not checked yet
    obtain ⟨-, hpar, hlt⟩ := h.ended.commitWait hwait
    rw [h.vouched.numValid hpar, h.heard.numPending, hhandled, take_length] at hlt
    have hcheck : venv.clientCheckEvidence = true := by
      by_contra hno
      rw [Bool.not_eq_true] at hno
      have hnone := hp.counted hpar hno
      rw [← reads_keys t calls, map_eq_nil_iff] at hnone
      rw [hnone, countP_nil] at hlt
      omega
    rw [h.vouched.countP_new harrived] at hlt
    obtain ⟨x, hx, hxadd, hxno⟩ : ∃ x ∈ s.val.arrivals, x.msg.result.addReadset = true ∧
        x.checked = false := by
      by_contra hall
      push Not at hall
      refine absurd (countP_mono_left fun x hx hxadd => ?_) (Nat.not_le.2 hlt)
      simpa using hall x hx hxadd
    obtain ⟨i, hi⟩ := mem_iff_getElem?.1 hx
    exact absurd (.check hi ⟨hxno, hxadd, hcheck, hpar⟩)
      (not_moves_of_quiescent hq (by simp [Timely]) halive)

end

/-! ## More messages than reads -/

section
variable {venv : ValidationEnv} {sent : List ForwardReadResultMessage}
  {calls : List (ProgramCall venv.config.groups)} {e : ReplayEvent} {s s' : Replay}

def Running (s : Validation) : Prop :=
  s.finished = false ∧ s.commitWait = false ∧ s.committed = false

/-- The messages that were processed and not asked for are pending. -/
structure Crowded (sent : List ForwardReadResultMessage)
    (calls : List (ProgramCall venv.config.groups)) (s : Replay) : Prop where
  arrived : s.val.arrivals.length ≤ sent.length
  queue : Queued s.handled s.val.arrivals
  pending : s.handled + s.val.pendingGet.toList.length ≤
    s.val.pendingForwardedRead.length + (gets (calls.take s.made)).length
  running : Running s.val

theorem Crowded.perform (h : Crowded sent calls s) {c : ProgramCall venv.config.groups}
    (hidle : s.val.pendingGet = none) (hc : calls[s.made]? = some c) :
    Crowded sent calls { s with val := c.perform venv s.val, made := s.made + 1 } := by
  obtain ⟨harr, -, hfin, hwait, hcom⟩ := perform_frame c s.val
  have hpending := h.pending
  have hgets : (gets (calls.take (s.made + 1))).length =
      (gets (calls.take s.made)).length + c.op.read?.toList.length := by
    rw [take_add_one, hc, toList_some, gets_snoc, length_append]
  refine ⟨harr ▸ h.arrived, harr ▸ h.queue, ?_, hfin.trans h.running.1,
    hwait.trans h.running.2.1, hcom.trans h.running.2.2⟩
  rw [hgets]
  cases hop : c.op with
  | put k v g =>
    rw [perform_put hop, put_eq]
    exact hpending
  | get k g =>
    rw [perform_get hop]
    rw [hidle] at hpending
    cases hfind : s.val.pendingForwardedRead.find? fun r => decide (r.key = k) with
    | some r =>
      have herase := length_eraseP_of_mem (mem_of_find?_eq_some hfind)
        (find?_some hfind)
      have hpos := length_pos_of_mem (mem_of_find?_eq_some hfind)
      rw [get_found hfind]
      simp [herase, hidle, Op.read?] at hpending ⊢
      omega
    | none =>
      rw [get_waits hfind]
      simp [Op.read?] at hpending ⊢
      omega

theorem Crowded.moves (hlt : (gets calls).length < sent.length) (h : Crowded sent calls s)
    (hmove : s.Moves venv sent calls e s')
    (he : e = .arrive ∨ e = .handle ∨ sent.length ≤ s.handled) (halive : s'.val.crashed = false) :
    Crowded sent calls s' ∧ s.handled ≤ s'.handled := by
  have hpending := h.pending
  cases hmove with
  | arrive hmsg =>
    have hlt := (List.getElem?_eq_some_iff.1 hmsg).1
    rw [receive_eq] at halive ⊢
    split at halive
    · cases halive
    · rename_i hok
      rw [if_neg hok]
      exact ⟨⟨by simpa [Nat.succ_le_iff] using hlt, h.queue.arrive rfl, hpending, h.running⟩,
        Nat.le_refl _⟩
  | handle hlt =>
    have hx := getElem?_eq_getElem hlt
    rw [handle_eq hx (h.queue.fresh _ _ hx (Nat.le_refl _)), process_eq] at halive ⊢
    split at halive
    · cases halive
    · rename_i hok
      rw [if_neg hok, processed]
      split
      · rename_i hwait
        rw [show s.val.pendingGet = _ from hwait] at hpending
        exact ⟨⟨by simpa [edited, deliver, processing] using h.arrived, h.queue.process hx,
          hpending, h.running⟩, Nat.le_succ _⟩
      · refine ⟨⟨by simpa [edited, processing] using h.arrived, h.queue.process hx, ?_, h.running⟩,
          Nat.le_succ _⟩
        simp [edited, processing]
        omega
  | @check i x hx hun =>
    rcases check_cases venv s.val i with ⟨hsame, -⟩ | ⟨y, hy, -, hcheck⟩
    · rw [hsame]
      exact ⟨h, Nat.le_refl _⟩
    · rw [hcheck] at halive ⊢
      split at halive
      · rename_i hok
        rw [if_pos hok, accepted, if_neg (by simp [h.running.2.1])]
        exact ⟨⟨by simpa using h.arrived, h.queue.accept hy, hpending, h.running⟩, Nat.le_refl _⟩
      · cases halive
  | perform hrun hc =>
    simp only [runnable, Bool.and_eq_true, isNone_iff_eq_none] at hrun
    exact ⟨h.perform hrun.1 hc, Nat.le_refl _⟩
  | commit hrun hc =>
    -- a message is left over, so that the commit panics
    have hle : (gets (calls.take s.made)).length ≤ (gets calls).length :=
      ((List.take_prefix s.made calls).filterMap _).length_le
    have hleft : s.val.pendingForwardedRead ≠ [] := by
      intro hnil
      simp [hnil] at he hpending
      omega
    simp [Validation.commit, hleft, Validation.panic] at halive
  | expire hwait => cases halive

end

/-! ## Digests -/

section
variable {venv : ValidationEnv} {start : TxnStart} {calls : List (ProgramCall venv.config.groups)}
  {ini : Initiator venv.config.groups} {s : Replay} (sort : KeySort Key)

theorem readBytes_message {r : ProgramRead} (hnew : r.new = true) :
    readBytes venv.params.hideTimestamps (readMessage venv (r.message venv.toEnv).result) =
      readBytes venv.params.hideTimestamps
        (recordedRead venv.toEnv { key := r.key, readtime := r.answer.timestamp }) := by
  rw [ProgramRead.new] at hnew
  cases hhide : venv.params.hideTimestamps with
  | false =>
    simp [readMessage, recordedRead, readBytes, versionBytes, ProgramRead.message,
      forwardReadResult, hnew, hhide, Version.timestamp?]
  | true =>
    cases hempty : timestampDigest venv.H r.answer.timestamp <;>
      simp [readMessage, recordedRead, readBytes, versionBytes, ProgramRead.message,
        forwardReadResult, hnew, hhide, Version.hashed?, hempty]

theorem flatMap_sorted {α : Type} (p : Bool) {key : α → Key} {f : α → Bytes} {l l' : List α}
    (hkey : l.map key = l'.map key) (hf : l.map f = l'.map f) :
    (if p then sort.apply key l else l).flatMap f =
      (if p then sort.apply key l' else l').flatMap f := by
  cases p with
  | true => exact sort.flatMap_apply hkey hf
  | false =>
    rw [if_neg (by simp), if_neg (by simp), flatMap_def, flatMap_def, hf]

theorem transactionBytes_agree (hf : Forwards venv.toEnv start.policyType calls ini)
    (h : Follows venv (reads start.policyType calls) start.policyType calls s)
    (hfin : s.val.finished = true) :
    transactionBytes (s.val.transaction venv.toEnv sort start) venv.params.hideTimestamps false =
      transactionBytes { ini.transaction venv.toEnv sort start with
        involvedGroups := sortedGroups s.val.involvedGroups } venv.params.hideTimestamps false := by
  obtain ⟨hhandled, hmade, -⟩ := h.ended.finished hfin
  have hreads := h.heard.readSet
  have hdeps := h.heard.deps
  rw [hhandled, take_length] at hreads hdeps
  have hwrites := h.ran.writeSet
  rw [hmade, take_length] at hwrites
  have hkeys : s.val.readSet.map (·.key) =
      (ini.client.readSet.map (recordedRead venv.toEnv)).map (·.key) := by
    rw [hreads, hf.readSet]
    simp [readMessage_key, recordedRead]
  have hbytes : s.val.readSet.map (readBytes venv.params.hideTimestamps) =
      (ini.client.readSet.map (recordedRead venv.toEnv)).map
        (readBytes venv.params.hideTimestamps) := by
    rw [hreads, hf.readSet, List.map_map, List.map_map, List.map_map]
    exact map_congr_left fun r hr => readBytes_message (mem_filter.1 hr).2
  have hsorted := flatMap_sorted sort venv.params.parallelCCC hkeys hbytes
  simp only [transactionBytes, Validation.transaction, Initiator.transaction, sortTransaction,
    hsorted, hwrites, hf.writeSet, hdeps, hf.deps]
  cases venv.params.hideTimestamps <;> rfl

theorem transactionBytes_groups (txn : Transaction) (hashedTS : Bool) :
    ∃ rest,
      transactionBytes txn hashedTS false =
        le64 txn.clientId ++ le64 txn.clientSeqNum ++ (txn.involvedGroups.flatMap le64 ++ rest) ∧
      ∀ groups : List GroupId,
        transactionBytes { txn with involvedGroups := groups } hashedTS false =
          le64 txn.clientId ++ le64 txn.clientSeqNum ++ (groups.flatMap le64 ++ rest) := by
  simp only [transactionBytes, append_assoc]
  exact ⟨_, rfl, fun _ => rfl⟩

theorem flatMap_le64_injective : Function.Injective (flatMap le64) := by
  intro xs ys h
  have hlen := congrArg length h
  simp only [length_flatMap, length_le64, map_const', sum_replicate_nat] at hlen
  have hcontent := framed_le64.flatMap.inj (x := xs) (y := ys) (by simp; omega) h
  simpa using hcontent

theorem digests_agree_iff (hf : Forwards venv.toEnv start.policyType calls ini)
    (h : Follows venv (reads start.policyType calls) start.policyType calls s)
    (hfin : s.val.finished = true) :
    (∀ H : HashFn, { venv.toEnv with H }.endorsedDigest (s.val.transaction venv.toEnv sort start) =
        { venv.toEnv with H }.endorsedDigest (ini.transaction venv.toEnv sort start)) ↔
      (venv.params.hashDigest = true →
        sortedGroups ((participants start.policyType (·.validatorGroup) calls).map (·.val)) =
          sortedGroups ((participants start.policyType (·.op.group) calls).map (·.val))) := by
  have hval : sortedGroups s.val.involvedGroups =
      sortedGroups ((participants start.policyType (·.validatorGroup) calls).map (·.val)) := by
    have hgroups := h.ran.groups
    rw [(h.ended.finished hfin).2.1, take_length] at hgroups
    rw [hgroups]
  rw [← hval, ← hf.groups]
  obtain ⟨rest, hini, hrest⟩ := transactionBytes_groups (ini.transaction venv.toEnv sort start)
    venv.params.hideTimestamps
  have hrun := (transactionBytes_agree sort hf h hfin).trans (hrest _)
  have hgroups : (ini.transaction venv.toEnv sort start).involvedGroups =
      sortedGroups (ini.client.involvedGroups.map (·.val)) := rfl
  rw [hgroups] at hini
  have hdigest (H : HashFn) (txn : Transaction) (hpv : txn.policyVersions = []) :
      { venv.toEnv with H }.endorsedDigest txn =
        if venv.params.hashDigest then H (transactionBytes txn venv.params.hideTimestamps false)
        else le64 txn.clientId ++ le64 txn.clientSeqNum := by
    simp [Env.endorsedDigest, policyVersionDigest, hpv, Env.bareDigest, transactionDigest]
  have hvers : (s.val.transaction venv.toEnv sort start).policyVersions = [] := rfl
  have hvers' : (ini.transaction venv.toEnv sort start).policyVersions = [] := rfl
  constructor
  · intro hall hhash
    have heq := hall id
    rw [hdigest id _ hvers, hdigest id _ hvers', if_pos hhash, if_pos hhash, hini, hrun] at heq
    exact flatMap_le64_injective (append_cancel_right (append_cancel_left heq))
  · intro hgroups H
    rw [hdigest H _ hvers, hdigest H _ hvers']
    cases hhash : venv.params.hashDigest with
    | false =>
      rw [if_neg (by simp), if_neg (by simp)]
      rfl
    | true =>
      rw [if_pos rfl, if_pos rfl, hini, hrun, hgroups hhash]

end

/-! ## Completeness -/

section
variable {venv : ValidationEnv} {start : TxnStart} {calls : List (ProgramCall venv.config.groups)}
  {ini : Initiator venv.config.groups} {s : Replay} {sort : KeySort Key}

theorem length_sent_le (h : Replays venv sort start calls ini) :
    ini.sent.length ≤ (gets calls).length := by
  by_contra hlt
  rw [Nat.not_le] at hlt
  -- all messages are processed first
  obtain ⟨es, hes, hq⟩ := exists_end ini.sent calls (fun e => e = .arrive ∨ e = .handle)
    (Replay.init start)
  have htimely : ∀ e ∈ es, Timely e := by
    intro e he
    rcases hes e he with rfl | rfl <;> decide
  have halive := (h es htimely).1
  have hcrowd := Machine.run_along (M := replay venv ini.sent calls)
    (I := fun s => s.val.crashed = false → Crowded ini.sent calls s) (fun s e he h halive => by
      rcases step_cases s e with hsame | ⟨hcrash, hmove⟩
      · rw [hsame] at halive ⊢
        exact h halive
      · exact ((h hcrash).moves hlt hmove (he.imp_right .inl) halive).1)
    (fun _ => ⟨Nat.zero_le _, ⟨Nat.le_refl _, fun i x hx => by cases hx⟩, Nat.zero_le _, rfl, rfl,
      rfl⟩)
    (Machine.along_of_forall hes) halive
  have hhandled : ini.sent.length ≤
      ((replay venv ini.sent calls).run (Replay.init start) es).handled := by
    have hle := hcrowd.arrived
    by_contra hne
    by_cases hnext : ((replay venv ini.sent calls).run (Replay.init start) es).handled <
        ((replay venv ini.sent calls).run (Replay.init start) es).val.arrivals.length
    · exact not_moves_of_quiescent hq (.inr rfl) halive (.handle hnext)
    · exact not_moves_of_quiescent hq (.inl rfl) halive
        (.arrive (getElem?_eq_getElem (by omega)))
  -- whatever the program does then, one is left over
  obtain ⟨es', hes', hq'⟩ := exists_end ini.sent calls Timely
    ((replay venv ini.sent calls).run (Replay.init start) es)
  rw [← Machine.run_append] at hq'
  obtain ⟨halive', -, -, hend, -⟩ := h (es ++ es') (forall_mem_append.2 ⟨htimely, hes'⟩)
  have hcom := hend hq'
  rw [Machine.run_append] at halive' hcom
  have hover := Machine.run_induct (M := replay venv ini.sent calls)
    (I := fun s => s.val.crashed = false → Crowded ini.sent calls s ∧ ini.sent.length ≤ s.handled)
    (fun s e h halive => by
      rcases step_cases s e with hsame | ⟨hcrash, hmove⟩
      · rw [hsame] at halive ⊢
        exact h halive
      · obtain ⟨hcrowd, hle⟩ := h hcrash
        exact (hcrowd.moves hlt hmove (.inr (.inr hle)) halive).imp_right hle.trans)
    (fun _ => ⟨hcrowd, hhandled⟩) es' halive'
  simp [hover.1.running.2.2] at hcom

theorem Follows.all_checked {rs : List ProgramRead}
    (h : Follows venv rs start.policyType calls s) (hcom : s.val.committed = true)
    (hcheck : venv.clientCheckEvidence = true) (hhandled : s.handled = rs.length)
    (harrived : s.val.arrivals.length = rs.length) {r : ProgramRead} (hr : r ∈ rs)
    (hnew : r.new = true) : readSigHelper venv (r.message venv.toEnv) = .accept := by
  have hmsgs := h.vouched.msgs
  rw [harrived, take_length] at hmsgs
  have hmem : r.message venv.toEnv ∈ s.val.arrivals.map (·.msg) := by
    rw [hmsgs]
    exact mem_map_of_mem hr
  obtain ⟨x, hx, hmsg⟩ := mem_map.1 hmem
  have hadd : x.msg.result.addReadset = true := by
    rw [hmsg, message_addReadset]
    exact hnew
  have hchecked : x.checked = true := by
    cases hpar : venv.parallelQuerySigsCheck with
    | false => exact h.vouched.direct hpar hcheck x hx hadd
    | true =>
      have hle := (h.ended.committed hcom).2 hpar
      rw [h.vouched.numValid hpar, h.heard.numPending, hhandled, take_length,
        h.vouched.countP_new harrived] at hle
      exact forall_of_countP_le (fun x hx hc => (h.vouched.checked x hx hc).1) hle x hx hadd
  rw [← hmsg]
  exact (h.vouched.checked x hx hchecked).2.2

theorem Follows.none_new {rs : List ProgramRead}
    (h : Follows venv rs start.policyType calls s) (hcom : s.val.committed = true)
    (hcheck : venv.clientCheckEvidence = false) (hpar : venv.parallelQuerySigsCheck = true)
    (hhandled : s.handled = rs.length) : ∀ r ∈ rs, r.new = false := by
  have hle := (h.ended.committed hcom).2 hpar
  have hzero : s.val.arrivals.countP (·.checked) = 0 := by
    rw [countP_eq_zero]
    intro x hx hc
    have hyes := (h.vouched.checked x hx hc).2.1
    rw [hcheck] at hyes
    cases hyes
  rw [h.vouched.numValid hpar, hzero, h.heard.numPending, hhandled, take_length] at hle
  have hnone := countP_eq_zero.1 (Nat.le_zero.1 hle)
  intro r hr
  simpa using hnone r hr

theorem replayable_of_replays (hf : Forwards venv.toEnv start.policyType calls ini)
    (hplain : ∀ c ∈ calls, c.pulls start.policyType = false)
    (h : Replays venv sort start calls ini) : Replayable venv start.policyType calls := by
  have hkeys := reads_keys start.policyType calls
  obtain ⟨es, hes, hq⟩ := exists_end ini.sent calls Timely (Replay.init start)
  obtain ⟨halive, -, hdigest, hend, -⟩ := h es hes
  have hcom := hend hq
  have hagree := (hdigest hcom).2
  rw [hf.sent] at halive hq hcom hagree
  have hfol := follows_run hkeys start es halive
  obtain ⟨hhandled, harrived, hfin⟩ := hfol.finished_of_quiescent hkeys halive hq
  have hfirst := hfol.heard.first
  rw [hhandled, take_length] at hfirst
  refine ⟨hplain, hfirst, (hfol.ended.finished hfin).2.2.2, ?evidence, ?counted, ?groups⟩
  case evidence =>
    intro hcheck r hr hnew
    exact hfol.all_checked hcom hcheck hhandled harrived hr hnew
  case counted =>
    intro hpar hcheck
    rw [← hkeys]
    cases hrs : reads start.policyType calls with
    | nil => rfl
    | cons r rs =>
      have hno := hfol.none_new hcom hcheck hpar hhandled r (by rw [hrs]; exact mem_cons_self)
      rw [hfirst [] r rs hrs (by simp)] at hno
      cases hno
  case groups => exact (digests_agree_iff sort hf hfol hfin).1 hagree

theorem replays_of_replayable (hf : Forwards venv.toEnv start.policyType calls ini)
    (hp : Replayable venv start.policyType calls) : Replays venv sort start calls ini := by
  have hkeys := reads_keys start.policyType calls
  intro es hes
  rw [hf.sent]
  intro M s
  have halive : s.val.crashed = false := run_alive hp hes
  have hfol : Follows venv (reads start.policyType calls) start.policyType calls s :=
    follows_run hkeys start es halive
  refine ⟨halive, ?_, fun hcom => ?_, hfol.committed_of_quiescent hp halive, exists_end _ _ _ _⟩
  · rw [hf.returned]
    exact (prefix_append _ _).trans (hfol.matched.taken ▸ (List.take_prefix _ _).map _)
  · have hfin := (hfol.ended.committed hcom).1
    obtain ⟨hhandled, hmade, hidle, -⟩ := hfol.ended.finished hfin
    refine ⟨?_, (digests_agree_iff sort hf hfol hfin).2 hp.groups⟩
    have htaken := hfol.matched.taken
    rw [hfol.matched.pending_nil hidle (by rw [hmade, take_length, ← hkeys, length_map]),
      hhandled, take_length, map_nil, append_nil] at htaken
    rw [htaken, hf.returned]

/-- **Completeness of validation**: an honest client's program runs to COMMITTED at a validating
client, with the same values and digest in every interleaving, if and only if it is `Replayable`. -/
theorem replays_iff (c : State venv.config.groups)
    (h : initiate venv.toEnv { client := c.begin start.policyType } calls = some ini) :
    Replays venv sort start calls ini ↔ Replayable venv start.policyType calls := by
  constructor
  · intro hrep
    have hplain : ∀ call ∈ calls, call.pulls start.policyType = false := by
      have hlen := length_sent_le hrep
      rw [(length_sent c h).2] at hlen
      have hzero : calls.countP (·.pulls start.policyType) = 0 := by omega
      simpa [List.countP_eq_zero] using hzero
    exact replayable_of_replays (forwards_of_initiate c hplain h) hplain hrep
  · intro hp
    exact replays_of_replayable (forwards_of_initiate c hp.plain h) hp

end

/-! ## Programs that are not validated -/

def reportedReply : ReadReply where
  value := [5]
  timestamp := ⟨100, 2⟩
  proof := reportedRead.proof
  signedWrite := some ⟨[5], 0, []⟩

def getCall : ProgramCall (reportEnv false).config.groups where
  op := .get [7] ⟨0, by decide⟩
  reply := reportedReply
  validatorGroup := ⟨0, by decide⟩

def putCall : ProgramCall (reportEnv false).config.groups where
  op := .put [7] [6] ⟨0, by decide⟩
  validatorGroup := ⟨0, by decide⟩

def idleClient : State (reportEnv false).config.groups where
  policyType := .none
  writeSet := []
  readSet := []
  involvedGroups := []
  shards := fun _ => {}

def startedTxn : TxnStart := ⟨1, 1, ⟨200, 1⟩, .none⟩

def keySort : KeySort Key := .merge (fun _ _ _ => List.le_trans) List.le_total

theorem replayable_get_put_get :
    Replayable (reportEnv false) startedTxn.policyType [getCall, putCall, getCall] := by
  have hreads : reads startedTxn.policyType [getCall, putCall, getCall] =
      [⟨[7], ⟨[5], ⟨100, 2⟩, true⟩, reportedReply⟩,
        ⟨[7], ⟨[6], Timestamp.zero, false⟩, reportedReply⟩] := rfl
  refine ⟨by decide, ?first, ?written, ?evidence, nofun, fun _ => rfl⟩
  case first =>
    rw [hreads]
    refine EachAfter.snoc (l := [_]) (EachAfter.snoc (l := []) eachAfter_nil fun _ => rfl) ?_
    intro hnot
    simp at hnot
  case written =>
    intro k
    rw [hreads]
    exact List.Sublist.refl _
  case evidence =>
    intro _ r hr hnew
    rw [hreads] at hr
    simp only [mem_cons, not_mem_nil, or_false] at hr
    rcases hr with rfl | rfl
    · decide +kernel
    · cases hnew

theorem replays_get_put_get :
    ∃ ini, initiate (reportEnv false).toEnv { client := idleClient.begin startedTxn.policyType }
        [getCall, putCall, getCall] = some ini ∧
      Replays (reportEnv false) keySort startedTxn [getCall, putCall, getCall] ini :=
  ⟨_, rfl, (replays_iff idleClient rfl).2 replayable_get_put_get⟩

def Panics (calls : List (ProgramCall (reportEnv false).config.groups)) : Prop :=
  ∃ ini, initiate (reportEnv false).toEnv { client := idleClient.begin startedTxn.policyType }
      calls = some ini ∧
    ∃ es, (∀ e ∈ es, Timely e) ∧
      ((replay (reportEnv false) ini.sent calls).run (Replay.init startedTxn) es).val.crashed = true

/-- One program reads what it wrote without having read the key before, one reads what it wrote
twice, and a `Put` of one pulls a policy. -/
theorem replay_panics :
    Panics [putCall, getCall] ∧ Panics [getCall, putCall, getCall, getCall] ∧
      Panics [getCall, { putCall with pull := some (⟨0, by decide⟩, reportedReply) }] := by
  refine ⟨⟨_, rfl, [.arrive, .handle], by decide, by decide +kernel⟩, ⟨_, rfl,
    [.arrive, .handle, .call, .call, .arrive, .handle, .call, .arrive, .handle, .call, .call],
    by decide, by decide +kernel⟩, _, rfl,
    [.arrive, .arrive, .handle, .handle, .call, .call, .call], by decide, by decide +kernel⟩

end Sintr.Client
