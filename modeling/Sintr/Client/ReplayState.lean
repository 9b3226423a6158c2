import Sintr.Client.Replay

/-!
# The state of a validating client

Whatever the interleaving, the messages that were processed and the calls that were made determine
what a validating client has recorded.
-/

namespace Sintr.Client

open Quorum Marks Sorting Validation List Option

/-! ## Messages -/

section
variable {venv : ValidationEnv} {rs : List ProgramRead} {r : ProgramRead} {s : Validation}
  {k : Key}

@[simp] theorem message_key (env : Env) (r : ProgramRead) : (r.message env).result.key = r.key := by
  unfold ProgramRead.message forwardReadResult
  split <;> rfl

@[simp] theorem message_value (env : Env) (r : ProgramRead) :
    (r.message env).result.value = r.answer.value := by
  unfold ProgramRead.message forwardReadResult
  split <;> rfl

@[simp] theorem message_addReadset (env : Env) (r : ProgramRead) :
    (r.message env).result.addReadset = r.new := by
  unfold ProgramRead.message forwardReadResult ProgramRead.new
  cases r.answer.addReadSet <;> rfl

theorem message_dep (env : Env) (r : ProgramRead) :
    (r.message env).result.dep = if r.new then r.reply.dep else none := by
  unfold ProgramRead.message forwardReadResult ProgramRead.new
  cases r.answer.addReadSet <;> rfl

theorem lastOf_snoc (k : Key) (ps : List (Key × Bytes)) (p : Key × Bytes) :
    lastOf k (ps ++ [p]) = if p.1 = k then some p.2 else lastOf k ps := by
  unfold lastOf firstOf
  rw [reverse_append, reverse_singleton, singleton_append, find?_cons]
  by_cases hk : p.1 = k <;> simp [hk]

theorem newValues_snoc (rs : List ProgramRead) (r : ProgramRead) :
    newValues (rs ++ [r]) = newValues rs ++ if r.new then [r.result] else [] := by
  unfold newValues
  cases hnew : r.new <;> simp [hnew]

theorem FirstNew.lastOf_isSome (h : FirstNew rs) (hk : k ∈ rs.map (·.key)) :
    (lastOf k (newValues rs)).isSome = true := by
  induction rs using reverseRecOn with
  | nil => simp at hk
  | append_singleton rs r ih =>
    have hrs : FirstNew rs := fun before a after heq => h before a (after ++ [r]) (by simp [heq])
    rw [newValues_snoc]
    by_cases hold : k ∈ rs.map (·.key)
    · cases hnew : r.new
      · simpa using ih hrs hold
      · rw [if_pos rfl, lastOf_snoc]
        split
        · rfl
        · exact ih hrs hold
    · have hkey : r.key = k := by
        have hk' : k ∈ rs.map (·.key) ∨ k = r.key := by simpa using hk
        exact (hk'.resolve_left hold).symm
      have hnew : r.new = true := h rs r [] rfl (hkey ▸ hold)
      rw [hnew, if_pos rfl, lastOf_snoc, if_pos (show r.result.1 = k from hkey)]
      rfl

theorem mem_of_lastOf_newValues {v : Bytes} (h : lastOf k (newValues rs) = some v) :
    ∃ r ∈ rs, r.new = true ∧ r.key = k := by
  obtain ⟨r, hr, hres⟩ := mem_map.1 (mem_of_lastOf h)
  obtain ⟨hmem, hnew⟩ := mem_filter.1 hr
  exact ⟨r, hmem, hnew, congrArg Prod.fst hres⟩

/-- The state after the messages of the reads `rs` were processed. -/
structure Heard (venv : ValidationEnv) (rs : List ProgramRead) (s : Validation) : Prop where
  readSet : s.readSet =
    (rs.filter (·.new)).map fun r => readMessage venv (r.message venv.toEnv).result
  readValues : ∀ k, s.readValues k = lastOf k (newValues rs)
  ignored : s.ignoreReadsetKv = ignoredReads rs
  deps : s.deps = (rs.filter (·.new)).flatMap (·.reply.dep.toList)
  numPending : s.numPendingReads = rs.countP (·.new)
  first : FirstNew rs

theorem Heard.edited (h : Heard venv rs s)
    (hok : ¬ (r.new = false ∧ s.readValues r.key = none)) :
    Heard venv (rs ++ [r]) (edited venv s (r.message venv.toEnv).result) := by
  refine ⟨?_, fun k => ?_, ?_, ?_, ?_, ?_⟩
  · simp only [Client.edited, h.readSet, message_addReadset]
    cases hnew : r.new <;> simp [hnew]
  · simp only [Client.edited, message_addReadset, message_key, message_value, newValues_snoc]
    cases hnew : r.new
    · simpa using h.readValues k
    · rw [if_pos rfl, if_pos rfl, lastOf_snoc]
      by_cases hk : r.key = k
      · subst hk
        rw [Function.update_self, if_pos (show r.result.1 = r.key from rfl)]
        rfl
      · rw [Function.update_of_ne (Ne.symm hk), if_neg (show r.result.1 ≠ k from hk)]
        exact h.readValues k
  · simp only [Client.edited, ignores, h.ignored, ignoredReads, flatMapAfter_snoc,
      message_addReadset, message_key, message_value, h.readValues]
    rfl
  · simp only [Client.edited, h.deps, message_dep]
    cases hnew : r.new <;> simp [hnew]
  · simp only [Client.edited, h.numPending, message_addReadset]
    cases hnew : r.new <;> simp [hnew]
  · refine EachAfter.snoc h.first fun hkey => ?_
    by_contra hnew
    rw [Bool.not_eq_true] at hnew
    obtain ⟨v, hv⟩ := ne_none_iff_exists'.1 fun hnone => hok ⟨hnew, hnone⟩
    obtain ⟨r', hr', -, hkey'⟩ := mem_of_lastOf_newValues ((h.readValues r.key).symm.trans hv)
    exact hkey (mem_map.2 ⟨r', hr', hkey'⟩)

end

/-! ## Calls -/

section
variable {venv : ValidationEnv} {t : TxnPolicyType} {d : List (ProgramCall venv.config.groups)}
  {s : Validation} {c : ProgramCall venv.config.groups} {g : Fin venv.config.groups} {α β : Type*}
  {f : α → β}

theorem map_addNew [DecidableEq α] [DecidableEq β] (hf : Function.Injective f) (l : List α)
    (a : α) :
    (addNew l a).map f = addNew (l.map f) (f a) := by
  unfold addNew
  by_cases ha : a ∈ l
  · rw [if_pos ha, if_pos (mem_map_of_mem ha)]
  · rw [if_neg ha, if_neg (fun hm => ha ((List.mem_map_of_injective hf).1 hm)), map_append]
    rfl

theorem map_foldl_addNew [DecidableEq α] [DecidableEq β] (hf : Function.Injective f)
    (as l : List α) :
    (as.foldl addNew l).map f = (as.map f).foldl addNew (l.map f) := by
  induction as generalizing l with
  | nil => rfl
  | cons a as ih => rw [foldl_cons, ih, map_addNew hf, map_cons, foldl_cons]

structure Ran (venv : ValidationEnv) (t : TxnPolicyType)
    (d : List (ProgramCall venv.config.groups)) (s : Validation) : Prop where
  policyType : s.policyType = t
  writeSet : s.writeSet = (puts (d.map (·.op))).map toWrite
  writeValues : s.writeValues = puts (d.map (·.op))
  seenReads : s.seenReads = (gets d).toFinset
  groups : s.involvedGroups = (participants t (·.validatorGroup) d).map (·.val)

theorem Ran.put (h : Ran venv t d s) {k : Key} {v : Bytes} (hop : c.op = .put k v g) :
    Ran venv t (d ++ [c]) (s.put venv k v c.validatorGroup) := by
  rw [put_eq]
  refine ⟨h.policyType, ?_, ?_, ?_, ?_⟩
  · simp [h.writeSet, puts, hop, Op.written, toWrite]
  · simp [h.writeValues, puts, hop, Op.written]
  · simp [h.seenReads, gets_snoc, hop, Op.read?]
  · show foldl _ _ _ = _
    rw [participants_snoc, map_foldl_addNew Fin.val_injective, ← h.groups, h.policyType]
    cases t
    · simp [ProgramCall.touched]
    · simp [ProgramCall.touched, hop, map_coe_finRange_eq_range]

theorem Ran.get (h : Ran venv t d s) {k : Key} (hop : c.op = .get k g) :
    Ran venv t (d ++ [c]) (s.get k c.validatorGroup) := by
  have hseen : insert k s.seenReads = (gets (d ++ [c])).toFinset := by
    ext x
    simp [h.seenReads, gets_snoc, hop, Op.read?]
  have hgroups : addNew s.involvedGroups c.validatorGroup =
      (participants t (·.validatorGroup) (d ++ [c])).map (·.val) := by
    rw [participants_snoc, map_foldl_addNew Fin.val_injective, ← h.groups]
    cases t <;> simp [ProgramCall.touched, hop]
  have hputs : puts ((d ++ [c]).map (·.op)) = puts (d.map (·.op)) := by
    simp [puts, hop, Op.written]
  rw [get_frame]
  exact ⟨h.policyType, by rw [hputs]; exact h.writeSet, by rw [hputs]; exact h.writeValues, hseen,
    hgroups⟩

end

/-! ## Reads and the calls that take them -/

section
variable {venv : ValidationEnv} {rs : List ProgramRead} {r : ProgramRead} {handled : Nat}
  {ks : List Key} {k : Key} {s : Validation}

@[simp] theorem gotten_got (trace : List Call) (k : Key) (v : Bytes) (i : Bool) :
    gotten (trace ++ [.got k v i]) = gotten trace ++ [(k, v)] := by
  simp [gotten]

@[simp] theorem gotten_put (trace : List Call) (k : Key) (v : Bytes) :
    gotten (trace ++ [.put k v]) = gotten trace := by
  simp [gotten]

theorem getElem?_of_isPrefix {α : Type*} {l l' : List α} (h : l <+: l') {i : Nat} {a : α}
    (hi : l[i]? = some a) : l'[i]? = some a := by
  obtain ⟨t, rfl⟩ := h
  rw [getElem?_append_left (List.getElem?_eq_some_iff.1 hi).1]
  exact hi

/-- With `handled` reads processed and `Get`s of the keys `ks` called, the reads are handed over in
order, and only the last `Get` may wait. -/
structure Matched (rs : List ProgramRead) (handled : Nat) (ks : List Key) (s : Validation) :
    Prop where
  taken : gotten s.trace ++ s.pendingForwardedRead.map (fun r => (r.key, r.value)) =
    (rs.take handled).map (·.result)
  count : (gotten s.trace).length + s.pendingGet.toList.length = ks.length
  waiting : ∀ k, s.pendingGet = some k →
    s.pendingForwardedRead = [] ∧ ks[(gotten s.trace).length]? = some k

theorem Matched.length_taken (h : Matched rs handled ks s) :
    (gotten s.trace).length + s.pendingForwardedRead.length = min handled rs.length := by
  simpa using congrArg length h.taken

theorem Matched.pending_nil (h : Matched rs handled ks s) (hidle : s.pendingGet = none)
    (hks : ks.length = rs.length) : s.pendingForwardedRead = [] := by
  have hlen := h.length_taken
  have hcount := h.count
  rw [hidle, toList_none, length_nil] at hcount
  exact length_eq_zero_iff.1 (by omega)

theorem Matched.processed (venv : ValidationEnv) (h : Matched rs handled ks s)
    (hks : ks <+: rs.map (·.key)) (hr : rs[handled]? = some r) :
    Matched rs (handled + 1) ks (processed venv s (r.message venv.toEnv).result) := by
  have htaken : (rs.take (handled + 1)).map (·.result) =
      gotten s.trace ++ s.pendingForwardedRead.map (fun r => (r.key, r.value)) ++ [r.result] := by
    rw [take_add_one, hr, map_append, h.taken]
    rfl
  have hcount := h.count
  unfold Client.processed
  rw [message_key]
  by_cases hwait : s.pendingGet = some r.key
  · rw [if_pos hwait]
    have hnil := (h.waiting _ hwait).1
    rw [hwait, toList_some, length_singleton] at hcount
    refine ⟨?_, ?_, fun k hk => by cases hk⟩
    · show gotten (s.trace ++ [_]) ++ s.pendingForwardedRead.map _ = _
      rw [gotten_got, htaken, hnil]
      simp [toForwarded, ProgramRead.result]
    · show (gotten (s.trace ++ [_])).length + 0 = _
      rw [gotten_got, length_append, length_singleton, Nat.add_zero, hcount]
  · rw [if_neg hwait]
    have hidle : s.pendingGet = none := by
      by_contra hsome
      obtain ⟨k, hk⟩ := ne_none_iff_exists'.1 hsome
      obtain ⟨hnil, hlast⟩ := h.waiting k hk
      -- the key that is waited for is the one of the message
      have hlen := h.length_taken
      rw [hnil, length_nil, Nat.min_eq_left (List.getElem?_eq_some_iff.1 hr).1.le] at hlen
      have hkey := getElem?_of_isPrefix hks hlast
      rw [getElem?_map, show (gotten s.trace).length = handled from hlen, hr] at hkey
      exact hwait (hk.trans hkey.symm)
    refine ⟨?_, hcount, fun k hk => by cases hidle.symm.trans hk⟩
    show gotten s.trace ++ map _ (s.pendingForwardedRead ++ [_]) = _
    rw [htaken]
    simp [toForwarded, ProgramRead.result]

theorem Matched.get (h : Matched rs handled ks s) (hks : ks ++ [k] <+: rs.map (·.key))
    (hidle : s.pendingGet = none) (g : Nat) : Matched rs handled (ks ++ [k]) (s.get k g) := by
  have hcount := h.count
  rw [hidle, toList_none, length_nil, Nat.add_zero] at hcount
  have htaken := h.taken
  cases hp : s.pendingForwardedRead with
  | nil =>
    rw [get_waits (by rw [hp]; rfl)]
    refine ⟨htaken, by simp [hcount], fun k' hk' => ⟨hp, ?_⟩⟩
    rw [← some.inj hk']
    simp [hcount]
  | cons p ps =>
    -- the read is there already, at the head of those not asked for yet
    rw [hp, map_cons] at htaken
    have hpk : p.key = k := by
      have hget : ((rs.take handled).map (·.result))[ks.length]? = some (p.key, p.value) := by
        simp [← htaken, ← hcount]
      have hkey := getElem?_of_isPrefix hks (i := ks.length) (a := k) (by simp)
      have hall := getElem?_of_isPrefix ((List.take_prefix handled rs).map (·.result)) hget
      rw [getElem?_map] at hkey hall
      obtain ⟨r, hr, hrp⟩ := map_eq_some_iff.1 hall
      rw [hr, map_some, some.injEq] at hkey
      exact (congrArg Prod.fst hrp).symm.trans hkey
    have hfind : (s.pendingForwardedRead.find? fun r => decide (r.key = k)) = some p := by
      rw [hp, find?_cons_of_pos (by simpa using hpk)]
    rw [get_found hfind]
    refine ⟨?_, ?_, fun k' hk' => absurd (hidle.symm.trans hk') nofun⟩
    · show gotten (s.trace ++ [_]) ++ map _ (eraseP _ s.pendingForwardedRead) = _
      rw [gotten_got, hp, eraseP_cons_of_pos (by simpa using hpk), ← htaken]
      simp
    · show (gotten (s.trace ++ [_])).length + s.pendingGet.toList.length = _
      simp [hidle, hcount]

theorem Matched.put (h : Matched rs handled ks s) (k : Key) (v : Bytes) (g : Nat) :
    Matched rs handled ks (s.put venv k v g) := by
  rw [put_eq]
  constructor
  · simpa using h.taken
  · simpa using h.count
  · simpa using h.waiting

end

/-! ## Evidence -/

section
variable {venv : ValidationEnv} {rs : List ProgramRead} {handled : Nat} {s : Validation}
  {xs : List Arrival} {i : Nat} {x : Arrival}

/-- The messages `xs` have arrived, and those from `handled` on are not processed yet. -/
structure Queued (handled : Nat) (xs : List Arrival) : Prop where
  handled_le : handled ≤ xs.length
  fresh : ∀ i x, xs[i]? = some x → handled ≤ i → x.processed = false

theorem Queued.arrive (h : Queued handled xs) (hx : x.processed = false) :
    Queued handled (xs ++ [x]) := by
  refine ⟨h.handled_le.trans (by simp), fun i y hy hi => ?_⟩
  rcases Nat.lt_or_ge i xs.length with hlt | hge
  · rw [getElem?_append_left hlt] at hy
    exact h.fresh i y hy hi
  · rw [getElem?_append_right hge, getElem?_singleton] at hy
    split at hy
    · rw [← some.inj hy]
      exact hx
    · cases hy

theorem Queued.process (h : Queued handled xs) (hx : xs[handled]? = some x) :
    Queued (handled + 1) (xs.set handled { x with processed := true }) := by
  refine ⟨?_, fun i y hy hi => ?_⟩
  · rw [length_set]
    exact (List.getElem?_eq_some_iff.1 hx).1
  · rw [getElem?_set_ne (by omega)] at hy
    exact h.fresh i y hy (by omega)

theorem Queued.accept (h : Queued handled xs) (hx : xs[i]? = some x) :
    Queued handled (xs.set i { x with checked := true }) := by
  refine ⟨by simpa using h.handled_le, fun j y hy hj => ?_⟩
  by_cases hij : i = j
  · subst hij
    rw [getElem?_set_self (List.getElem?_eq_some_iff.1 hx).1] at hy
    rw [← some.inj hy]
    exact h.fresh i x hx hj
  · rw [getElem?_set_ne hij] at hy
    exact h.fresh j y hy hj

structure Vouched (venv : ValidationEnv) (rs : List ProgramRead) (handled : Nat) (s : Validation) :
    Prop where
  msgs : s.arrivals.map (·.msg) = (rs.take s.arrivals.length).map (·.message venv.toEnv)
  queue : Queued handled s.arrivals
  checked : ∀ x ∈ s.arrivals, x.checked = true → x.msg.result.addReadset = true ∧
    venv.clientCheckEvidence = true ∧ readSigHelper venv x.msg = .accept
  direct : venv.parallelQuerySigsCheck = false → venv.clientCheckEvidence = true →
    ∀ x ∈ s.arrivals, x.msg.result.addReadset = true → x.checked = true
  numValid : venv.parallelQuerySigsCheck = true →
    s.numValidReads = s.arrivals.countP (·.checked)

variable (h : Vouched venv rs handled s)
include h

theorem Vouched.length_le : s.arrivals.length ≤ rs.length := by
  have hlen := congrArg length h.msgs
  rw [length_map, length_map, length_take] at hlen
  omega

theorem Vouched.read_at {i : Nat} {x : Arrival}
    (hx : s.arrivals[i]? = some x) :
    ∃ r, rs[i]? = some r ∧ x.msg = r.message venv.toEnv := by
  have hi := (List.getElem?_eq_some_iff.1 hx).1
  have hmsg := congrArg (fun l => l[i]?) h.msgs
  simp only [getElem?_map, hx, map_some, getElem?_take_of_lt hi] at hmsg
  obtain ⟨r, hr, hrx⟩ := map_eq_some_iff.1 hmsg.symm
  exact ⟨r, hr, hrx.symm⟩

theorem Vouched.countP_new (hall : s.arrivals.length = rs.length) :
    rs.countP (·.new) = s.arrivals.countP fun x => x.msg.result.addReadset := by
  have hmsgs := h.msgs
  rw [hall, take_length] at hmsgs
  have hcount := congrArg (countP fun m => m.result.addReadset) hmsgs
  rw [countP_map, countP_map] at hcount
  refine Eq.trans (countP_congr fun r _ => ?_) hcount.symm
  simp

theorem Vouched.arrive {r : ProgramRead}
    (hr : rs[s.arrivals.length]? = some r) {c : Bool}
    (hc : c = (r.new && venv.clientCheckEvidence && !venv.parallelQuerySigsCheck))
    (haccept : c = true → readSigHelper venv (r.message venv.toEnv) = .accept) :
    Vouched venv rs handled
      { s with arrivals := s.arrivals ++ [{ msg := r.message venv.toEnv, checked := c }] } := by
  refine ⟨?_, h.queue.arrive rfl, ?_, ?_, ?_⟩
  · simp only [map_append, h.msgs, length_append, length_singleton,
      take_add_one, hr]
    rfl
  · refine forall_mem_append.2 ⟨h.checked, forall_mem_singleton.2 fun hx => ?_⟩
    have hx' : c = true := hx
    refine ⟨?_, ?_, haccept hx'⟩
    · rw [message_addReadset]
      simp only [hc, Bool.and_eq_true] at hx'
      exact hx'.1.1
    · simp only [hc, Bool.and_eq_true] at hx'
      exact hx'.1.2
  · intro hpar hcheck
    refine forall_mem_append.2
      ⟨h.direct hpar hcheck, forall_mem_singleton.2 fun hadd => ?_⟩
    rw [message_addReadset] at hadd
    simp [hc, hadd, hcheck, hpar]
  · intro hpar
    have hno : c = false := by simp [hc, hpar]
    simp [h.numValid hpar, hno]

theorem Vouched.mark {y : Arrival} {handled' n : Nat}
    (hx : s.arrivals[i]? = some x) (hmsg : y.msg = x.msg)
    (hqueue : Queued handled' (s.arrivals.set i y)) (hkeep : x.checked = true → y.checked = true)
    (hchecked : y.checked = true → x.checked = true ∨ x.msg.result.addReadset = true ∧
      venv.clientCheckEvidence = true ∧ readSigHelper venv x.msg = .accept)
    (hcount : n + x.checked.toNat = s.numValidReads + y.checked.toNat) :
    Vouched venv rs handled' { s with
      numValidReads := n
      arrivals := s.arrivals.set i y } := by
  obtain ⟨as, bs, hs, hset⟩ := exists_set_split hx y
  have hold := h.checked
  have hdirect := h.direct
  have hvalid := h.numValid
  simp only [hs, forall_mem_append, forall_mem_cons, countP_append,
    countP_cons] at hold hdirect hvalid
  refine ⟨?_, hqueue, ?_, ?_, ?_⟩
  · simp only [length_set, ← h.msgs]
    rw [hset, hs]
    simp [hmsg]
  all_goals simp only [hset, hmsg, forall_mem_append, forall_mem_cons,
    countP_append, countP_cons]
  · exact ⟨hold.1, fun hy => (hchecked hy).elim hold.2.1 id, hold.2.2⟩
  · exact fun hpar hcheck =>
      ⟨(hdirect hpar hcheck).1, fun hadd => hkeep ((hdirect hpar hcheck).2.1 hadd),
        (hdirect hpar hcheck).2.2⟩
  · intro hpar
    have hvalid := hvalid hpar
    cases hxc : x.checked <;> cases hyc : y.checked <;>
      simp only [hxc, hyc, Bool.toNat_true, Bool.toNat_false, Bool.false_eq_true, if_true,
        if_false] at hcount hvalid ⊢ <;> omega

theorem Vouched.process (hx : s.arrivals[handled]? = some x) :
    Vouched venv rs (handled + 1) (processing s handled x) :=
  h.mark hx rfl (h.queue.process hx) id .inl rfl

theorem Vouched.accept (hx : s.arrivals[i]? = some x)
    (hun : Unchecked venv x) (haccept : readSigHelper venv x.msg = .accept) :
    Vouched venv rs handled { s with
      numValidReads := s.numValidReads + 1
      arrivals := s.arrivals.set i { x with checked := true } } := by
  refine h.mark hx rfl (h.queue.accept hx) (fun _ => rfl)
    (fun _ => .inr ⟨hun.2.1, hun.2.2.1, haccept⟩) ?_
  rw [hun.1]
  rfl

end

/-! ## The invariant -/

section
variable {venv : ValidationEnv} {rs : List ProgramRead} {t : TxnPolicyType}
  {calls : List (ProgramCall venv.config.groups)} {s : Replay} {v : Validation}

structure Ended (venv : ValidationEnv) (rs : List ProgramRead)
    (calls : List (ProgramCall venv.config.groups)) (s : Replay) : Prop where
  finished : s.val.finished = true → s.handled = rs.length ∧ s.made = calls.length ∧
    s.val.pendingGet = none ∧
    ∀ k, (valuesOf k (ignoredReads rs)).Sublist (valuesOf k (puts (calls.map (·.op))))
  commitWait : s.val.commitWait = true → s.val.finished = true ∧
    venv.parallelQuerySigsCheck = true ∧ s.val.numValidReads < s.val.numPendingReads
  committed : s.val.committed = true → s.val.finished = true ∧
    (venv.parallelQuerySigsCheck = true → s.val.numPendingReads ≤ s.val.numValidReads)
  told : s.val.finished = true → s.val.committed = true ∨ s.val.commitWait = true

theorem Ended.running (h : Ended venv rs calls s) (hnot : s.val.finished = false) :
    s.val.commitWait = false ∧ s.val.committed = false := by
  refine ⟨Bool.eq_false_iff.2 fun hw => ?_, Bool.eq_false_iff.2 fun hc => ?_⟩
  · simp [(h.commitWait hw).1] at hnot
  · simp [(h.committed hc).1] at hnot

/-- What the messages that were processed, among those of the reads `rs`, and the calls that were
made determine of the state. -/
structure Follows (venv : ValidationEnv) (rs : List ProgramRead) (t : TxnPolicyType)
    (calls : List (ProgramCall venv.config.groups)) (s : Replay) : Prop where
  made_le : s.made ≤ calls.length
  heard : Heard venv (rs.take s.handled) s.val
  ran : Ran venv t (calls.take s.made) s.val
  matched : Matched rs s.handled (gets (calls.take s.made)) s.val
  vouched : Vouched venv rs s.handled s.val
  ended : Ended venv rs calls s

theorem follows_init (start : TxnStart) :
    Follows venv rs start.policyType calls (Replay.init start) := by
  have hnone {P : Arrival → Prop} : ∀ x ∈ (Replay.init start).val.arrivals, P x := by
    intro x hx
    cases hx
  refine ⟨Nat.zero_le _, ?heard, ?ran, ?matched, ?vouched, ?ended⟩
  case heard => exact ⟨rfl, fun _ => rfl, rfl, rfl, rfl, eachAfter_nil⟩
  case ran => exact ⟨rfl, rfl, rfl, rfl, rfl⟩
  case matched => exact ⟨rfl, rfl, nofun⟩
  case vouched =>
    refine ⟨rfl, ⟨Nat.le_refl _, fun i x hx => ?_⟩, hnone, fun _ _ => hnone, fun _ => rfl⟩
    cases hx
  case ended =>
    constructor <;> intro h <;> cases h

theorem gets_take_isPrefix (hkeys : rs.map (·.key) = gets calls) (m : Nat) :
    gets (calls.take m) <+: rs.map (·.key) := by
  rw [hkeys]
  exact (List.take_prefix m calls).filterMap _

theorem Heard.processed {h : List ProgramRead} {r : ProgramRead} (hh : Heard venv h v)
    (hok : ¬ (r.new = false ∧ v.readValues r.key = none)) :
    Heard venv (h ++ [r]) (processed venv v (r.message venv.toEnv).result) := by
  have he := hh.edited hok
  unfold Client.processed
  split <;> exact { he with }

theorem Follows.handle (hkeys : rs.map (·.key) = gets calls) (h : Follows venv rs t calls s)
    (hlt : s.handled < s.val.arrivals.length)
    (halive : (s.val.handle venv s.handled).crashed = false) :
    Follows venv rs t calls
      { s with val := s.val.handle venv s.handled, handled := s.handled + 1 } := by
  obtain ⟨x, hx⟩ : ∃ x, s.val.arrivals[s.handled]? = some x := ⟨_, getElem?_eq_getElem hlt⟩
  obtain ⟨r, hr, hmsg⟩ := h.vouched.read_at hx
  have hnot : s.val.finished = false := by
    by_contra hfin
    rw [Bool.not_eq_false] at hfin
    have := (h.ended.finished hfin).1
    have := h.vouched.length_le
    omega
  rw [handle_eq hx (h.vouched.queue.fresh _ x hx (Nat.le_refl _)), process_eq, hmsg] at halive ⊢
  split at halive
  · cases halive
  · rename_i hok
    rw [if_neg hok]
    rw [message_addReadset, message_key] at hok
    have htake : rs.take (s.handled + 1) = rs.take s.handled ++ [r] := by
      rw [take_add_one, hr]
      rfl
    have hheard : Heard venv (rs.take s.handled) (processing s.val s.handled x) :=
      { h.heard with }
    have hmatched : Matched rs s.handled (gets (calls.take s.made))
        (processing s.val s.handled x) :=
      { h.matched with }
    have hvouched := h.vouched.process hx
    refine ⟨h.made_le, ?_, ?_, hmatched.processed venv (gets_take_isPrefix hkeys _) hr, ?_, ?_⟩
    · rw [htake]
      exact hheard.processed hok
    · unfold processed
      split <;> exact { h.ran with }
    · unfold processed
      split <;> exact { hvouched with }
    · obtain ⟨hwait, hcommitted⟩ := h.ended.running hnot
      unfold processed
      constructor <;> split <;>
        simp [Client.edited, Validation.deliver, processing, hnot, hwait, hcommitted]

theorem Follows.keep (h : Follows venv rs t calls s)
    (hsame : v = { s.val with
      arrivals := v.arrivals, numValidReads := v.numValidReads, commitWait := v.commitWait
      finished := v.finished, committed := v.committed })
    (hvouched : Vouched venv rs s.handled v) (hended : Ended venv rs calls { s with val := v }) :
    Follows venv rs t calls { s with val := v } := by
  refine ⟨h.made_le, ?_, ?_, ?_, hvouched, hended⟩ <;> rw [hsame]
  · exact { h.heard with }
  · exact { h.ran with }
  · exact { h.matched with }

theorem Follows.arrive (h : Follows venv rs t calls s) {r : ProgramRead}
    (hr : rs[s.val.arrivals.length]? = some r)
    (halive : (s.val.receive venv (r.message venv.toEnv)).crashed = false) :
    Follows venv rs t calls { s with val := s.val.receive venv (r.message venv.toEnv) } := by
  rw [receive_eq] at halive ⊢
  split at halive
  · cases halive
  · rename_i hok
    rw [if_neg hok]
    refine h.keep rfl (h.vouched.arrive hr (by rw [message_addReadset]) fun hcheck => ?_)
      { h.ended with }
    by_contra hno
    exact hok ⟨hcheck, hno⟩

theorem Follows.check (h : Follows venv rs t calls s) {i : Nat}
    (halive : (s.val.check venv i).crashed = false) :
    Follows venv rs t calls { s with val := s.val.check venv i } := by
  rcases check_cases venv s.val i with ⟨hsame, -⟩ | ⟨x, hx, hun, hcheck⟩
  · rw [hsame]
    exact h
  · rw [hcheck] at halive ⊢
    split at halive
    · rename_i haccept
      rw [if_pos haccept]
      have hv := h.vouched.accept hx hun haccept
      have hw := h.ended.commitWait
      unfold accepted
      dsimp only
      by_cases hlast : (s.val.commitWait && s.val.numPendingReads == s.val.numValidReads + 1) = true
      · rw [if_pos hlast]
        simp only [Bool.and_eq_true, beq_iff_eq] at hlast
        exact h.keep rfl
          { hv with }
          ⟨h.ended.finished, nofun, fun _ => ⟨(hw hlast.1).1, fun _ => hlast.2.le⟩,
            fun _ => .inl rfl⟩
      · rw [if_neg hlast]
        refine h.keep rfl hv ⟨h.ended.finished, fun hwait => ?_, fun hc => ?_, h.ended.told⟩
        · obtain ⟨hfin, hpar, hlt⟩ := hw hwait
          refine ⟨hfin, hpar, ?_⟩
          have hwait' : s.val.commitWait = true := hwait
          simp only [hwait', Bool.true_and, beq_iff_eq] at hlast
          show s.val.numValidReads + 1 < s.val.numPendingReads
          omega
        · obtain ⟨hfin, hle⟩ := h.ended.committed hc
          exact ⟨hfin, fun hpar => (hle hpar).trans (Nat.le_succ _)⟩
    · cases halive

theorem Follows.perform (hkeys : rs.map (·.key) = gets calls) (h : Follows venv rs t calls s)
    {c : ProgramCall venv.config.groups} (hc : calls[s.made]? = some c)
    (hrun : s.val.runnable = true) :
    Follows venv rs t calls { s with val := c.perform venv s.val, made := s.made + 1 } := by
  have hlt := (List.getElem?_eq_some_iff.1 hc).1
  have htake : calls.take (s.made + 1) = calls.take s.made ++ [c] := by
    rw [take_add_one, hc]
    rfl
  simp only [runnable, Bool.and_eq_true, isNone_iff_eq_none, Bool.not_eq_true'] at hrun
  obtain ⟨hidle, hnot⟩ := hrun
  have hended : Ended venv rs calls { s with val := c.perform venv s.val, made := s.made + 1 } := by
    obtain ⟨-, -, h₁, h₂, h₃⟩ := perform_frame c s.val
    obtain ⟨hw, hcm⟩ := h.ended.running hnot
    constructor <;> intro hf <;> simp [h₁, h₂, h₃, hnot, hw, hcm] at hf
  have hprefix := gets_take_isPrefix hkeys (s.made + 1)
  have hgets : gets (calls.take (s.made + 1)) = gets (calls.take s.made) ++ c.op.read?.toList := by
    rw [htake, gets_snoc]
  cases hop : c.op with
  | put k v g =>
    rw [hop, Op.read?, toList_none, append_nil] at hgets
    rw [perform_put hop] at hended ⊢
    refine ⟨hlt, ?_, ?_, ?_, ?_, hended⟩
    · rw [put_eq]
      exact { h.heard with }
    · rw [htake]
      exact h.ran.put hop
    · rw [hgets]
      exact h.matched.put k v c.validatorGroup
    · rw [put_eq]
      exact { h.vouched with }
  | get k g =>
    rw [hop, Op.read?, toList_some] at hgets
    rw [perform_get hop] at hended ⊢
    refine ⟨hlt, ?_, ?_, ?_, ?_, hended⟩
    · rw [get_frame]
      exact { h.heard with }
    · rw [htake]
      exact h.ran.get hop
    · rw [hgets]
      rw [hgets] at hprefix
      exact h.matched.get hprefix hidle c.validatorGroup
    · rw [get_frame]
      exact { h.vouched with }

theorem Follows.all_handled (hkeys : rs.map (·.key) = gets calls) (h : Follows venv rs t calls s)
    (hmade : s.made = calls.length) (hidle : s.val.pendingGet = none) : s.handled = rs.length := by
  have hcount := h.matched.count
  have hlen := h.matched.length_taken
  rw [hidle, hmade, take_length, ← hkeys, length_map] at hcount
  have h₁ := h.vouched.queue.handled_le
  have h₂ := h.vouched.length_le
  simp only [toList_none, length_nil] at hcount
  omega

theorem Follows.commit (hkeys : rs.map (·.key) = gets calls) (h : Follows venv rs t calls s)
    (hmade : s.made = calls.length) (hrun : s.val.runnable = true)
    (halive : (s.val.commit venv).crashed = false) :
    Follows venv rs t calls { s with val := s.val.commit venv } := by
  simp only [runnable, Bool.and_eq_true, isNone_iff_eq_none, Bool.not_eq_true'] at hrun
  obtain ⟨hidle, hnot⟩ := hrun
  have hall := h.all_handled hkeys hmade hidle
  obtain ⟨hw, hcm⟩ := h.ended.running hnot
  unfold Validation.commit at halive ⊢
  split at halive
  · cases halive
  · rename_i hok
    rw [if_neg hok]
    simp only [Bool.or_eq_true, Bool.not_eq_true', not_or, Bool.not_eq_false] at hok
    have hwritten := (ignoredWritten_iff s.val).1 hok.2
    have hsub : ∀ k, (valuesOf k (ignoredReads rs)).Sublist
        (valuesOf k (puts (calls.map (·.op)))) := by
      intro k
      have hk := hwritten k
      rwa [h.heard.ignored, h.ran.writeValues, hall, hmade, take_length,
        take_length] at hk
    have hv {fin wait com : Bool} : Vouched venv rs s.handled
        { s.val with finished := fin, commitWait := wait, committed := com } :=
      { h.vouched with }
    split
    · rename_i hwait
      simp only [Bool.and_eq_true, decide_eq_true_eq] at hwait
      refine h.keep rfl hv ⟨fun _ => ⟨hall, hmade, hidle, hsub⟩, fun _ => ⟨rfl, hwait.1, hwait.2⟩,
        fun hc => ?_, fun _ => .inr rfl⟩
      exact absurd (hcm.symm.trans hc) (by simp)
    · rename_i hdone
      simp only [Bool.and_eq_true, decide_eq_true_eq, not_and, Nat.not_lt] at hdone
      refine h.keep rfl hv ⟨fun _ => ⟨hall, hmade, hidle, hsub⟩, fun hc => ?_,
        fun _ => ⟨rfl, hdone⟩, fun _ => .inl rfl⟩
      exact absurd (hw.symm.trans hc) (by simp)

theorem sent_at {i : Nat} {msg : ForwardReadResultMessage}
    (h : (rs.map (·.message venv.toEnv))[i]? = some msg) :
    ∃ r, rs[i]? = some r ∧ r.message venv.toEnv = msg := by
  rw [getElem?_map] at h
  exact map_eq_some_iff.1 h

theorem Follows.moves (hkeys : rs.map (·.key) = gets calls) (h : Follows venv rs t calls s)
    {e : ReplayEvent} {s' : Replay}
    (hmove : s.Moves venv (rs.map (·.message venv.toEnv)) calls e s')
    (halive : s'.val.crashed = false) : Follows venv rs t calls s' := by
  cases hmove with
  | arrive hmsg =>
    obtain ⟨r, hr, rfl⟩ := sent_at hmsg
    exact h.arrive hr halive
  | handle hlt => exact h.handle hkeys hlt halive
  | check hx hun => exact h.check halive
  | perform hrun hc => exact h.perform hkeys hc hrun
  | commit hrun hc => exact h.commit hkeys (Nat.le_antisymm h.made_le hc) hrun halive
  | expire hwait => cases halive

/-- **Every interleaving** without a panic leads to a state that the messages processed and the
calls made determine. -/
theorem follows_run (hkeys : rs.map (·.key) = gets calls) (start : TxnStart)
    (es : List ReplayEvent)
    (halive : ((replay venv (rs.map (·.message venv.toEnv)) calls).run (Replay.init start)
      es).val.crashed = false) :
    Follows venv rs start.policyType calls
      ((replay venv (rs.map (·.message venv.toEnv)) calls).run (Replay.init start) es) := by
  refine Machine.run_induct (M := replay venv (rs.map (·.message venv.toEnv)) calls)
    (I := fun s => s.val.crashed = false → Follows venv rs start.policyType calls s)
    (fun s e h halive => ?_) (fun _ => follows_init start) es halive
  rcases step_cases s e with hsame | ⟨hcrash, hmove⟩
  · rw [hsame] at halive ⊢
    exact h halive
  · exact (h hcrash).moves hkeys hmove halive

end

end Sintr.Client
