import Sintr.Cert.Conflict
import Sintr.Client.Validation
import Sintr.Lib.History
import Sintr.Lib.Marks

/-!
# What a validated program has read

A validating client answers a `Get` with whatever the initiator forwards for the key. Reads that
enter the read set carry evidence; other values are only compared, when the program commits, with
the values that the program itself wrote.
-/

namespace Sintr.Client

open Quorum Marks Validation List Option

/-! ## What the program has done -/

def putsOf (k : Key) (trace : List Call) : List Bytes :=
  trace.filterMap fun
    | .put key value => if key = k then some value else none
    | .got .. => none

def gotsOf (k : Key) (trace : List Call) : List Bytes :=
  trace.filterMap fun
    | .put .. => none
    | .got key value _ => if key = k then some value else none

/-- Those of them that only the write set explains. -/
def ignoredOf (k : Key) (trace : List Call) : List Bytes :=
  trace.filterMap fun
    | .put .. => none
    | .got key value ignored => if key = k ∧ ignored = true then some value else none

/-- The same of reads that the program has not asked for yet. -/
def ignoredIn (k : Key) (rs : List ForwardedRead) : List Bytes :=
  rs.filterMap fun r => if r.key = k ∧ r.ignored = true then some r.value else none

section
variable (venv : ValidationEnv)

/-- A message with this value and accepted evidence is in the read set. -/
def Certified (s : Validation) (k : Key) (v : Bytes) : Prop :=
  ∃ msg, readSigHelper venv msg = .accept ∧ msg.result.key = k ∧ msg.result.value = v ∧
    readMessage venv msg.result ∈ s.readSet

open Classical in
/-- Every value that the program got is certified or one that it put; the latter are, key by key, a
subsequence of those it put. -/
def Validated (s : Validation) : Prop :=
  (∀ k v i, .got k v i ∈ s.trace → Certified venv s k v ∨ .put k v ∈ s.trace) ∧
    ∀ k, ((gotsOf k s.trace).filter fun v => decide (¬ Certified venv s k v)).Sublist
      (putsOf k s.trace)

def Recorded (s : Validation) (k : Key) (v : Bytes) : Prop :=
  ∃ x ∈ s.arrivals, x.processed = true ∧ x.msg.result.addReadset = true ∧ x.msg.result.key = k ∧
    x.msg.result.value = v

structure Arrived (readSet : List ReadMessage) (x : Arrival) : Prop where
  accepted : x.checked = true → readSigHelper venv x.msg = .accept
  direct : venv.parallelQuerySigsCheck = false → x.msg.result.addReadset = true → x.checked = true
  early : venv.parallelQuerySigsCheck = true → x.checked = true →
    x.processed = true ∧ x.msg.result.addReadset = true
  inReadSet : x.processed = true → x.msg.result.addReadset = true →
    readMessage venv x.msg.result ∈ readSet

/-- The invariant, with the reads `fly` on their way to the program. -/
structure ValInv (fly : List ForwardedRead) (s : Validation) : Prop where
  arrivals : ∀ x ∈ s.arrivals, Arrived venv s.readSet x
  numPending : s.numPendingReads =
    s.arrivals.countP fun x => x.processed && x.msg.result.addReadset
  numValid : venv.parallelQuerySigsCheck = true →
    s.numValidReads = s.arrivals.countP fun x => x.checked
  readValues : ∀ k v, s.readValues k = some v → Recorded s k v
  pending : ∀ r ∈ s.pendingForwardedRead ++ fly, r.ignored = false → Recorded s r.key r.value
  got : ∀ k v, .got k v false ∈ s.trace → Recorded s k v
  ignored : ∀ k, ignoredOf k s.trace ++ ignoredIn k (s.pendingForwardedRead ++ fly) =
    valuesOf k s.ignoreReadsetKv
  written : ∀ k, putsOf k s.trace = valuesOf k s.writeValues
  waits : ∀ k, s.pendingGet = some k → s.finished = false ∧
    ∀ r ∈ s.pendingForwardedRead, r.key ≠ k
  finished : s.finished = true → ∀ k, (ignoredOf k s.trace).Sublist (putsOf k s.trace)
  commitWait : s.commitWait = true → s.finished = true
  committed : s.committed = true → s.finished = true

end

/-! ## What the events do -/

section
variable {venv : ValidationEnv} {s : Validation} {k : Key}

def edited (venv : ValidationEnv) (s : Validation) (r : ForwardReadResult) : Validation :=
  { s with
    deps := s.deps ++ r.dep.toList
    numPendingReads := s.numPendingReads + r.addReadset.toNat
    readSet := s.readSet ++ if r.addReadset then [readMessage venv r] else []
    readValues := if r.addReadset then Function.update s.readValues r.key (some r.value)
      else s.readValues
    ignoreReadsetKv := s.ignoreReadsetKv ++ if s.ignores r then [(r.key, r.value)] else [] }

theorem edit_eq (s : Validation) (r : ForwardReadResult) :
    s.edit venv r = if r.addReadset = false ∧ s.readValues r.key = none then none
      else some (edited venv s r) := by
  unfold edit
  cases hadd : r.addReadset with
  | true => simp [edited, ignores, hadd]
  | false =>
    cases hvalue : s.readValues r.key with
    | none => simp [hvalue]
    | some value => by_cases heq : value = r.value <;> simp [edited, ignores, hadd, hvalue, heq]

def processed (venv : ValidationEnv) (s : Validation) (r : ForwardReadResult) : Validation :=
  if s.pendingGet = some r.key then
    { (edited venv s r).deliver (s.toForwarded venv r) with pendingGet := none }
  else
    { edited venv s r with
      pendingForwardedRead := s.pendingForwardedRead ++ [s.toForwarded venv r] }

theorem process_eq (s : Validation) (r : ForwardReadResult) :
    s.process venv r =
      if r.addReadset = false ∧ s.readValues r.key = none then s.panic else processed venv s r := by
  unfold process
  rw [edit_eq]
  by_cases hno : r.addReadset = false ∧ s.readValues r.key = none
  · rw [if_pos hno, if_pos hno]
  · rw [if_neg hno, if_neg hno]
    rfl

theorem receive_eq (s : Validation) (msg : ForwardReadResultMessage) :
    s.receive venv msg =
      if (msg.result.addReadset && venv.clientCheckEvidence && !venv.parallelQuerySigsCheck) ∧
          readSigHelper venv msg ≠ .accept then s.panic
      else { s with
        arrivals := s.arrivals ++ [{ msg, checked := msg.result.addReadset &&
          venv.clientCheckEvidence && !venv.parallelQuerySigsCheck }] } := by
  unfold receive
  cases hcheck : msg.result.addReadset && venv.clientCheckEvidence && !venv.parallelQuerySigsCheck
  · simp
  · by_cases haccept : readSigHelper venv msg = .accept <;> simp [haccept]

def processing (s : Validation) (i : Nat) (x : Arrival) : Validation :=
  { s with arrivals := s.arrivals.set i { x with processed := true } }

theorem handle_eq {s : Validation} {i : Nat} {x : Arrival} (hx : s.arrivals[i]? = some x)
    (hnew : x.processed = false) :
    s.handle venv i = (processing s i x).process venv x.msg.result := by
  simp [handle, hx, hnew, processing]

def Unchecked (venv : ValidationEnv) (x : Arrival) : Prop :=
  x.checked = false ∧ x.msg.result.addReadset = true ∧ venv.clientCheckEvidence = true ∧
    venv.parallelQuerySigsCheck = true

def accepted (s : Validation) (i : Nat) (x : Arrival) : Validation :=
  let s := { s with
    numValidReads := s.numValidReads + 1
    arrivals := s.arrivals.set i { x with checked := true } }
  if s.commitWait && s.numPendingReads == s.numValidReads then
    { s with commitWait := false, committed := true }
  else s

theorem check_cases (venv : ValidationEnv) (s : Validation) (i : Nat) :
    (s.check venv i = s ∧ ∀ x, s.arrivals[i]? = some x → ¬ Unchecked venv x) ∨
      ∃ x, s.arrivals[i]? = some x ∧ Unchecked venv x ∧
        s.check venv i =
          if readSigHelper venv x.msg = .accept then accepted s i x else s.panic := by
  unfold check
  cases hx : s.arrivals[i]? with
  | none => exact .inl ⟨rfl, fun y hy => absurd hy (by simp)⟩
  | some x =>
    by_cases hun : Unchecked venv x
    · obtain ⟨hchecked, hadd, hcheck, hpar⟩ := hun
      refine .inr ⟨x, rfl, ⟨hchecked, hadd, hcheck, hpar⟩, ?_⟩
      simp only [hchecked, hadd, hcheck, hpar, accepted]
      rfl
    · refine .inl ⟨?_, fun y hy => some.inj hy ▸ hun⟩
      refine if_pos ?_
      by_contra hno
      apply hun
      simpa [Unchecked, and_assoc] using hno

theorem accepted_arrivals (s : Validation) (i : Nat) (x : Arrival) :
    (accepted s i x).arrivals = s.arrivals.set i { x with checked := true } ∧
      (accepted s i x).crashed = s.crashed ∧ (accepted s i x).finished = s.finished := by
  unfold accepted
  dsimp only
  split <;> exact ⟨rfl, rfl, rfl⟩

theorem participate_eq (s : Validation) (g : Nat) :
    s.participate g = { s with involvedGroups := addNew s.involvedGroups g } := by
  unfold Validation.participate addNew
  split <;> rfl

theorem foldl_participate (gs : List Nat) (s : Validation) :
    gs.foldl Validation.participate s =
      { s with involvedGroups := gs.foldl addNew s.involvedGroups } := by
  induction gs generalizing s with
  | nil => rfl
  | cons g gs ih => rw [foldl_cons, ih, participate_eq, foldl_cons]

theorem put_eq (s : Validation) (k : Key) (v : Bytes) (g : Nat) :
    s.put venv k v g = { s with
      writeSet := s.writeSet ++ [{ key := k, value := some v }]
      writeValues := s.writeValues ++ [(k, v)]
      trace := s.trace ++ [.put k v]
      involvedGroups := (match s.policyType with
        | .none => [g]
        | .policyIdPolicy => range venv.config.groups).foldl addNew s.involvedGroups } := by
  unfold Validation.put
  dsimp only
  split
  · rename_i ht
    rw [participate_eq]
    simp only [ht, foldl_cons, foldl_nil]
  · rename_i ht
    simp only [foldl_participate, ht]

theorem get_frame (s : Validation) (k : Key) (g : Nat) :
    s.get k g = { s with
      involvedGroups := addNew s.involvedGroups g
      seenReads := insert k s.seenReads
      trace := (s.get k g).trace
      pendingForwardedRead := (s.get k g).pendingForwardedRead
      pendingGet := (s.get k g).pendingGet } := by
  unfold Validation.get
  rw [participate_eq]
  dsimp only
  split <;> rfl

theorem get_found {r : ForwardedRead}
    (h : (s.pendingForwardedRead.find? fun r => decide (r.key = k)) = some r) (g : Nat) :
    s.get k g = { s with
      involvedGroups := addNew s.involvedGroups g
      seenReads := insert k s.seenReads
      trace := s.trace ++ [.got r.key r.value r.ignored]
      pendingForwardedRead := s.pendingForwardedRead.eraseP fun r => decide (r.key = k) } := by
  unfold Validation.get
  rw [participate_eq]
  simp only [h, Validation.deliver]

theorem get_waits {s : Validation}
    (h : (s.pendingForwardedRead.find? fun r => decide (r.key = k)) = none) (g : Nat) :
    s.get k g = { s with
      involvedGroups := addNew s.involvedGroups g
      seenReads := insert k s.seenReads
      pendingGet := some k } := by
  unfold Validation.get
  rw [participate_eq]
  simp only [h]

end

/-! ## Lists of calls -/

section
variable {k : Key} {trace : List Call}

@[simp] theorem putsOf_put (k key : Key) (value : Bytes) (trace : List Call) :
    putsOf k (trace ++ [.put key value]) = putsOf k trace ++ if key = k then [value] else [] := by
  by_cases h : key = k <;> simp [putsOf, h]

@[simp] theorem putsOf_got (k key : Key) (value : Bytes) (i : Bool) (trace : List Call) :
    putsOf k (trace ++ [.got key value i]) = putsOf k trace := by
  simp [putsOf]

@[simp] theorem ignoredOf_put (k key : Key) (value : Bytes) (trace : List Call) :
    ignoredOf k (trace ++ [.put key value]) = ignoredOf k trace := by
  simp [ignoredOf]

@[simp] theorem ignoredOf_got (k key : Key) (value : Bytes) (i : Bool) (trace : List Call) :
    ignoredOf k (trace ++ [.got key value i]) =
      ignoredOf k trace ++ if key = k ∧ i = true then [value] else [] := by
  by_cases h : key = k ∧ i = true <;> simp [ignoredOf, h]

@[simp] theorem ignoredIn_append (k : Key) (rs rs' : List ForwardedRead) :
    ignoredIn k (rs ++ rs') = ignoredIn k rs ++ ignoredIn k rs' :=
  filterMap_append

theorem ignoredIn_cons (k : Key) (r : ForwardedRead) (rs : List ForwardedRead) :
    ignoredIn k (r :: rs) =
      (if r.key = k ∧ r.ignored = true then [r.value] else []) ++ ignoredIn k rs := by
  by_cases h : r.key = k ∧ r.ignored = true <;> simp [ignoredIn, h]

@[simp] theorem ignoredIn_nil (k : Key) : ignoredIn k [] = [] := rfl

theorem ignoredIn_of_ne {rs : List ForwardedRead} (h : ∀ r ∈ rs, r.key ≠ k) :
    ignoredIn k rs = [] := by
  rw [ignoredIn, filterMap_eq_nil_iff]
  intro r hr
  simp [h r hr]

@[simp] theorem valuesOf_append (k : Key) (l l' : List (Key × Bytes)) :
    valuesOf k (l ++ l') = valuesOf k l ++ valuesOf k l' := by
  simp [valuesOf]

theorem valuesOf_singleton (k key : Key) (value : Bytes) :
    valuesOf k [(key, value)] = if key = k then [value] else [] := by
  by_cases h : key = k <;> simp [valuesOf, h]

theorem mem_putsOf {v : Bytes} : v ∈ putsOf k trace ↔ .put k v ∈ trace := by
  simp only [putsOf, mem_filterMap]
  constructor
  · rintro ⟨c, hc, hv⟩
    cases c with
    | put key value =>
      simp only [ite_none_right_eq_some, some.injEq] at hv
      obtain ⟨rfl, rfl⟩ := hv
      exact hc
    | got key value i => cases hv
  · intro hc
    exact ⟨_, hc, if_pos rfl⟩

theorem mem_gotsOf {v : Bytes} {i : Bool} (h : .got k v i ∈ trace) : v ∈ gotsOf k trace := by
  rw [gotsOf, mem_filterMap]
  exact ⟨_, h, if_pos rfl⟩

theorem filter_gotsOf {C : Bytes → Bool} (h : ∀ v, .got k v false ∈ trace → C v = true) :
    ((gotsOf k trace).filter fun v => !C v).Sublist (ignoredOf k trace) := by
  induction trace with
  | nil => exact List.Sublist.refl _
  | cons c trace ih =>
    have ih' := ih fun v hv => h v (mem_cons_of_mem _ hv)
    cases c with
    | put key value => exact ih'
    | got key value i =>
      by_cases hk : key = k
      · subst hk
        cases i with
        | false =>
          have hgots : gotsOf key (.got key value false :: trace) = value :: gotsOf key trace := by
            simp [gotsOf]
          have hignored : ignoredOf key (.got key value false :: trace) = ignoredOf key trace := by
            simp [ignoredOf]
          rw [hgots, hignored, filter_cons_of_neg (by simp [h value mem_cons_self])]
          exact ih'
        | true =>
          have hgots : gotsOf key (.got key value true :: trace) = value :: gotsOf key trace := by
            simp [gotsOf]
          have hignored : ignoredOf key (.got key value true :: trace) =
              value :: ignoredOf key trace := by
            simp [ignoredOf]
          rw [hgots, hignored, filter_cons]
          split
          · exact ih'.cons_cons value
          · exact ih'.cons value
      · have hgots : gotsOf k (.got key value i :: trace) = gotsOf k trace := by
          simp [gotsOf, hk]
        have hignored : ignoredOf k (.got key value i :: trace) = ignoredOf k trace := by
          simp [ignoredOf, hk]
        rw [hgots, hignored]
        exact ih'

end

/-! ## Messages -/

section
variable {venv : ValidationEnv} {s : Validation} {fly : List ForwardedRead}

variable {s' : Validation} {as bs : List Arrival} {x : Arrival} {f : ForwardedRead}

theorem Recorded.mono {k : Key} {v : Bytes} (h : Recorded s k v)
    (hsub : ∀ x ∈ s.arrivals, x.processed = true →
      ∃ y ∈ s'.arrivals, y.processed = true ∧ y.msg = x.msg) : Recorded s' k v := by
  obtain ⟨x, hx, hproc, hadd, hk, hv⟩ := h
  obtain ⟨y, hy, hproc', hmsg⟩ := hsub x hx hproc
  exact ⟨y, hy, hproc', by rw [hmsg]; exact hadd, by rw [hmsg]; exact hk, by rw [hmsg]; exact hv⟩

theorem Recorded.set {k : Key} {v : Bytes} {y : Arrival} (h : Recorded s k v)
    (hs : s.arrivals = as ++ x :: bs) (hs' : s'.arrivals = as ++ y :: bs) (hmsg : y.msg = x.msg)
    (hproc : x.processed = true → y.processed = true) :
    Recorded s' k v := by
  apply h.mono
  intro z hz hz'
  rw [hs, mem_append, mem_cons] at hz
  rw [hs']
  rcases hz with hz | rfl | hz
  · exact ⟨z, mem_append_left _ hz, hz', rfl⟩
  · exact ⟨y, mem_append_right _ mem_cons_self, hproc hz', hmsg⟩
  · exact ⟨z, mem_append_right _ (mem_cons_of_mem _ hz), hz', rfl⟩

theorem ValInv.arrive (h : ValInv venv [] s) (hx : Arrived venv s.readSet x)
    (hproc : x.processed = false) :
    ValInv venv [] { s with arrivals := s.arrivals ++ [x] } := by
  have hrec {k : Key} {v : Bytes} (hr : Recorded s k v) :
      Recorded { s with arrivals := s.arrivals ++ [x] } k v :=
    hr.mono fun y hy hproc => ⟨y, mem_append_left _ hy, hproc, rfl⟩
  refine { h with
    arrivals := forall_mem_append.2 ⟨h.arrivals, forall_mem_singleton.2 hx⟩
    numPending := by simp [h.numPending, hproc]
    numValid := fun hp => ?_
    readValues := fun k v hv => hrec (h.readValues k v hv)
    pending := fun r hr hi => hrec (h.pending r hr hi)
    got := fun k v hv => hrec (h.got k v hv) }
  have hchecked : x.checked = false := by
    by_contra hc
    have hproc' := (hx.early hp (by simpa using hc)).1
    exact Bool.false_ne_true (hproc.symm.trans hproc')
  simp [h.numValid hp, hchecked]

theorem ValInv.mark (h : ValInv venv [] s) (hs : s.arrivals = as ++ x :: bs)
    (hproc : x.processed = true) (hadd : x.msg.result.addReadset = true) (hnew : x.checked = false)
    (haccept : readSigHelper venv x.msg = .accept) :
    ValInv venv [] { s with
      numValidReads := s.numValidReads + 1
      arrivals := as ++ { x with checked := true } :: bs } := by
  have hrec {k : Key} {v : Bytes} (hr : Recorded s k v) : Recorded { s with
      numValidReads := s.numValidReads + 1
      arrivals := as ++ { x with checked := true } :: bs } k v :=
    hr.set hs rfl rfl id
  have hpending := h.numPending
  have hvalid := h.numValid
  simp only [hs, countP_append, countP_cons, hnew] at hpending hvalid
  refine { h with
    arrivals := forall_mem_split hs h.arrivals (fun _ hz => hz) fun hx => { hx with
      accepted := fun _ => haccept, direct := fun _ _ => rfl, early := fun _ _ => ⟨hproc, hadd⟩ }
    numPending := by simpa only [countP_append, countP_cons] using hpending
    numValid := fun hp => ?_
    readValues := fun k v hv => hrec (h.readValues k v hv)
    pending := fun r hr hi => hrec (h.pending r hr hi)
    got := fun k v hv => hrec (h.got k v hv) }
  simp only [countP_append, countP_cons, hvalid hp]
  rfl

theorem ValInv.edited (h : ValInv venv [] s) (hs : s.arrivals = as ++ x :: bs)
    (hnew : x.processed = false) :
    ValInv venv [s.toForwarded venv x.msg.result]
      (edited venv { s with arrivals := as ++ { x with processed := true } :: bs }
        x.msg.result) := by
  have hrec {k : Key} {v : Bytes} (hr : Recorded s k v) :
      Recorded (Client.edited venv { s with arrivals := as ++ { x with processed := true } :: bs }
        x.msg.result) k v :=
    hr.set hs rfl rfl fun _ => rfl
  have hself (hadd : x.msg.result.addReadset = true) :
      Recorded (Client.edited venv { s with arrivals := as ++ { x with processed := true } :: bs }
        x.msg.result) x.msg.result.key x.msg.result.value :=
    ⟨_, mem_append_right _ mem_cons_self, rfl, hadd, rfl, rfl⟩
  have hpending := h.numPending
  have hvalid := h.numValid
  simp only [hs, countP_append, countP_cons] at hpending hvalid
  refine { h with
    arrivals := ?arrivals, numPending := ?numPending, numValid := ?numValid
    readValues := ?readValues, pending := ?pending
    got := fun k v hv => hrec (h.got k v hv), ignored := ?ignored }
  case arrivals =>
    refine forall_mem_split hs h.arrivals (fun z hz => { hz with
      inReadSet := fun hp ha => mem_append_left _ (hz.inReadSet hp ha) }) fun hx => { hx with
      early := fun hp hc => ⟨rfl, (hx.early hp hc).2⟩, inReadSet := fun _ hadd => ?_ }
    refine mem_append_right _ ?_
    rw [if_pos hadd]
    exact mem_singleton.2 rfl
  case numPending =>
    simp only [Client.edited, countP_append, countP_cons, hpending, hnew]
    cases x.msg.result.addReadset with
    | true =>
      simp only [Bool.and_true, Bool.false_eq_true, if_false, if_true, Bool.toNat_true]
      omega
    | false => simp
  case numValid =>
    intro hp
    simpa only [Client.edited, countP_append, countP_cons] using hvalid hp
  case readValues =>
    intro k v hv
    by_cases hadd : x.msg.result.addReadset = true
    · simp only [Client.edited, if_pos hadd] at hv
      by_cases hk : k = x.msg.result.key
      · subst hk
        rw [Function.update_self, some.injEq] at hv
        exact hv ▸ hself hadd
      · rw [Function.update_of_ne hk] at hv
        exact hrec (h.readValues k v hv)
    · simp only [Client.edited, if_neg hadd] at hv
      exact hrec (h.readValues k v hv)
  case pending =>
    refine forall_mem_append.2 ⟨fun r hr hi => ?_, forall_mem_singleton.2 fun hi => ?_⟩
    · exact hrec (h.pending r (mem_append_left _ hr) hi)
    · by_cases hadd : x.msg.result.addReadset = true
      · exact hself hadd
      · have hvalue : s.readValues x.msg.result.key = some x.msg.result.value := by
          simpa [toForwarded, ignores, hadd] using hi
        exact hrec (h.readValues _ _ hvalue)
  case ignored =>
    intro k
    have hignored := h.ignored k
    rw [append_nil] at hignored
    show ignoredOf k s.trace ++ ignoredIn k (s.pendingForwardedRead ++ [_]) = valuesOf k (_ ++ _)
    rw [ignoredIn_append, valuesOf_append, ← hignored, append_assoc, ignoredIn_cons]
    congr 2
    show (if x.msg.result.key = k ∧ s.ignores x.msg.result = true then [x.msg.result.value]
      else []) ++ [] = valuesOf k (if s.ignores x.msg.result then _ else [])
    cases s.ignores x.msg.result with
    | true =>
      rw [if_pos rfl, valuesOf_singleton]
      simp
    | false => simp [valuesOf]

theorem ValInv.answer {before after : List ForwardedRead} {waiting : Option Key}
    (h : ValInv venv fly s) (hrun : s.finished = false)
    (hsplit : s.pendingForwardedRead ++ fly = before ++ f :: after)
    (hbefore : ∀ r ∈ before, r.key ≠ f.key)
    (hwaits : ∀ k, waiting = some k → ∀ r ∈ before ++ after, r.key ≠ k) :
    ValInv venv [] { s.deliver f with
      pendingForwardedRead := before ++ after, pendingGet := waiting } := by
  have hmem : f ∈ s.pendingForwardedRead ++ fly := by
    rw [hsplit]
    exact mem_append_right _ mem_cons_self
  refine { h with
    pending := ?pending, got := ?got, ignored := ?ignored, written := ?written
    waits := fun k hk => ⟨hrun, hwaits k hk⟩, finished := ?finished }
  case pending =>
    intro r hr
    rw [append_nil] at hr
    apply h.pending r
    rw [hsplit]
    exact (List.Sublist.append_left (sublist_cons_self f after) before).subset hr
  case got =>
    intro k v hv
    rcases mem_append.1 hv with hv | hv
    · exact h.got k v hv
    · obtain ⟨rfl, rfl, hi⟩ := Call.got.inj (mem_singleton.1 hv)
      exact h.pending f hmem hi.symm
  case ignored =>
    intro k
    have hignored := h.ignored k
    rw [hsplit, ignoredIn_append, ignoredIn_cons] at hignored
    show ignoredOf k (s.trace ++ [.got f.key f.value f.ignored]) ++
      ignoredIn k (before ++ after ++ []) = valuesOf k s.ignoreReadsetKv
    rw [ignoredOf_got, append_nil, ignoredIn_append, ← hignored]
    by_cases hk : f.key = k
    · -- Nothing of this key was pending before it, so the order is kept.
      subst hk
      rw [ignoredIn_of_ne hbefore]
      simp
    · simp [hk]
  case written =>
    intro k
    exact (putsOf_got k f.key f.value f.ignored s.trace).trans (h.written k)
  case finished => exact fun hfin => absurd (hrun.symm.trans hfin) Bool.false_ne_true

theorem ValInv.deliver (h : ValInv venv [f] s) (hget : s.pendingGet = some f.key) :
    ValInv venv [] { s.deliver f with pendingGet := none } := by
  obtain ⟨hunfinished, hnone⟩ := h.waits f.key hget
  have hanswer : ValInv venv [] { s.deliver f with
      pendingForwardedRead := s.pendingForwardedRead ++ [], pendingGet := none } :=
    h.answer hunfinished rfl hnone nofun
  rw [append_nil] at hanswer
  exact hanswer

theorem ValInv.keep (h : ValInv venv [f] s) (hget : s.pendingGet ≠ some f.key) :
    ValInv venv [] { s with pendingForwardedRead := s.pendingForwardedRead ++ [f] } := by
  refine { h with pending := ?pending, ignored := ?ignored, waits := ?waits }
  case pending => exact fun r hr => h.pending r (by simpa using hr)
  case ignored =>
    intro k
    rw [append_nil]
    exact h.ignored k
  case waits =>
    intro k hk
    obtain ⟨hunfinished, hnone⟩ := h.waits k hk
    refine ⟨hunfinished, forall_mem_append.2 ⟨hnone, forall_mem_singleton.2 ?_⟩⟩
    rintro rfl
    exact hget hk

end

/-! ## Calls of the program -/

section
variable {venv : ValidationEnv} {s : Validation}

theorem ValInv.take (h : ValInv venv [] s) (hrun : s.finished = false) {key : Key}
    {r : ForwardedRead}
    (hr : (s.pendingForwardedRead.find? fun r => decide (r.key = key)) = some r) :
    ValInv venv [] { s.deliver r with
      pendingForwardedRead := s.pendingForwardedRead.eraseP fun r => decide (r.key = key) } := by
  obtain ⟨hkey, before, after, hsplit, hbefore⟩ := find?_eq_some_iff_append.1 hr
  have hkey' : r.key = key := of_decide_eq_true hkey
  have herase :
      (s.pendingForwardedRead.eraseP fun r => decide (r.key = key)) = before ++ after := by
    have hcons : ((r :: after).eraseP fun r => decide (r.key = key)) = after :=
      eraseP_cons_of_pos hkey
    rw [hsplit, eraseP_append_right _ (by simpa using hbefore), hcons]
  have hanswer : ValInv venv [] { s.deliver r with
      pendingForwardedRead := before ++ after, pendingGet := s.pendingGet } := by
    refine h.answer hrun (by rw [hsplit, append_nil]) ?_ ?_
    · intro r' hr'
      rw [hkey']
      simpa using hbefore r' hr'
    · intro k hk r' hr'
      rw [← herase] at hr'
      exact (h.waits k hk).2 r' (mem_of_mem_eraseP hr')
  rw [herase]
  exact hanswer

theorem ValInv.get (h : ValInv venv [] s) (hrun : s.finished = false) (key : Key) (group : Nat) :
    ValInv venv [] (s.get key group) := by
  cases hfind : s.pendingForwardedRead.find? fun r => decide (r.key = key) with
  | some r =>
    rw [get_found hfind]
    exact { h.take hrun hfind with }
  | none =>
    rw [get_waits hfind]
    refine { h with waits := fun k hk => ?_ }
    obtain rfl := some.inj hk
    exact ⟨hrun, by simpa using hfind⟩

theorem ValInv.put (h : ValInv venv [] s) (hrun : s.finished = false) (key : Key) (value : Bytes)
    (group : Nat) : ValInv venv [] (s.put venv key value group) := by
  rw [put_eq]
  refine { h with got := ?got, ignored := ?ignored, written := ?written, finished := ?finished }
  case got =>
    intro k v hv
    rcases mem_append.1 hv with hv | hv
    · exact h.got k v hv
    · cases mem_singleton.1 hv
  case ignored =>
    intro k
    rw [ignoredOf_put]
    exact h.ignored k
  case written =>
    intro k
    rw [putsOf_put, h.written k, valuesOf_append, valuesOf_singleton]
  case finished => exact fun hfin => absurd (hrun.symm.trans hfin) Bool.false_ne_true

/-! ## Commit -/

theorem ValInv.validated (h : ValInv venv [] s) (hfin : s.finished = true)
    (hall : ∀ x ∈ s.arrivals, x.processed = true → x.msg.result.addReadset = true →
      readSigHelper venv x.msg = .accept) : Validated venv s := by
  classical
  have hcert {k : Key} {v : Bytes} (hgot : .got k v false ∈ s.trace) : Certified venv s k v := by
    obtain ⟨x, hx, hproc, hadd, hk, hv⟩ := h.got k v hgot
    exact ⟨x.msg, hall x hx hproc hadd, hk, hv, (h.arrivals x hx).inReadSet hproc hadd⟩
  have hsub (k : Key) : ((gotsOf k s.trace).filter fun v => decide (¬ Certified venv s k v)).Sublist
      (putsOf k s.trace) := by
    have hfilter := filter_gotsOf (C := fun v => decide (Certified venv s k v))
      fun v hv => decide_eq_true (hcert hv)
    simp only [← decide_not] at hfilter
    exact hfilter.trans (h.finished hfin k)
  refine ⟨fun k v i hgot => ?_, fun k => ?_⟩
  · by_cases hc : Certified venv s k v
    · exact .inl hc
    · have hmem : v ∈ (gotsOf k s.trace).filter fun v => decide (¬ Certified venv s k v) :=
        mem_filter.2 ⟨mem_gotsOf hgot, decide_eq_true hc⟩
      exact .inr (mem_putsOf.1 ((hsub k).subset hmem))
  · convert hsub k

theorem ValInv.all_accepted (h : ValInv venv [] s)
    (hcount : venv.parallelQuerySigsCheck = true → s.numPendingReads ≤ s.numValidReads) :
    ∀ x ∈ s.arrivals, x.processed = true → x.msg.result.addReadset = true →
      readSigHelper venv x.msg = .accept := by
  intro x hx hproc hadd
  cases hpar : venv.parallelQuerySigsCheck with
  | false => exact (h.arrivals x hx).accepted ((h.arrivals x hx).direct hpar hadd)
  | true =>
    have hle := hcount hpar
    rw [h.numPending, h.numValid hpar] at hle
    have hsub : ∀ y ∈ s.arrivals, y.checked = true →
        (y.processed && y.msg.result.addReadset) = true := by
      intro y hy hc
      obtain ⟨hp, ha⟩ := (h.arrivals y hy).early hpar hc
      rw [hp, ha]
      rfl
    refine (h.arrivals x hx).accepted (forall_of_countP_le hsub hle x hx ?_)
    rw [hproc, hadd]
    rfl

theorem ignoredWritten_iff (v : Validation) :
    v.ignoredWritten = true ↔
      ∀ k, (valuesOf k v.ignoreReadsetKv).Sublist (valuesOf k v.writeValues) := by
  unfold ignoredWritten
  rw [List.all_eq_true]
  constructor
  · intro h k
    by_cases hk : ∃ p ∈ v.ignoreReadsetKv, p.1 = k
    · obtain ⟨p, hp, rfl⟩ := hk
      exact isSublist_iff_sublist.1 (h p hp)
    · have hnil : valuesOf k v.ignoreReadsetKv = [] := by
        simp only [valuesOf, map_eq_nil_iff, filter_eq_nil_iff, decide_eq_true_eq]
        exact fun p hp hpk => hk ⟨p, hp, hpk⟩
      rw [hnil]
      exact nil_sublist _
  · intro h p _
    exact isSublist_iff_sublist.2 (h p.1)

theorem ValInv.finish (h : ValInv venv [] s) (hempty : s.pendingForwardedRead = [])
    (hwritten : s.ignoredWritten = true) (k : Key) :
    (ignoredOf k s.trace).Sublist (putsOf k s.trace) := by
  have hignored := h.ignored k
  rw [hempty, append_nil, ignoredIn_nil, append_nil] at hignored
  rw [hignored, h.written k]
  exact (ignoredWritten_iff s).1 hwritten k

theorem Validated.mono {s' : Validation} (h : Validated venv s) (htrace : s'.trace = s.trace)
    (hread : s.readSet ⊆ s'.readSet) : Validated venv s' := by
  classical
  have hcert {k : Key} {v : Bytes} (hc : Certified venv s k v) : Certified venv s' k v := by
    obtain ⟨msg, haccept, hk, hv, hmem⟩ := hc
    exact ⟨msg, haccept, hk, hv, hread hmem⟩
  refine ⟨fun k v i hgot => ?_, fun k => ?_⟩
  · rw [htrace] at hgot ⊢
    exact (h.1 k v i hgot).imp_left hcert
  · rw [htrace]
    refine List.Sublist.trans ?_ (h.2 k)
    refine monotone_filter_right _ fun v hv => ?_
    rw [decide_eq_true_eq] at hv ⊢
    exact fun hc => hv (hcert hc)

end

/-! ## Runs -/

section
variable {venv : ValidationEnv} {s : Validation}

/-- The invariant holds until the client stops, and what it told the program stays right. -/
structure Sound (venv : ValidationEnv) (s : Validation) : Prop where
  inv : s.crashed = false → ValInv venv [] s
  validated : s.committed = true → Validated venv s

/-- No evidence check of another thread reports before the message it is about is processed. -/
def NotEarly (venv : ValidationEnv) (s : Validation) (e : ValidationEvent) : Prop :=
  venv.parallelQuerySigsCheck = true →
    ∀ i x, e = .check i → s.arrivals[i]? = some x → x.processed = true

theorem notEarly_of_ne {e : ValidationEvent} (h : ∀ i, e ≠ .check i) : NotEarly venv s e :=
  fun _ i _ he => absurd he (h i)

theorem notEarly_check {i : Nat} (h : (s.arrivals[i]?).all (·.processed) = true) :
    NotEarly venv s (.check i) := by
  intro _ j x he hx
  cases he
  rw [hx] at h
  exact h

theorem Sound.keep {s' : Validation} (h : Sound venv s)
    (hinv : s'.crashed = false → ValInv venv [] s') (htrace : s'.trace = s.trace)
    (hread : s.readSet ⊆ s'.readSet) (hcommitted : s'.committed = s.committed) : Sound venv s' :=
  ⟨hinv, fun hc => (h.validated (hcommitted ▸ hc)).mono htrace hread⟩

theorem Sound.receive (h : Sound venv s) (hcrashed : s.crashed = false)
    (hcheck : venv.clientCheckEvidence = true) (msg : ForwardReadResultMessage) :
    Sound venv (s.receive venv msg) := by
  rw [receive_eq]
  split
  · exact h.keep nofun rfl (List.Subset.refl _) rfl
  · rename_i hok
    refine h.keep (fun _ => (h.inv hcrashed).arrive ⟨fun hchecked => ?_, fun hpar hadd => ?_,
      fun hpar => by simp [hpar], nofun⟩ rfl) rfl (List.Subset.refl _) rfl
    · by_contra hno
      exact hok ⟨hchecked, hno⟩
    · simpa [hcheck, hpar] using hadd

theorem Sound.handle (h : Sound venv s) (hcrashed : s.crashed = false) (i : Nat) :
    Sound venv (s.handle venv i) := by
  have hinv := h.inv hcrashed
  unfold Validation.handle
  cases hx : s.arrivals[i]? with
  | none => exact h
  | some x =>
    dsimp only
    split
    · exact h
    · rename_i hnew
      obtain ⟨as, bs, hs, hset⟩ := exists_set_split hx { x with processed := true }
      rw [hset, process_eq]
      have hedited := hinv.edited hs (Bool.not_eq_true _ ▸ hnew)
      split
      · exact h.keep nofun rfl (List.Subset.refl _) rfl
      · unfold processed
        split
        · rename_i hget
          refine ⟨fun _ => hedited.deliver hget, fun hc => ?_⟩
          -- A program that has committed waits for nothing.
          have hfin := hinv.committed hc
          rw [(hinv.waits _ hget).1] at hfin
          cases hfin
        · rename_i hget
          refine h.keep (fun _ => hedited.keep hget) rfl ?_ rfl
          exact subset_append_left _ _

theorem Sound.check (h : Sound venv s) (hcrashed : s.crashed = false) {i : Nat}
    (hearly : NotEarly venv s (.check i)) : Sound venv (s.check venv i) := by
  have hinv := h.inv hcrashed
  rcases check_cases venv s i with ⟨hsame, -⟩ | ⟨x, hx, ⟨hnew, hadd, -, hpar⟩, hcheck⟩
  · rw [hsame]
    exact h
  · rw [hcheck]
    split
    · rename_i haccept
      obtain ⟨as, bs, hs, hset⟩ := exists_set_split hx { x with checked := true }
      have hmark := hinv.mark hs (hearly hpar i x rfl hx) hadd hnew haccept
      unfold accepted
      rw [hset]
      dsimp only
      split
      · rename_i hdone
        simp only [Bool.and_eq_true, beq_iff_eq] at hdone
        have hfin := hinv.commitWait hdone.1
        have hcommitted : ValInv venv [] { s with
            numValidReads := s.numValidReads + 1
            arrivals := as ++ { x with checked := true } :: bs
            commitWait := false
            committed := true } :=
          { hmark with commitWait := nofun, committed := fun _ => hfin }
        exact ⟨fun _ => hcommitted, fun _ => hcommitted.validated hfin
          (hcommitted.all_accepted fun _ => hdone.2.le)⟩
      · exact h.keep (fun _ => hmark) rfl (List.Subset.refl _) rfl
    · exact h.keep nofun rfl (List.Subset.refl _) rfl

theorem ValInv.finishing (h : ValInv venv [] s) (hrun : s.pendingGet = none)
    (hfinish : ∀ k, (ignoredOf k s.trace).Sublist (putsOf k s.trace))
    (commitWait committed : Bool) :
    ValInv venv [] { s with finished := true, commitWait, committed } := by
  refine { h with
    waits := ?_, finished := fun _ => hfinish
    commitWait := fun _ => rfl, committed := fun _ => rfl }
  intro k hk
  have hk' : s.pendingGet = some k := hk
  rw [hrun] at hk'
  cases hk'

theorem Sound.commit (h : Sound venv s) (hcrashed : s.crashed = false)
    (hrun : s.pendingGet = none) : Sound venv (s.commit venv) := by
  have hinv := h.inv hcrashed
  unfold Validation.commit
  split
  · exact h.keep nofun rfl (List.Subset.refl _) rfl
  · rename_i hpass
    simp only [Bool.or_eq_true, Bool.not_eq_true', not_or, Bool.not_eq_false] at hpass
    have hfinish := hinv.finish (isEmpty_iff.1 hpass.1.1) hpass.2
    split
    · exact h.keep (fun _ => hinv.finishing hrun hfinish true s.committed) rfl
        (List.Subset.refl _) rfl
    · rename_i hcount
      have hdone := hinv.finishing hrun hfinish s.commitWait true
      refine ⟨fun _ => hdone, fun _ => hdone.validated rfl (hdone.all_accepted fun hpar => ?_)⟩
      rw [hpar, Bool.true_and, decide_eq_true_eq, not_lt] at hcount
      exact hcount

theorem Sound.step (h : Sound venv s) (hcheck : venv.clientCheckEvidence = true)
    (e : ValidationEvent) (hearly : NotEarly venv s e) : Sound venv (s.step venv e) := by
  unfold Validation.step
  split
  · exact h
  · rename_i hc
    have hcrashed : s.crashed = false := Bool.eq_false_iff.2 hc
    have hinv := h.inv hcrashed
    -- The program moves only before it has committed.
    have hprogram {s' : Validation} (hrun : s.runnable = true)
        (hinv' : s.finished = false → ValInv venv [] s') (hsame : s'.committed = s.committed) :
        Sound venv s' := by
      simp only [runnable, Bool.and_eq_true, Bool.not_eq_true'] at hrun
      refine ⟨fun _ => hinv' hrun.2, fun hcommitted => ?_⟩
      have hfin := hinv.committed (hsame ▸ hcommitted)
      rw [hrun.2] at hfin
      cases hfin
    cases e with
    | receive msg => exact h.receive hcrashed hcheck msg
    | handle i => exact h.handle hcrashed i
    | check i => exact h.check hcrashed hearly
    | get key group =>
      dsimp only
      split
      · rename_i hrun
        exact hprogram hrun (fun hfin => hinv.get hfin key group) (by rw [get_frame])
      · exact h
    | put key value group =>
      dsimp only
      split
      · rename_i hrun
        exact hprogram hrun (fun hfin => hinv.put hfin key value group) (by rw [put_eq])
      · exact h
    | commit =>
      dsimp only
      split
      · rename_i hrun
        simp only [runnable, Bool.and_eq_true, isNone_iff_eq_none] at hrun
        exact h.commit hcrashed hrun.1
      · exact h

theorem sound_initial (venv : ValidationEnv) (policyType : TxnPolicyType) :
    Sound venv { policyType } := by
  refine ⟨fun _ => ?_, fun hc => Bool.noConfusion hc⟩
  constructor
  case numPending => rfl
  case numValid => exact fun _ => rfl
  case ignored => exact fun _ => rfl
  case written => exact fun _ => rfl
  all_goals simp

end

/-- **Integrity of validation.** A program that is told COMMITTED got from each `Get` a value with
accepted evidence, or one that it put; the latter are, key by key, a subsequence of those it put. -/
theorem committed_validated (venv : ValidationEnv) (hcheck : venv.clientCheckEvidence = true)
    (policyType : TxnPolicyType) (es : List ValidationEvent)
    (hearly : (validationMachine venv).Along (NotEarly venv) { policyType } es)
    (hcommitted : ((validationMachine venv).run { policyType } es).committed = true) :
    Validated venv ((validationMachine venv).run { policyType } es) := by
  have hsound : Sound venv ((validationMachine venv).run { policyType } es) :=
    Machine.run_along (fun s e he h => h.step hcheck e he) (sound_initial venv policyType) hearly
  exact hsound.validated hcommitted

/-! ## What is not guaranteed -/

/-- Every value got for a key is the one that the program put last, and if it has put none the value
is certified. -/
def LatestOrCertified (venv : ValidationEnv) (s : Validation) : Prop :=
  EachAfter (fun before c => ∀ k v i, c = .got k v i →
    (∀ w, (putsOf k before).getLast? = some w → v = w) ∧
      (putsOf k before = [] → Certified venv s k v)) s.trace

def reportEnv (parallel : Bool) : ValidationEnv :=
  { Env.sample with
    parallelQuerySigsCheck := parallel
    readDepSize := 1
    verifyData := fun _ data _ => data == [5]
    parseWrite := fun data =>
      { key := some [7], committedValue := some data, committedTs := some (.timestamp ⟨100, 2⟩) } }

def reportedRead : ForwardReadResultMessage :=
  { result := { key := [7], value := [5], ts := some (.timestamp ⟨100, 2⟩), addReadset := true }
    write := some (.inr ⟨[5], 0, []⟩)
    proof := some (sixVotes { clientId := 2, clientSeqNum := 1, involvedGroups := [0]
                              timestamp := ⟨100, 2⟩
                              writeSet := [{ key := [7], value := some [5] }] }) }

def cachedRead : ForwardReadResultMessage := { result := { key := [7], value := [6] } }

/-- The program puts 6 and then gets the 5 that was there before. -/
def staleRun : List ValidationEvent :=
  [.receive reportedRead, .handle 0, .put [7] [6] 0, .get [7] 0, .commit]

/-- The program gets 5, then the 6 that it puts only afterwards. -/
def foresightRun : List ValidationEvent :=
  [.receive reportedRead, .handle 0, .get [7] 0, .receive cachedRead, .handle 1, .get [7] 0,
    .put [7] [6] 0, .commit]

theorem value_of_accept {msg : ForwardReadResultMessage}
    (h : readSigHelper (reportEnv false) msg = .accept) : msg.result.value ≠ [6] := by
  intro hv
  have hmatches {w : Write} (hw : matchesWrite (reportEnv false) msg.result w = true) :
      (if msg.result.dep.isSome then w.preparedValue else w.committedValue).getD [] = [6] := by
    simp only [matchesWrite, hv, cons_ne_nil, if_false, Bool.and_eq_true, beq_iff_eq] at hw
    exact hw.1.2
  rcases readSigHelper_accept h with ⟨dep, hdep, hmatch, hsigs⟩ | ⟨hdep, w, hw, -, hmatch⟩
  · -- What a replica signs prepares nothing.
    have hvalue : dep.write.preparedValue.getD [] = [6] := by simpa [hdep] using hmatches hmatch
    have hsigned := hsigs rfl
    rw [validateDependency] at hsigned
    cases hlist : dep.writeSigs with
    | nil => simp [hlist, reportEnv] at hsigned
    | cons sig sigs =>
      simp [hlist, reportEnv, checkWriteSigs, Write.samePrepared, hvalue] at hsigned
  · have hvalue : w.committedValue.getD [] = [6] := by simpa [hdep] using hmatches hmatch
    have hproofs : ((reportEnv false).params.validateProofs &&
        (reportEnv false).params.signedMessages) = true := rfl
    rw [reportedWrite, if_pos hproofs] at hw
    split at hw
    · -- A replica has signed the value 5.
      rename_i m _
      obtain ⟨hdata, hparse⟩ := ite_none_right_eq_some.mp hw
      cases hparse
      have hsix : m.data = [6] := hvalue
      rw [hsix] at hdata
      cases hdata
    · -- Without a signature the write has no committed value.
      obtain ⟨hnone, hwrite⟩ := ite_none_left_eq_some.mp hw
      cases hwrite
      rw [not_isSome_iff_eq_none.mp hnone] at hvalue
      cases hvalue
    · cases hw
      cases hvalue

/-- Both programs are told COMMITTED; the first gets a value that it has overwritten, the second one
that nobody has written yet. -/
theorem committed_stale :
    (((validationMachine (reportEnv false)).run { policyType := .none } staleRun).committed = true ∧
      ¬ LatestOrCertified (reportEnv false)
        ((validationMachine (reportEnv false)).run { policyType := .none } staleRun)) ∧
    (((validationMachine (reportEnv false)).run { policyType := .none } foresightRun).committed =
        true ∧
      ¬ LatestOrCertified (reportEnv false)
        ((validationMachine (reportEnv false)).run { policyType := .none } foresightRun)) := by
  have hstale : ((validationMachine (reportEnv false)).run { policyType := .none } staleRun).trace =
      [.put [7] [6], .got [7] [5] false] := by decide +kernel
  have hforesight :
      ((validationMachine (reportEnv false)).run { policyType := .none } foresightRun).trace =
        [.got [7] [5] false, .got [7] [6] true, .put [7] [6]] := by decide +kernel
  refine ⟨⟨by decide +kernel, fun h => ?_⟩, by decide +kernel, fun h => ?_⟩
  · have hread := (h [.put [7] [6]] (.got [7] [5] false) [] hstale [7] [5] false rfl).1 [6] rfl
    exact absurd hread (by decide)
  · obtain ⟨msg, haccept, -, hv, -⟩ := (h [.got [7] [5] false] (.got [7] [6] true) [.put [7] [6]]
      hforesight [7] [6] true rfl).2 rfl
    exact value_of_accept haccept hv

theorem committed_validated_written :
    Validated (reportEnv true) ((validationMachine (reportEnv true)).run { policyType := .none }
      [.receive reportedRead, .handle 0, .get [7] 0, .put [7] [6] 0, .commit, .check 0]) := by
  refine committed_validated (reportEnv true) rfl .none _ ?_ (by decide +kernel)
  exact ⟨notEarly_of_ne nofun, notEarly_of_ne nofun, notEarly_of_ne nofun, notEarly_of_ne nofun,
    notEarly_of_ne nofun, notEarly_check (by decide +kernel), trivial⟩

end Sintr.Client
