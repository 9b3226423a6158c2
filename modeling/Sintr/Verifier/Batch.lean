import Mathlib.Data.List.Perm.Basic
import Sintr.Lib.Machine
import Sintr.Lib.Marks
import Sintr.Verifier.Cache

/-!
# Verification in batches

`asyncBatchVerify` collects root signatures until a batch is full, a caller completes it or a timer
expires. A batch is verified at once, on the main thread or by a worker. Every request comes with a
callback, which takes a pointer: null is no, anything else is yes.

* `State`, `Event`, `step`: the verifier. Requests are numbered in the order in which they come.
-/

namespace Sintr.Verifier

open Marks List Function

/-! ## The verifier -/

structure Item where
  id : Nat
  publicKey : PubKey
  hashStr : Bytes
  rootSig : Bytes
  deriving DecidableEq

structure Job where
  items : List Item
  /-- One root signature, for `partialVerify`. -/
  single : Bool := false
  valid : Option (List Bool) := none
  deriving DecidableEq

/-- The batch that is filled and the jobs of the threads. -/
structure State where
  cache : Cache := fun _ => none
  batchSize : Nat
  pending : List Item := []
  timer : Option Bool := none
  jobs : List Job := []
  /-- The calls of `asyncBatchVerify`. -/
  requests : List Call := []
  /-- The calls that returned true from `Verify` or `partialVerify`: their roots are cached. -/
  verified : List Call := []
  calls : List (Nat × Bool) := []
  stopped : Bool := false

inductive Event where
  | verify (call : Call)
  | asyncBatchVerify (call : Call) (multithread autocomplete : Bool)
  | complete (multithread forceComplete : Bool)
  | timer
  | work (i : Nat)
  | deliver (i : Nat)
  | adjustBatchSize (size : Nat)

section
variable (c : Crypto)

def State.answer (s : State) (id : Nat) (result : Bool) : State :=
  { s with calls := s.calls ++ [(id, result)] }

def verifyBatch (items : List Item) : List Bool :=
  c.batchVerify (items.map fun i => (i.publicKey, i.hashStr, i.rootSig))

/-- `manageCallbacksS`, which caches the signature under its root, not the root under its
signature. -/
def State.manageCallbacks (s : State) (items : List Item) (valid : List Bool) : State :=
  (items.zip valid).foldl (fun s p =>
    if p.2 then
      State.answer { s with cache := Function.update s.cache p.1.hashStr (some p.1.rootSig) } p.1.id
        true
    else s.answer p.1.id false) s

def State.complete (s : State) (multithread forceComplete : Bool) : State :=
  if s.pending = [] then s
  else if forceComplete = true ∨ s.batchSize ≤ s.pending.length then
    let batch := s.pending
    let s := { s with timer := none, pending := [] }
    if multithread then { s with jobs := s.jobs ++ [{ items := batch }] }
    else s.manageCallbacks batch (verifyBatch c batch)
  else if s.timer = none then { s with timer := some multithread }
  else s

def State.partialVerify (s : State) (call : Call) (item : Item) : State × Bool :=
  if c.verify item.publicKey item.hashStr item.rootSig then
    ({ s with
        cache := Function.update s.cache item.rootSig (some item.hashStr)
        verified := s.verified ++ [call] }, true)
  else (s, false)

/-- `asyncBatchVerify` and `asyncBatchVerifyCallback`. From the cache comes a pointer that is not
null either way. A blob that is refused is forgotten. -/
def State.asyncBatchVerify (s : State) (call : Call) (multithread autocomplete : Bool) : State :=
  let id := s.requests.length
  let s := { s with requests := s.requests ++ [call] }
  match computeBatchedSignatureHash c call with
  | .stops => { s with stopped := true }
  | .refused => s
  | .root hashStr rootSig =>
    let item := { id, publicKey := call.publicKey, hashStr, rootSig }
    match s.cache rootSig with
    | some _ => s.answer id true
    | none =>
      if s.batchSize = 1 then
        if multithread then { s with jobs := s.jobs ++ [{ items := [item], single := true }] }
        else
          let r := s.partialVerify c call item
          r.1.answer id r.2
      else if call.publicKey.t ≠ .donna then { s with stopped := true }
      else
        let s := { s with pending := s.pending ++ [item] }
        if autocomplete then
          if s.batchSize ≤ s.pending.length then
            { s with timer := none }.complete c multithread false
          else if s.timer = none then { s with timer := some multithread }
          else s
        else s

/-- A thread verifies one root signature, and caches it, or a batch. -/
def State.work (s : State) (i : Nat) : State :=
  match s.jobs[i]? with
  | some { items := [item], single := true, valid := none } =>
    match s.requests[item.id]? with
    | some call =>
      let r := s.partialVerify c call item
      { r.1 with jobs := r.1.jobs.set i { items := [item], single := true, valid := some [r.2] } }
    | none => s
  | some { items, single := false, valid := none } =>
    { s with jobs := s.jobs.set i { items, valid := some (verifyBatch c items) } }
  | _ => s

/-- `pointerWrapperC` makes a pointer of the result for one root signature: never null. -/
def State.deliver (s : State) (i : Nat) : State :=
  match s.jobs[i]? with
  | some { items, single, valid := some valid } =>
    let s := { s with jobs := s.jobs.eraseIdx i }
    if single then items.foldl (fun s item => s.answer item.id true) s
    else s.manageCallbacks items valid
  | _ => s

def step (s : State) (e : Event) : State :=
  if s.stopped then s
  else
    match e with
    | .verify call =>
      match verify c s.cache call with
      | some cache => { s with cache, verified := s.verified ++ [call] }
      | none => { s with stopped := true }
    | .asyncBatchVerify call multithread autocomplete =>
      s.asyncBatchVerify c call multithread autocomplete
    | .complete multithread forceComplete => s.complete c multithread forceComplete
    | .timer =>
      match s.timer with
      | some multithread => { s with timer := none }.complete c multithread true
      | none => s
    | .work i => s.work c i
    | .deliver i => s.deliver i
    | .adjustBatchSize size => { s with batchSize := size }

def machine : Machine State Event := ⟨step c⟩

end

/-! ## Answered once -/

def State.ids (s : State) : List Nat :=
  s.calls.map (·.1) ++ s.pending.map (·.id) ++ s.jobs.flatMap (·.items.map (·.id))

structure Answered (c : Crypto) (s : State) : Prop where
  once : s.ids.Perm (List.range s.requests.length)
  valid : ∀ id, (id, true) ∈ s.calls → ∃ call, s.requests[id]? = some call ∧ Valid c call

/-- The calls of `asyncBatchVerify` among the events. -/
def asked (es : List Event) : List Call :=
  es.filterMap fun
    | .asyncBatchVerify call _ _ => some call
    | _ => none

/-- A request is well formed; what was verified alone before with the same root signature has the
same root and key; and one that is not cached is not for a thread alone, or is for a batch with the
right type of key. -/
def WellUsed (c : Crypto) (s : State) : Event → Prop
  | .asyncBatchVerify call multithread _ => s.stopped = false → ∃ hashStr rootSig,
      computeBatchedSignatureHash c call = .root hashStr rootSig ∧
      (∀ a ∈ s.verified, ∀ root, computeBatchedSignatureHash c a = .root root rootSig →
        root = hashStr ∧ a.publicKey = call.publicKey) ∧
      (s.cache rootSig = none →
        if s.batchSize = 1 then multithread = false else call.publicKey.t = .donna)
  | _ => True

def ItemOk (c : Crypto) (requests : List Call) (i : Item) : Prop :=
  ∃ call, requests[i.id]? = some call ∧ call.publicKey = i.publicKey ∧
    computeBatchedSignatureHash c call = .root i.hashStr i.rootSig

structure Inv (c : Crypto) (s : State) : Prop extends Answered c s where
  items : ∀ i ∈ s.pending ++ s.jobs.flatMap (·.items), ItemOk c s.requests i
  jobs : ∀ j ∈ s.jobs, j.single = false ∧ ∀ v, j.valid = some v → v = verifyBatch c j.items
  cache : ∀ {sig h}, sig.length = 64 → s.cache sig = some h → ∃ a ∈ s.verified,
    computeBatchedSignatureHash c a = .root h sig ∧ c.verify a.publicKey h sig = true

theorem ItemOk.append {c : Crypto} {requests : List Call} {i : Item} (h : ItemOk c requests i)
    (call : Call) : ItemOk c (requests ++ [call]) i := by
  obtain ⟨a, ha, hgood⟩ := h
  refine ⟨a, ?_, hgood⟩
  rw [getElem?_append_left (List.getElem?_eq_some_iff.1 ha).1, ha]

theorem inv_start (c : Crypto) (batchSize : Nat) : Inv c { batchSize } where
  once := .refl _
  valid := nofun
  items := nofun
  jobs := nofun
  cache := nofun

/-! ## Callbacks of a batch -/

theorem manageCallbacks_spec (s : State) {items : List Item} (f : Item → Bool)
    (hitems : ∀ i ∈ items, i.hashStr.length = hashSize) :
    ∃ cache : Cache, (∀ sig, sig.length = 64 → cache sig = s.cache sig) ∧
      s.manageCallbacks items (items.map f) =
        { s with cache, calls := s.calls ++ items.map fun i => (i.id, f i) } := by
  unfold State.manageCallbacks
  induction items generalizing s with
  | nil => exact ⟨s.cache, fun _ _ => rfl, by simp⟩
  | cons i items ih =>
    obtain ⟨hi, hrest⟩ := forall_mem_cons.1 hitems
    rw [map_cons, zip_cons_cons, foldl_cons]
    cases hf : f i with
    | false =>
      obtain ⟨cache, hcache, heq⟩ := ih (s.answer i.id false) hrest
      refine ⟨cache, hcache, ?_⟩
      simp only [Bool.false_eq_true, if_false, heq]
      simp [State.answer, hf]
    | true =>
      obtain ⟨cache, hcache, heq⟩ := ih (State.answer { s with
        cache := update s.cache i.hashStr (some i.rootSig) } i.id true) hrest
      refine ⟨cache, fun sig hsig => ?_, ?_⟩
      · rw [hcache sig hsig]
        -- a root is shorter than a signature
        have hne : sig ≠ i.hashStr := by
          rintro rfl
          rw [hi] at hsig
          cases hsig
        exact update_of_ne hne ..
      · simp only [if_true, heq]
        simp [State.answer, hf]

/-- What the library functions promise: hashes of 32 bytes, and results of a batch that are those of
its signatures. -/
structure Crypto.Documented (c : Crypto) : Prop where
  hash : ∀ b, (c.H b).length = hashSize
  batch : ∀ l, c.batchVerify l = l.map fun p => c.verify p.1 p.2.1 p.2.2

section
variable {c : Crypto} {s : State}

theorem Inv.setTimer (h : Inv c s) (timer : Option Bool) : Inv c { s with timer } := { h with }

theorem manageCallbacks_inv (hc : c.Documented) {batch : List Item}
    (h : Inv c { s with pending := batch ++ s.pending }) :
    Inv c (s.manageCallbacks batch (verifyBatch c batch)) := by
  have hbatch : ∀ i ∈ batch, ItemOk c s.requests i :=
    fun i hi => h.items i (mem_append_left _ (mem_append_left _ hi))
  have hsize : ∀ i ∈ batch, i.hashStr.length = hashSize := by
    intro i hi
    obtain ⟨call, -, -, hroot⟩ := hbatch i hi
    exact (computeBatchedSignatureHash_root hc.hash hroot).1
  have hresults : verifyBatch c batch =
      batch.map fun i => c.verify i.publicKey i.hashStr i.rootSig := by
    rw [verifyBatch, hc.batch, map_map]
    rfl
  obtain ⟨cache, hkeep, heq⟩ := manageCallbacks_spec s
    (fun i => c.verify i.publicKey i.hashStr i.rootSig) hsize
  rw [hresults, heq]
  refine { h with once := ?once, valid := ?valid, items := ?waiting, cache := ?cache }
  case once =>
    refine List.Perm.trans ?_ h.once
    rw [perm_iff_count]
    intro id
    simp only [State.ids, map_append, map_map, comp_def, count_append]
    omega
  case valid =>
    intro id hid
    rcases mem_append.1 hid with hid | hid
    · exact h.valid id hid
    · obtain ⟨i, hi, hpair⟩ := mem_map.1 hid
      obtain ⟨rfl, hverify⟩ := Prod.mk.inj hpair
      obtain ⟨call, hcall, hkey, hroot⟩ := hbatch i hi
      exact ⟨call, hcall, i.hashStr, i.rootSig, hroot, hkey ▸ hverify⟩
  case waiting =>
    intro i hi
    apply h.items i
    rw [append_assoc]
    exact mem_append_right _ hi
  case cache => exact fun hsig hget => h.cache hsig (hkeep _ hsig ▸ hget)

theorem complete_inv (hc : c.Documented) (h : Inv c s) (multithread forceComplete : Bool) :
    Inv c (s.complete c multithread forceComplete) := by
  unfold State.complete
  split
  · exact h
  · split
    · cases multithread with
      | true =>
        refine { h with once := ?once, items := ?items, jobs := ?jobs }
        case once =>
          refine List.Perm.trans ?_ h.once
          rw [perm_iff_count]
          intro id
          simp only [State.ids, if_true, map_nil, flatMap_append, flatMap_cons,
            flatMap_nil, count_append, append_nil]
          omega
        case items =>
          intro i hi
          apply h.items i
          simp only [if_true, nil_append, flatMap_append, flatMap_cons,
            flatMap_nil, append_nil, mem_append] at hi
          exact mem_append.2 hi.symm
        case jobs =>
          intro j hj
          rcases mem_append.1 hj with hj | hj
          · exact h.jobs j hj
          · rw [mem_singleton.1 hj]
            exact ⟨rfl, nofun⟩
      | false =>
        apply manageCallbacks_inv hc
        rw [append_nil]
        exact { h with }
    · split
      · exact h.setTimer _
      · exact h

/-! ## Requests -/

variable {call : Call} {hashStr rootSig : Bytes} {js : List Job}

theorem Inv.cached (h : Inv c s)
    (hroot : computeBatchedSignatureHash c call = .root hashStr rootSig)
    (hvalid : c.verify call.publicKey hashStr rootSig = true) :
    Inv c { s with
      cache := update s.cache rootSig (some hashStr)
      verified := s.verified ++ [call] } := by
  refine { h with cache := ?cache }
  intro sig root hsig hget
  dsimp only at hget
  by_cases heq : sig = rootSig
  · subst heq
    rw [update_self, Option.some.injEq] at hget
    subst hget
    exact ⟨call, mem_append_right _ mem_cons_self, hroot, hvalid⟩
  · rw [update_of_ne heq] at hget
    obtain ⟨a, ha, hgood⟩ := h.cache hsig hget
    exact ⟨a, mem_append_left _ ha, hgood⟩

theorem Inv.answered (h : Inv c s) {result : Bool} (hresult : result = true → Valid c call) :
    Inv c (State.answer { s with requests := s.requests ++ [call] } s.requests.length result) := by
  refine { h with once := ?once, valid := ?valid, items := ?items }
  case once =>
    have hperm := h.once.append_right [s.requests.length]
    rw [← range_succ] at hperm
    rw [State.answer, length_append, length_singleton]
    refine List.Perm.trans ?_ hperm
    rw [perm_iff_count]
    intro id
    simp only [State.ids, map_append, map_cons, map_nil, count_append]
    omega
  case valid =>
    intro id hid
    rcases mem_append.1 hid with hid | hid
    · obtain ⟨a, ha, hgood⟩ := h.valid id hid
      refine ⟨a, ?_, hgood⟩
      exact (getElem?_append_left (List.getElem?_eq_some_iff.1 ha).1).trans ha
    · obtain ⟨rfl, heq⟩ := Prod.mk.inj (mem_singleton.1 hid)
      exact ⟨call, getElem?_concat_length, hresult heq.symm⟩
  case items => exact fun i hi => (h.items i hi).append call

theorem Inv.queued (h : Inv c s)
    (hroot : computeBatchedSignatureHash c call = .root hashStr rootSig) :
    Inv c { s with
      requests := s.requests ++ [call]
      pending := s.pending ++
        [{ id := s.requests.length, publicKey := call.publicKey, hashStr, rootSig }] } := by
  refine { h with once := ?once, valid := ?valid, items := ?items }
  case once =>
    have hperm := h.once.append_right [s.requests.length]
    rw [← range_succ] at hperm
    rw [length_append, length_singleton]
    refine List.Perm.trans ?_ hperm
    rw [perm_iff_count]
    intro id
    simp only [State.ids, map_append, map_cons, map_nil, count_append]
    omega
  case valid =>
    intro id hid
    obtain ⟨a, ha, hgood⟩ := h.valid id hid
    refine ⟨a, ?_, hgood⟩
    exact (getElem?_append_left (List.getElem?_eq_some_iff.1 ha).1).trans ha
  case items =>
    intro i hi
    simp only [mem_append, mem_singleton] at hi
    rcases hi with (hi | rfl) | hi
    · exact (h.items i (mem_append_left _ hi)).append call
    · exact ⟨call, getElem?_concat_length, rfl, hroot⟩
    · exact (h.items i (mem_append_right _ hi)).append call

theorem asyncBatchVerify_inv (hc : c.Documented) (h : Inv c s) {multithread autocomplete : Bool}
    (hused : WellUsed c s (.asyncBatchVerify call multithread autocomplete))
    (hrunning : s.stopped = false) :
    Inv c (s.asyncBatchVerify c call multithread autocomplete) := by
  obtain ⟨hashStr, rootSig, hroot, hsame, hmiss⟩ := hused hrunning
  unfold State.asyncBatchVerify
  simp only [hroot]
  cases hget : s.cache rootSig with
  | some stored =>
    -- a hit: the entry is of an earlier call with this root and key
    have hlen := (computeBatchedSignatureHash_root hc.hash hroot).2
    obtain ⟨a, ha, haroot, havalid⟩ := h.cache hlen hget
    obtain ⟨rfl, hkey⟩ := hsame a ha stored haroot
    exact h.answered fun _ => ⟨stored, rootSig, hroot, hkey ▸ havalid⟩
  | none =>
    have hmiss := hmiss hget
    simp only
    split
    · rename_i hone
      rw [if_pos hone] at hmiss
      simp only [hmiss, Bool.false_eq_true, if_false, State.partialVerify]
      split
      · rename_i hvalid
        exact (h.cached hroot hvalid).answered fun _ => ⟨hashStr, rootSig, hroot, hvalid⟩
      · exact h.answered nofun
    · rename_i hbatch
      rw [if_neg hbatch] at hmiss
      have hqueued := h.queued hroot
      simp only [hmiss, ne_eq, not_true_eq_false, if_false]
      split
      · split
        · exact complete_inv hc (hqueued.setTimer none) multithread false
        · split
          · exact hqueued.setTimer _
          · exact hqueued
      · exact hqueued

/-! ## Threads -/

theorem work_inv (h : Inv c s) (i : Nat) : Inv c (s.work c i) := by
  unfold State.work
  split
  · rename_i item hjob
    cases (h.jobs _ (mem_of_getElem? hjob)).1
  · rename_i items hjob
    obtain ⟨as, bs, hjobs, hset⟩ := exists_set_split hjob
      { items, valid := some (verifyBatch c items) }
    have hflat : ∀ {β : Type} (f : Item → β),
        (s.jobs.set i { items, valid := some (verifyBatch c items) }).flatMap (·.items.map f) =
          s.jobs.flatMap (·.items.map f) := by
      intro β f
      rw [hset, hjobs]
      simp only [flatMap_append, flatMap_cons]
    refine { h with once := ?once, items := ?items, jobs := ?jobs }
    case once =>
      rw [State.ids, hflat]
      exact h.once
    case items =>
      have hid := hflat id
      simp only [map_id] at hid
      rw [hid]
      exact h.items
    case jobs =>
      intro j hj
      rcases mem_or_eq_of_mem_set hj with hj | rfl
      · exact h.jobs j hj
      · exact ⟨rfl, fun v hv => (Option.some.inj hv).symm⟩
  · exact h

theorem deliver_inv (hc : c.Documented) (h : Inv c s) (i : Nat) : Inv c (s.deliver i) := by
  unfold State.deliver
  split
  · rename_i items single valid hjob
    obtain ⟨hsingle, hvalid⟩ := h.jobs _ (mem_of_getElem? hjob)
    obtain rfl : single = false := hsingle
    obtain rfl : valid = verifyBatch c items := hvalid valid rfl
    simp only [Bool.false_eq_true, if_false]
    apply manageCallbacks_inv hc
    -- the items of the job, before those that are still with threads
    obtain ⟨hlt, hget⟩ := List.getElem?_eq_some_iff.1 hjob
    have hperm : (_ :: s.jobs.eraseIdx i).Perm s.jobs := getElem_cons_eraseIdx_perm hlt
    rw [hget] at hperm
    refine { h with once := ?once, items := ?items, jobs := ?jobs }
    case once =>
      refine List.Perm.trans ?_ h.once
      have hids := hperm.flatMap_right (·.items.map (·.id))
      rw [perm_iff_count] at hids ⊢
      intro id
      have hcount := hids id
      simp only [flatMap_cons, count_append] at hcount
      simp only [State.ids, map_append, count_append]
      omega
    case items =>
      intro x hx
      apply h.items x
      have hmem := (hperm.flatMap_right (·.items)).mem_iff (a := x)
      simp only [flatMap_cons, mem_append] at hmem hx ⊢
      rw [← hmem]
      tauto
    case jobs => exact fun j hj => h.jobs j (mem_of_mem_eraseIdx hj)
  · exact h

/-! ## Runs -/

theorem step_inv (hc : c.Documented) (h : Inv c s) {e : Event} (hused : WellUsed c s e) :
    Inv c (step c s e) := by
  unfold step
  split
  · exact h
  · rename_i hrunning
    rw [Bool.not_eq_true] at hrunning
    cases e with
    | verify call =>
      dsimp only
      split
      · rename_i cache hverify
        obtain ⟨hashStr, rootSig, hroot, ⟨-, hvalid, rfl⟩ | ⟨-, rfl⟩⟩ := verify_eq_some hverify
        · exact h.cached hroot hvalid
        · refine { h with cache := fun hsig hget => ?_ }
          obtain ⟨a, ha, hgood⟩ := h.cache hsig hget
          exact ⟨a, mem_append_left _ ha, hgood⟩
      · exact { h with }
    | asyncBatchVerify call multithread autocomplete =>
      exact asyncBatchVerify_inv hc h hused hrunning
    | complete multithread forceComplete => exact complete_inv hc h multithread forceComplete
    | timer =>
      dsimp only
      split
      · exact complete_inv hc (h.setTimer none) _ true
      · exact h
    | work i => exact work_inv h i
    | deliver i => exact deliver_inv hc h i
    | adjustBatchSize size => exact { h with }

/-! ## Completion -/

theorem manageCallbacks_frame (s : State) (items : List Item) (valid : List Bool) :
    ∃ cache calls, s.manageCallbacks items valid = { s with cache, calls } := by
  unfold State.manageCallbacks
  induction items.zip valid generalizing s with
  | nil => exact ⟨s.cache, s.calls, rfl⟩
  | cons p ps ih =>
    rw [foldl_cons]
    obtain ⟨cache, calls, heq⟩ := ih (if p.2 then
      State.answer { s with cache := update s.cache p.1.hashStr (some p.1.rootSig) } p.1.id
        true
      else s.answer p.1.id false)
    refine ⟨cache, calls, ?_⟩
    rw [heq]
    split <;> rfl

theorem step_running (hrunning : s.stopped = false) :
    (∀ i, step c s (.work i) = s.work c i) ∧ (∀ i, step c s (.deliver i) = s.deliver i) ∧
      ∀ m f, step c s (.complete m f) = s.complete c m f := by
  simp [step, hrunning]

structure Keeps (s s' : State) : Prop where
  requests : s'.requests = s.requests
  stopped : s'.stopped = s.stopped

theorem complete_frame (s : State) :
    let s' := s.complete c false true
    s'.pending = [] ∧ s'.jobs = s.jobs ∧ Keeps s s' := by
  intro s'
  by_cases hnil : s.pending = []
  · have hsame : s' = s := if_pos hnil
    rw [hsame]
    exact ⟨hnil, rfl, rfl, rfl⟩
  · obtain ⟨cache, calls, heq⟩ := manageCallbacks_frame { s with timer := none, pending := [] }
      s.pending (verifyBatch c s.pending)
    have hrun : s' = State.manageCallbacks { s with timer := none, pending := [] } s.pending
        (verifyBatch c s.pending) := by
      simp only [s', State.complete, hnil, if_false, true_or, if_true, Bool.false_eq_true]
    rw [hrun, heq]
    exact ⟨rfl, rfl, rfl, rfl⟩

theorem work_frame (h : Inv c s) {j : Job} (hjobs : s.jobs = j :: js) :
    let s' := s.work c 0
    (∃ v, s'.jobs = { j with single := false, valid := some v } :: js) ∧ s'.pending = s.pending ∧
      Keeps s s' := by
  intro s'
  obtain ⟨items, single, valid⟩ := j
  obtain rfl : single = false := (h.jobs _ (hjobs ▸ mem_cons_self)).1
  cases valid with
  | none =>
    have hrun : s' = { s with jobs := { items, valid := some (verifyBatch c items) } :: js } := by
      simp [s', State.work, hjobs]
    rw [hrun]
    exact ⟨⟨_, rfl⟩, rfl, rfl, rfl⟩
  | some v =>
    have hsame : s' = s := by simp [s', State.work, hjobs]
    rw [hsame]
    exact ⟨⟨v, hjobs⟩, rfl, rfl, rfl⟩

theorem deliver_frame {items : List Item} {v : List Bool}
    (hjobs : s.jobs = { items, valid := some v } :: js) :
    let s' := s.deliver 0
    s'.jobs = js ∧ s'.pending = s.pending ∧ Keeps s s' := by
  intro s'
  obtain ⟨cache, calls, heq⟩ := manageCallbacks_frame { s with jobs := js } items v
  have hrun : s' = State.manageCallbacks { s with jobs := js } items v := by
    simp [s', State.deliver, hjobs]
  rw [hrun, heq]
  exact ⟨rfl, rfl, rfl, rfl⟩

theorem run_deliver (hc : c.Documented) (h : Inv c s) (hrunning : s.stopped = false)
    (hpending : s.pending = []) :
    let s' := (machine c).run s (replicate s.jobs.length [Event.work 0, .deliver 0]).flatten
    (s'.calls.map (·.1)).Perm (range s.requests.length) := by
  generalize hn : s.jobs.length = n
  induction n generalizing s with
  | zero =>
    have honce := h.once
    rw [State.ids, hpending, eq_nil_of_length_eq_zero hn, map_nil, flatMap_nil,
      append_nil, append_nil] at honce
    exact honce
  | succ n ih =>
    obtain ⟨j, js, hjobs⟩ := exists_cons_of_length_eq_add_one hn
    have hwinv := work_inv h 0
    obtain ⟨⟨v, hwjobs⟩, hwpending, hwkeeps⟩ := work_frame h hjobs
    obtain ⟨hdjobs, hdpending, hdkeeps⟩ := deliver_frame hwjobs
    have hwrunning := hwkeeps.stopped.trans hrunning
    have hsteps : (machine c).run s [.work 0, .deliver 0] = (s.work c 0).deliver 0 := by
      show step c (step c s (.work 0)) (.deliver 0) = _
      rw [(step_running hrunning).1, (step_running hwrunning).2.1]
    have hlen : js.length = n := by
      rw [hjobs, length_cons] at hn
      omega
    have hrest := ih (deliver_inv hc hwinv 0) (hdkeeps.stopped.trans hwrunning)
      (hdpending.trans (hwpending.trans hpending)) (by rw [hdjobs, hlen])
    rw [hdkeeps.requests, hwkeeps.requests] at hrest
    rw [replicate_succ, flatten_cons, Machine.run_append, hsteps]
    exact hrest

/-! ## The requests of a run -/

@[simp] theorem manageCallbacks_requests (s : State) (items : List Item) (valid : List Bool) :
    (s.manageCallbacks items valid).requests = s.requests := by
  obtain ⟨cache, calls, heq⟩ := manageCallbacks_frame s items valid
  rw [heq]

@[simp] theorem complete_requests (s : State) (multithread forceComplete : Bool) :
    (s.complete c multithread forceComplete).requests = s.requests := by
  simp only [State.complete]
  split_ifs <;> simp

@[simp] theorem partialVerify_requests (s : State) (call : Call) (item : Item) :
    (s.partialVerify c call item).1.requests = s.requests := by
  simp only [State.partialVerify]
  split_ifs <;> simp

theorem asyncBatchVerify_requests (s : State) (call : Call) (multithread autocomplete : Bool) :
    (s.asyncBatchVerify c call multithread autocomplete).requests = s.requests ++ [call] := by
  simp only [State.asyncBatchVerify]
  split
  · simp
  · simp
  · split
    · simp [State.answer]
    · split_ifs <;> simp [State.answer]

theorem work_requests (s : State) (i : Nat) : (s.work c i).requests = s.requests := by
  unfold State.work
  split
  · split <;> simp
  · simp
  · simp

theorem foldl_answer_requests (s : State) (items : List Item) :
    (items.foldl (fun s item => s.answer item.id true) s).requests = s.requests := by
  induction items generalizing s with
  | nil => rfl
  | cons item items ih =>
    rw [foldl_cons, ih]
    rfl

theorem deliver_requests (s : State) (i : Nat) : (s.deliver i).requests = s.requests := by
  unfold State.deliver
  split
  · dsimp only
    split
    · exact foldl_answer_requests ..
    · simp
  · rfl

theorem step_requests (hrunning : s.stopped = false) (e : Event) :
    (step c s e).requests = s.requests ++ asked [e] := by
  simp only [step, hrunning, Bool.false_eq_true, if_false]
  cases e with
  | verify call =>
    dsimp only
    split <;> simp [asked]
  | asyncBatchVerify call multithread autocomplete =>
    simp [asyncBatchVerify_requests, asked]
  | complete multithread forceComplete => simp [asked]
  | timer =>
    dsimp only
    split <;> simp [asked]
  | work i => simp [work_requests, asked]
  | deliver i => simp [deliver_requests, asked]
  | adjustBatchSize size => simp [asked]

theorem run_stopped (hstopped : s.stopped = true) (es : List Event) : (machine c).run s es = s := by
  induction es with
  | nil => rfl
  | cons e es ih =>
    have hstep : (machine c).step s e = s := by simp [machine, step, hstopped]
    rw [Machine.run_cons, hstep, ih]

theorem run_requests {es : List Event} (hend : ((machine c).run s es).stopped = false) :
    ((machine c).run s es).requests = s.requests ++ asked es := by
  induction es generalizing s with
  | nil => simp [asked]
  | cons e es ih =>
    cases hs : s.stopped with
    | true => simp [run_stopped hs, hs] at hend
    | false =>
      have hcons : asked (e :: es) = asked [e] ++ asked es := filterMap_append (l := [e])
      rw [Machine.run_cons, ih hend, machine, step_requests hs, hcons, append_assoc]

/-- What a request waits for: the batch is completed on the main thread, and every thread does its
job and reports. -/
def drain (s : State) : List Event :=
  .complete false true :: (List.replicate s.jobs.length [Event.work 0, .deliver 0]).flatten

theorem drain_answers (hc : c.Documented) (h : Inv c s) (hrunning : s.stopped = false) :
    (((machine c).run s (drain s)).calls.map (·.1)).Perm (range s.requests.length) := by
  obtain ⟨hpending, hjobs, hkeeps⟩ := complete_frame (c := c) s
  have hstep : (machine c).step s (.complete false true) = s.complete c false true :=
    (step_running hrunning).2.2 false true
  have hrest := run_deliver hc (complete_inv hc h false true) (hkeeps.stopped.trans hrunning)
    hpending
  rw [hkeeps.requests, hjobs] at hrest
  rw [drain, Machine.run_cons, hstep]
  exact hrest

/-- **Every request is answered once, and yes is said to valid signatures only.** Unless the process
has stopped, the requests are all calls made, and each is answered once the batch is completed and
the threads have reported. -/
theorem run_answered (c : Crypto) (hc : c.Documented) (batchSize : Nat) (es : List Event)
    (hes : (machine c).Along (WellUsed c) { batchSize } es) :
    let s := (machine c).run { batchSize } es
    Answered c s ∧ (s.stopped = false → s.requests = asked es ∧
      (((machine c).run s (drain s)).calls.map (·.1)).Perm (List.range s.requests.length)) := by
  have hinv := Machine.run_along (M := machine c) (I := Inv c)
    (fun _ _ hused hi => step_inv hc hi hused) (inv_start c batchSize) hes
  exact ⟨hinv.toAnswered, fun hrunning => ⟨run_requests hrunning, drain_answers hc hinv hrunning⟩⟩

end

/-- A blob whose hashes do not match is forgotten. A cached root signature is accepted under another
key and with another message; with batches of one request a thread accepts everything. -/
theorem run_unanswered :
    let M := machine sampleCrypto
    let twoOfZeros : Call :=
      { alone 1 1 [5] with
        signature := 1 :: List.replicate 63 0 ++ [0, 0, 0, 2, 0, 0, 0, 0] ++ List.replicate 64 0 }
    ((M.run { batchSize := 4 } [.asyncBatchVerify twoOfZeros false false]).requests.length = 1 ∧
      (M.run { batchSize := 4 } [.asyncBatchVerify twoOfZeros false false,
        .complete false true]).ids = []) ∧
    ((M.run { batchSize := 4 } [.verify (alone 1 1 [5]),
        .asyncBatchVerify (alone 2 1 [6]) false false]).calls = [(0, true)] ∧
      ¬ Valid sampleCrypto (alone 2 1 [6])) ∧
    ((M.run { batchSize := 1 } [.asyncBatchVerify (alone 2 1 [5]) true false, .work 0,
        .deliver 0]).calls = [(0, true)] ∧
      ¬ Valid sampleCrypto (alone 2 1 [5])) := by
  decide +kernel

theorem run_answered_batch :
    let es : List Event := [.asyncBatchVerify (alone 1 1 [5]) false false]
    let s := (machine sampleCrypto).run { batchSize := 4 } es
    s.pending.map (·.id) = [0] ∧ Answered sampleCrypto s ∧ (s.stopped = false →
      s.requests = [alone 1 1 [5]] ∧
        (((machine sampleCrypto).run s (drain s)).calls.map (·.1)).Perm (List.range 1)) := by
  have hc : sampleCrypto.Documented := ⟨fun b => by simp [sampleCrypto, hashSize], fun _ => rfl⟩
  have hroot : computeBatchedSignatureHash sampleCrypto (alone 1 1 [5]) =
      .root (5 :: List.replicate 31 0) (1 :: List.replicate 63 0) := by decide +kernel
  intro es s
  refine ⟨by decide +kernel, run_answered sampleCrypto hc 4 es ⟨?_, trivial⟩⟩
  exact fun _ => ⟨_, _, hroot, nofun, fun _ => rfl⟩

end Sintr.Verifier
