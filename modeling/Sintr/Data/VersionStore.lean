import Mathlib.Order.Bounds.Basic
import Sintr.Data.Types
import Sintr.Lib.Machine
import Sintr.Lib.OrdMap

/-!
# The multi-version store and its read timestamps

`VersionedKVStore` keeps the versions of each key by write timestamp and, beside them, the
latest commit timestamp of a transaction that read a version. `commitGet` is to record such a
read. It changes an entry of `lastReads` but never makes one, and nothing else does: the map stays
empty, so `getLastRead` reports a version as unread whatever was committed
(`getLastRead_run_iff`).
-/

namespace Sintr

open List Function

/-- Versions and last reads of each key; a key that is not in a map has the empty one. -/
structure VersionedKVStore (T V : Type) [LinearOrder T] where
  store : Key → OrdMap T V := fun _ => .empty
  lastReads : Key → OrdMap T T := fun _ => .empty

namespace VersionedKVStore

variable {T V : Type} [LinearOrder T]

/-- The write timestamp of the version of the key valid at the time. -/
def getValue (s : VersionedKVStore T V) (key : Key) (t : T) : Option T :=
  ((s.store key).latestLE t).map (·.1)

def put (s : VersionedKVStore T V) (key : Key) (value : V) (t : T) : VersionedKVStore T V :=
  { s with store := update s.store key ((s.store key).insertNew t value) }

def commitGet (s : VersionedKVStore T V) (key : Key) (readTime commit : T) :
    VersionedKVStore T V :=
  match s.getValue key readTime with
  | none => s
  | some write =>
    match (s.lastReads key).find write with
    | none => s
    | some last =>
      if last < commit then
        { s with lastReads := update s.lastReads key ((s.lastReads key).set write commit) }
      else s

def getLastRead (s : VersionedKVStore T V) (key : Key) (t : T) : Option T :=
  (s.getValue key t).bind (s.lastReads key).find

inductive Call (T V : Type) where
  | put (key : Key) (value : V) (t : T)
  | commitGet (key : Key) (readTime commit : T)

def machine (T V : Type) [LinearOrder T] : Machine (VersionedKVStore T V) (Call T V) where
  step s
    | .put key value t => s.put key value t
    | .commitGet key readTime commit => s.commitGet key readTime commit

/-- The commit timestamps of the `commitGet` calls that resolve to the version of the key written at
`write`. -/
def commits (s : VersionedKVStore T V) (key : Key) (write : T) : List (Call T V) → List T
  | [] => []
  | .put k value t :: calls => (s.put k value t).commits key write calls
  | .commitGet k readTime commit :: calls =>
    let rest := (s.commitGet k readTime commit).commits key write calls
    if k = key ∧ s.getValue k readTime = some write then commit :: rest else rest

/-- `write` is the version of the key valid at `t`: the latest one that the calls wrote by then. -/
def ValidAt (calls : List (Call T V)) (key : Key) (t write : T) : Prop :=
  IsGreatest {w | w ≤ t ∧ ∃ v, .put key v w ∈ calls} write

variable {s : VersionedKVStore T V} {key : Key} {t write : T} {calls : List (Call T V)}

theorem commitGet_store (k : Key) (readTime commit : T) :
    (s.commitGet k readTime commit).store = s.store := by
  unfold commitGet
  split <;> first | rfl | (split <;> first | rfl | (split <;> rfl))

def Blank (s : VersionedKVStore T V) : Prop := ∀ k write, (s.lastReads k).find write = none

theorem Blank.step (hs : s.Blank) (c : Call T V) : ((machine T V).step s c).Blank := by
  cases c with
  | put k v t => exact hs
  | commitGet k readTime commit =>
    simp only [machine, commitGet, hs k]
    split <;> exact hs

theorem getLastRead_run (calls : List (Call T V)) (key : Key) (t : T) :
    ((machine T V).run {} calls).getLastRead key t = none := by
  have h : ((machine T V).run {} calls).Blank :=
    Machine.run_induct (I := Blank) (fun _ c hs => hs.step c) (fun _ _ => rfl) calls
  exact Option.bind_eq_none_iff.2 fun write _ => h key write

theorem mem_put_store {k : Key} {v : V} {w : T} :
    (∃ x, (write, x) ∈ (s.put k v w).store key) ↔
      (∃ x, (write, x) ∈ s.store key) ∨ k = key ∧ w = write := by
  by_cases hk : k = key
  · subst hk
    simp only [put, update_self, OrdMap.mem_insertNew]
    constructor
    · rintro ⟨x, hx | ⟨hx, -⟩⟩
      · exact .inl ⟨x, hx⟩
      · exact .inr ⟨trivial, (congrArg Prod.fst hx).symm⟩
    · rintro (⟨x, hx⟩ | ⟨-, rfl⟩)
      · exact ⟨x, .inl hx⟩
      · simpa [OrdMap.mem_insertNew] using OrdMap.exists_mem_insertNew (s.store k) w v
  · simp [put, Ne.symm hk, hk]

theorem mem_run_store : (∃ v, (write, v) ∈ ((machine T V).run s calls).store key) ↔
    (∃ v, (write, v) ∈ s.store key) ∨ ∃ v, .put key v write ∈ calls := by
  induction calls generalizing s with
  | nil => simp
  | cons c calls ih =>
    rw [Machine.run_cons, ih]
    cases c with
    | commitGet k readTime commit => simp [machine, commitGet_store]
    | put k v w =>
      simp only [machine, mem_put_store, mem_cons, Call.put.injEq]
      grind

theorem getValue_run (h : ∃ w ≤ t, ∃ v, .put key v w ∈ calls) :
    ∃ write, ((machine T V).run {} calls).getValue key t = some write ∧
      ValidAt calls key t write := by
  have hput (w : T) : (∃ v, (w, v) ∈ ((machine T V).run {} calls).store key) ↔
      ∃ v, .put key v w ∈ calls := by
    simp [mem_run_store]
  obtain ⟨w, hw, hv⟩ := h
  obtain ⟨v, hv⟩ := (hput w).2 hv
  obtain ⟨e, he, -⟩ := OrdMap.exists_latestLE hv hw
  obtain ⟨hmem, hle⟩ := OrdMap.latestLE_some he
  refine ⟨e.1, by simp [getValue, he], ⟨hle, (hput _).1 ⟨e.2, hmem⟩⟩, fun w' ⟨hle', hv'⟩ => ?_⟩
  -- any other version put by then is in the store and not above the one found
  obtain ⟨v', hv'⟩ := (hput w').2 hv'
  obtain ⟨e', he', hge⟩ := OrdMap.exists_latestLE hv' hle'
  rw [he] at he'
  cases he'
  exact hge

/-- If a version of the key was put by `t`, the read timestamp reported for the one valid at `t` is
the largest committed read of it exactly if there was none. -/
theorem getLastRead_run_iff (h : ∃ w ≤ t, ∃ v, .put key v w ∈ calls) :
    ∃ write, ValidAt calls key t write ∧
      (((machine T V).run {} calls).getLastRead key t = (commits {} key write calls).max? ↔
        commits {} key write calls = []) := by
  obtain ⟨write, -, hvalid⟩ := getValue_run h
  refine ⟨write, hvalid, ?_⟩
  rw [getLastRead_run]
  exact eq_comm.trans max?_eq_none_iff

theorem getLastRead_committed :
    let calls : List (Call Nat Nat) := [.put [] 7 1, .commitGet [] 2 3]
    ValidAt calls [] 2 1 ∧ commits {} [] 1 calls = [3] ∧
      ((machine Nat Nat).run {} calls).getLastRead [] 2 = none := by
  refine ⟨⟨by simp, fun w hw => ?_⟩, by decide, by decide⟩
  obtain ⟨-, v, hv⟩ := hw
  simp at hv
  omega

theorem getLastRead_run_iff_unread :
    let calls : List (Call Nat Nat) := [.put [] 7 1, .put [1] 8 1, .commitGet [1] 2 3]
    ∃ write, ValidAt calls [] 2 write ∧
      (((machine Nat Nat).run {} calls).getLastRead [] 2 = (commits {} [] write calls).max? ↔
        commits {} [] write calls = []) :=
  getLastRead_run_iff ⟨1, by decide, 7, by simp⟩

/-! ## Reads -/

def get (s : VersionedKVStore T V) (key : Key) (t : T) : Option (T × V) :=
  (s.store key).latestLE t

/-- The value put first at the time; `std::set::insert` drops the others. -/
def firstPut (key : Key) (write : T) : List (Call T V) → Option V
  | [] => none
  | .put k v w :: calls => if k = key ∧ w = write then some v else firstPut key write calls
  | .commitGet .. :: calls => firstPut key write calls

theorem mem_run_iff {v : V} : (write, v) ∈ ((machine T V).run s calls).store key ↔
    (write, v) ∈ s.store key ∨
      (∀ x, (write, x) ∉ s.store key) ∧ firstPut key write calls = some v := by
  induction calls generalizing s with
  | nil => simp [firstPut]
  | cons c calls ih =>
    rw [Machine.run_cons, ih]
    cases c with
    | commitGet k readTime commit => simp [machine, commitGet_store, firstPut]
    | put k x w =>
      by_cases hk : k = key
      · subst hk
        by_cases hw : w = write
        · subst hw
          simp only [machine, put, update_self, OrdMap.mem_insertNew, firstPut]
          grind
        · simp [machine, put, OrdMap.mem_insertNew, firstPut, hw, Ne.symm hw]
      · simp [machine, put, firstPut, hk, Ne.symm hk]

/-- A read finds the latest version put by then, with the value that was put there first. -/
theorem get_run (calls : List (Call T V)) (key : Key) (t write : T) (v : V) :
    ((machine T V).run {} calls).get key t = some (write, v) ↔
      ValidAt calls key t write ∧ firstPut key write calls = some v := by
  have hmem (w : T) (x : V) : (w, x) ∈ ((machine T V).run {} calls).store key ↔
      firstPut key w calls = some x := by
    simp [mem_run_iff]
  constructor
  · intro h
    obtain ⟨hv, hle⟩ := OrdMap.latestLE_some h
    obtain ⟨w, hw, hvalid⟩ := getValue_run ⟨write, hle, by simpa using mem_run_store.1 ⟨v, hv⟩⟩
    obtain rfl : write = w := by simpa [getValue, show OrdMap.latestLE _ _ = _ from h] using hw
    exact ⟨hvalid, (hmem _ _).1 hv⟩
  · rintro ⟨hvalid, hfirst⟩
    obtain ⟨w, hw, hvalid'⟩ := getValue_run ⟨write, hvalid.1⟩
    obtain rfl := hvalid.unique hvalid'
    obtain ⟨⟨_, x⟩, he, rfl⟩ := Option.map_eq_some_iff.1 hw
    rw [get, he, OrdMap.eq_of_mem (OrdMap.latestLE_some he).1 ((hmem _ _).2 hfirst)]

end VersionedKVStore

end Sintr
