import Mathlib.Order.Lattice
import Mathlib.Data.List.Pairwise
import Mathlib.Data.List.TakeWhile
import Sintr.Lib.Updates

/-!
# Ordered maps

`OrdMap K V` is a `std::map`: a list of entries whose keys strictly increase (the field `sorted`).
The operations are those of the C++ container: `insertNew` leaves an existing entry alone, and the
bounds find the neighbour of a key in the order.

* `mem_insertNew`, `mem_erase`: the entries after an update.
* `latestLT_some`, `latestLT_none`: the greatest entry strictly below a key;
  `exists_latestLE`: at or below it.
* `find_set`: what is found after an update.
* `lastGE_some`: the entry that a loop from the end down to a key takes.
* `mem_downFrom`: the entries that a loop from below a key down to the first entry visits;
  `mem_upFrom`: those above the key.
* `mem_inserts_of_mem`, `exists_mem_inserts`: a loop of insertions into a family of maps;
  `mem_inserts_at`: all at one key, so that the first insertion into a map counts.
-/

universe u v

/-- A finite map with strictly increasing keys. -/
structure OrdMap (K : Type u) (V : Type v) [LinearOrder K] where
  entries : List (K × V)
  sorted : entries.Pairwise fun a b => a.1 < b.1

namespace OrdMap

open List Option

variable {K : Type u} {V : Type v} [LinearOrder K]

def empty : OrdMap K V := ⟨[], List.Pairwise.nil⟩

instance : Inhabited (OrdMap K V) := ⟨empty⟩

instance : Membership (K × V) (OrdMap K V) := ⟨fun m e => e ∈ m.entries⟩

instance [DecidableEq V] (e : K × V) (m : OrdMap K V) : Decidable (e ∈ m) :=
  inferInstanceAs (Decidable (e ∈ m.entries))

variable {e : K × V} {m : OrdMap K V} {k : K} {v : V} {l : List (K × V)}

theorem mem_def : e ∈ m ↔ e ∈ m.entries := Iff.rfl

@[simp] theorem not_mem_empty (e : K × V) : e ∉ (empty : OrdMap K V) := not_mem_nil

theorem eq_of_mem {v w : V} (hv : (k, v) ∈ m) (hw : (k, w) ∈ m) :
    v = w := by
  by_contra hne
  have hsymm : Std.Symm fun a b : K × V => a.1 ≠ b.1 := ⟨fun _ _ h => h.symm⟩
  have hkeys : m.entries.Pairwise fun a b => a.1 ≠ b.1 := m.sorted.imp ne_of_lt
  exact hkeys.forall hv hw (fun heq => hne (congrArg Prod.snd heq)) rfl

/-! ## Updates -/

def insertList (k : K) (v : V) : List (K × V) → List (K × V)
  | [] => [(k, v)]
  | e :: l => if k < e.1 then (k, v) :: e :: l else if k = e.1 then e :: l
    else e :: insertList k v l

theorem mem_insertList (hl : l.Pairwise fun a b => a.1 < b.1) :
    e ∈ insertList k v l ↔ e ∈ l ∨ e = (k, v) ∧ ∀ w, (k, w) ∉ l := by
  induction l with
  | nil => simp [insertList]
  | cons d l ih =>
    rw [pairwise_cons] at hl
    unfold insertList
    split_ifs with h1 h2
    · have hnot : ∀ w, (k, w) ∉ d :: l := fun w hw => by
        rcases mem_cons.1 hw with rfl | hw
        · exact lt_irrefl _ h1
        · exact lt_asymm h1 (hl.1 _ hw)
      simp [hnot, or_comm]
    · subst h2
      refine ⟨.inl, fun h => h.elim id fun ⟨_, hn⟩ => absurd mem_cons_self (hn d.2)⟩
    · have hd : ∀ w, (k, w) ≠ d := fun w hw => h2 (by rw [← hw])
      simp only [mem_cons, ih hl.2, not_or]
      constructor
      · rintro (h | h | ⟨h, hn⟩)
        · exact .inl (.inl h)
        · exact .inl (.inr h)
        · exact .inr ⟨h, fun w => ⟨hd w, hn w⟩⟩
      · rintro ((h | h) | ⟨h, hn⟩)
        · exact .inl h
        · exact .inr (.inl h)
        · exact .inr (.inr ⟨h, fun w => (hn w).2⟩)

theorem insertList_sorted (hl : l.Pairwise fun a b => a.1 < b.1) :
    (insertList k v l).Pairwise fun a b => a.1 < b.1 := by
  induction l with
  | nil => simp [insertList]
  | cons d l ih =>
    have hl' := pairwise_cons.1 hl
    unfold insertList
    split_ifs with h1 h2
    · refine pairwise_cons.2 ⟨fun a ha => ?_, hl⟩
      rcases mem_cons.1 ha with rfl | ha
      · exact h1
      · exact lt_trans h1 (hl'.1 _ ha)
    · exact hl
    · refine pairwise_cons.2 ⟨fun a ha => ?_, ih hl'.2⟩
      rcases (mem_insertList hl'.2).1 ha with ha | ⟨rfl, -⟩
      · exact hl'.1 _ ha
      · exact lt_of_le_of_ne (not_lt.1 h1) (Ne.symm h2)

/-- `std::map::insert`: the entry already at `k`, if any, is kept. -/
def insertNew (m : OrdMap K V) (k : K) (v : V) : OrdMap K V :=
  ⟨insertList k v m.entries, insertList_sorted m.sorted⟩

theorem mem_insertNew :
    e ∈ m.insertNew k v ↔ e ∈ m ∨ e = (k, v) ∧ ∀ w, (k, w) ∉ m :=
  mem_insertList m.sorted

theorem exists_mem_insertNew (m : OrdMap K V) (k : K) (v : V) : ∃ w, (k, w) ∈ m.insertNew k v := by
  by_cases h : ∃ w, (k, w) ∈ m
  · obtain ⟨w, hw⟩ := h
    exact ⟨w, mem_insertNew.2 (.inl hw)⟩
  · exact ⟨v, mem_insertNew.2 (.inr ⟨rfl, fun w hw => h ⟨w, hw⟩⟩)⟩

theorem insertList_idem (k : K) (v : V) (l : List (K × V)) :
    insertList k v (insertList k v l) = insertList k v l := by
  induction l with
  | nil => simp [insertList]
  | cons e l ih =>
    by_cases h1 : k < e.1
    · simp [insertList, h1]
    · by_cases h2 : k = e.1
      · rw [insertList, if_neg h1, if_pos h2, insertList, if_neg h1, if_pos h2]
      · simp [insertList, h1, h2, ih]

theorem insertNew_idem (k : K) (v : V) (m : OrdMap K V) :
    (m.insertNew k v).insertNew k v = m.insertNew k v := by
  simp [insertNew, insertList_idem]

def erase (m : OrdMap K V) (k : K) : OrdMap K V :=
  ⟨m.entries.filter (·.1 ≠ k), m.sorted.filter _⟩

theorem mem_erase : e ∈ m.erase k ↔ e ∈ m ∧ e.1 ≠ k := by
  simp [erase, mem_def]

theorem erase_idem (k : K) (m : OrdMap K V) : (m.erase k).erase k = m.erase k := by
  simp [erase]

def set (m : OrdMap K V) (k : K) (v : V) : OrdMap K V := (m.erase k).insertNew k v

theorem mem_set (h : e ∈ m.set k v) :
    e ∈ m ∨ e = (k, v) := by
  rcases mem_insertNew.1 h with he | ⟨he, -⟩
  · exact .inl (mem_erase.1 he).1
  · exact .inr he

theorem mem_set_self (m : OrdMap K V) (k : K) (v : V) : (k, v) ∈ m.set k v :=
  mem_insertNew.2 (.inr ⟨rfl, fun _ hw => (mem_erase.1 hw).2 rfl⟩)

theorem mem_set_of_ne (h : e ∈ m) (hne : e.1 ≠ k) :
    e ∈ m.set k v :=
  mem_insertNew.2 (.inl (mem_erase.2 ⟨h, hne⟩))

section Family
variable {A κ : Type*} [DecidableEq κ] {l : List A} {g : A → κ} {t : A → K} {v : A → V}
  {idx : κ → OrdMap K V}

theorem mem_inserts_of_mem {j : κ} {e : K × V} (h : e ∈ idx j) :
    e ∈ updates (l.map fun a => (g a, fun m => m.insertNew (t a) (v a))) idx j := by
  refine updates_induct (P := fun _ m => e ∈ m) h fun u hu _ m hm => ?_
  obtain ⟨a, -, rfl⟩ := mem_map.1 hu
  exact mem_insertNew.2 (.inl hm)

theorem exists_mem_inserts {a : A} (ha : a ∈ l) :
    ∃ x, (t a, x) ∈
      updates (l.map fun a => (g a, fun m => m.insertNew (t a) (v a))) idx (g a) := by
  refine updates_reach (P := fun m => ∃ x, (t a, x) ∈ m)
    (u := (g a, fun m => m.insertNew (t a) (v a))) (mem_map.2 ⟨a, ha, rfl⟩)
    (fun m => exists_mem_insertNew m _ _) ?_
  rintro u hu - m ⟨x, hx⟩
  obtain ⟨b, -, rfl⟩ := mem_map.1 hu
  exact ⟨x, mem_insertNew.2 (.inl hx)⟩

theorem mem_inserts_at {k : K} {j : κ} {x : V} :
    (k, x) ∈ updates (l.map fun a => (g a, fun m => m.insertNew k (v a))) idx j ↔
      (k, x) ∈ idx j ∨ (∀ y, (k, y) ∉ idx j) ∧
        (l.find? fun a => decide (g a = j)).map v = some x := by
  induction l generalizing idx with
  | nil => simp
  | cons a l ih =>
    rw [map_cons, updates_cons, ih]
    by_cases hj : g a = j
    · subst hj
      have htaken : ¬ ∀ y, (k, y) ∉ (idx (g a)).insertNew k (v a) := by
        obtain ⟨y, hy⟩ := exists_mem_insertNew (idx (g a)) k (v a)
        exact fun h => h y hy
      rw [Function.update_self, or_iff_left fun h => htaken h.1, mem_insertNew]
      simp [and_comm, eq_comm]
    · simp [Function.update_of_ne (Ne.symm hj), hj]

end Family

/-! ## Finding -/

def find (m : OrdMap K V) (k : K) : Option V := (m.entries.find? (·.1 = k)).map (·.2)

theorem mem_of_find (h : m.find k = some v) : (k, v) ∈ m := by
  obtain ⟨e, he, rfl⟩ := map_eq_some_iff.1 h
  have hk : e.1 = k := by simpa using find?_some he
  rw [← hk]
  exact mem_of_find?_eq_some he

theorem not_mem_of_find (h : m.find k = none) (v : V) : (k, v) ∉ m := by
  intro hmem
  rw [find, map_eq_none_iff, find?_eq_none] at h
  exact h (k, v) hmem (by simp)

theorem find_eq_some_iff : m.find k = some v ↔ (k, v) ∈ m := by
  refine ⟨mem_of_find, fun h => ?_⟩
  cases hfind : m.find k with
  | none => exact absurd h (not_mem_of_find hfind v)
  | some w => rw [eq_of_mem h (mem_of_find hfind)]

theorem find_set (m : OrdMap K V) (k j : K) (v : V) :
    (m.set k v).find j = if j = k then some v else m.find j := by
  split_ifs with heq
  · rw [heq]
    exact find_eq_some_iff.2 (mem_set_self m k v)
  · refine ext fun w => ?_
    rw [find_eq_some_iff, find_eq_some_iff]
    refine ⟨fun h => ?_, fun h => mem_set_of_ne h heq⟩
    rcases mem_set h with hm | hself
    · exact hm
    · exact absurd (congrArg Prod.fst hself) heq

/-- A loop from the greatest key down to `k` that takes the first entry with `p`. -/
def lastGE (m : OrdMap K V) (k : K) (p : K × V → Bool) : Option (K × V) :=
  (m.entries.reverse.takeWhile fun e => !decide (e.1 < k)).find? p

theorem lastGE_some {p : K × V → Bool} {e : K × V}
    (h : m.lastGE k p = some e) : e ∈ m ∧ k ≤ e.1 ∧ p e = true := by
  have hmem := mem_of_find?_eq_some h
  have hge := mem_takeWhile_imp hmem
  have hmem' := mem_reverse.1 ((List.takeWhile_prefix _).subset hmem)
  exact ⟨hmem', by simpa using hge, find?_some h⟩

/-- A loop from just before `lower_bound k` down to `begin`, which it does not enter. -/
def downFrom (m : OrdMap K V) (k : K) : List (K × V) := (m.entries.filter (·.1 < k)).tail.reverse

theorem mem_tail_of_sorted (hl : l.Pairwise fun a b => a.1 < b.1) {e : K × V} :
    e ∈ l.tail ↔ e ∈ l ∧ ∃ d ∈ l, d.1 < e.1 := by
  cases l with
  | nil => simp
  | cons c l =>
    rw [pairwise_cons] at hl
    constructor
    · intro he
      exact ⟨mem_cons_of_mem c he, c, mem_cons_self, hl.1 e he⟩
    · rintro ⟨he, d, hd, hlt⟩
      rcases mem_cons.1 he with rfl | he
      · rcases mem_cons.1 hd with rfl | hd
        · exact absurd hlt (lt_irrefl _)
        · exact absurd hlt (lt_asymm (hl.1 d hd))
      · exact he

/-- The loop leaves out the first entry. -/
theorem mem_downFrom :
    e ∈ m.downFrom k ↔ e ∈ m ∧ e.1 < k ∧ ∃ d ∈ m, d.1 < e.1 := by
  rw [downFrom, mem_reverse, mem_tail_of_sorted (m.sorted.filter _)]
  simp only [mem_filter, decide_eq_true_eq, mem_def]
  constructor
  · rintro ⟨⟨he, hk⟩, d, ⟨hd, -⟩, hlt⟩
    exact ⟨he, hk, d, hd, hlt⟩
  · rintro ⟨he, hk, d, hd, hlt⟩
    exact ⟨⟨he, hk⟩, d, ⟨hd, lt_trans hlt hk⟩, hlt⟩

theorem downFrom_sorted (m : OrdMap K V) (k : K) :
    (m.downFrom k).Pairwise fun a b => b.1 < a.1 := by
  rw [downFrom, pairwise_reverse]
  exact (m.sorted.filter _).sublist (tail_sublist _)

/-- A loop from `upper_bound k` to the end. -/
def upFrom (m : OrdMap K V) (k : K) : List (K × V) := m.entries.filter (k < ·.1)

theorem mem_upFrom : e ∈ m.upFrom k ↔ e ∈ m ∧ k < e.1 := by
  simp [upFrom, mem_def]

/-! ## Neighbours of a key -/

/-- The entry just before `lower_bound k`: the greatest key below `k`. -/
def latestLT (m : OrdMap K V) (k : K) : Option (K × V) :=
  (m.entries.filter (·.1 < k)).getLast?

/-- The entry just before `upper_bound k`: the greatest key at or below `k`. -/
def latestLE (m : OrdMap K V) (k : K) : Option (K × V) :=
  (m.entries.filter (·.1 ≤ k)).getLast?

/-- `upper_bound k`: the least key above `k`. -/
def firstGT (m : OrdMap K V) (k : K) : Option (K × V) := m.entries.find? (k < ·.1)

theorem le_getLast_of_sorted (hl : l.Pairwise fun a b => a.1 < b.1)
    {e d : K × V} (he : l.getLast? = some e) (hd : d ∈ l) : d.1 ≤ e.1 := by
  obtain ⟨ys, rfl⟩ := getLast?_eq_some_iff.1 he
  rcases mem_append.1 hd with hd | hd
  · exact le_of_lt ((pairwise_append.1 hl).2.2 d hd e (mem_singleton_self e))
  · rw [mem_singleton.1 hd]

theorem latestLT_some (h : m.latestLT k = some e) :
    e ∈ m ∧ e.1 < k ∧ ∀ d ∈ m, d.1 < k → d.1 ≤ e.1 := by
  have hmem : e ∈ m.entries.filter (·.1 < k) := mem_of_getLast? h
  simp only [mem_filter, decide_eq_true_eq] at hmem
  exact ⟨hmem.1, hmem.2, fun d hd hk =>
    le_getLast_of_sorted (m.sorted.filter _) h (by simpa using ⟨hd, hk⟩)⟩

theorem latestLT_none (h : m.latestLT k = none) :
    ∀ d ∈ m, ¬ d.1 < k := by
  intro d hd hk
  have : d ∈ m.entries.filter (·.1 < k) := by simpa using ⟨hd, hk⟩
  rw [getLast?_eq_none_iff.1 h] at this
  cases this

theorem latestLE_some (h : m.latestLE k = some e) :
    e ∈ m ∧ e.1 ≤ k := by
  have hmem : e ∈ m.entries.filter (·.1 ≤ k) := mem_of_getLast? h
  simpa [mem_def] using hmem

theorem exists_latestLE {d : K × V} (hd : d ∈ m) (hk : d.1 ≤ k) :
    ∃ e, m.latestLE k = some e ∧ d.1 ≤ e.1 := by
  have hmem : d ∈ m.entries.filter (·.1 ≤ k) := by simpa using ⟨hd, hk⟩
  cases h : m.latestLE k with
  | none =>
    rw [getLast?_eq_none_iff.1 h] at hmem
    cases hmem
  | some e => exact ⟨e, rfl, le_getLast_of_sorted (m.sorted.filter _) h hmem⟩

end OrdMap
