import Mathlib.Data.List.Basic

/-!
# Keys of rows and tables

The store knows a row by a text: the number of its table, then each primary key value behind a
delimiter. The number alone is the key of the table's version.

* `decodeTableRow_key`: reading such a text back.
* `rowKey_iff`: it gives the row, and no other row or table has its key, exactly if there is a
  primary key value. A row of a table without primary key gets the key of the table itself, and
  `decodeTableRow` stops at its assertion.
-/

namespace Sintr.Sql

open List

/-- The characters of a `std::string`. -/
abbrev Text := List Char

/-! ## Encoding -/

def uniqueDelimiter : Char := '#'

def numeral (n : Nat) : Text := Nat.toDigits 10 n

/-- `name_to_numerics` and `numerics_to_name`: the tables in the order of their numbers. -/
abbrev TableNames := List Text

def encodeTable (names : TableNames) (table : Text) : Text × TableNames :=
  match names.idxOf? table with
  | some numeric => (numeral numeric, names)
  | none => (numeral names.length, names ++ [table])

/-- The result is `none` on a Panic. -/
def decodeTable (names : TableNames) (numeric : Text) : Option Text :=
  ((List.range names.length).find? fun i => numeral i = numeric).bind (names[·]?)

/-- The loop of the overloads of `EncodeTableRow`. -/
def appendValues (encoding : Text) (values : List Text) : Text :=
  values.foldl (fun encoding value => encoding ++ uniqueDelimiter :: value) encoding

/-- The overloads for strings and for pointers to them. -/
def encodeTableRow (names : TableNames) (table : Text) (values : List Text) : Text × TableNames :=
  (appendValues (encodeTable names table).1 values, (encodeTable names table).2)

/-- The overload for string views appends in two steps. -/
def encodeTableRowViews (names : TableNames) (table : Text) (values : List Text) :
    Text × TableNames :=
  (values.foldl (fun encoding value => encoding ++ [uniqueDelimiter] ++ value)
    (encodeTable names table).1, (encodeTable names table).2)

/-- `substr(1, length - 2)` of a value with quotes; it throws on the empty text. -/
def removeQuotes (value : Text) (quoted : Bool) : Option Text :=
  if quoted = false then some value
  else if value = [] then none
  else some ((value.drop 1).take (value.length - 2))

/-- The overload for values some of which come with quotes. -/
def encodeTableRowQuoted (names : TableNames) (table : Text) (values : List (Text × Bool)) :
    Option (Text × TableNames) :=
  (values.mapM fun x => removeQuotes x.1 x.2).map (encodeTableRow names table)

/-! ## Decoding -/

/-- `find_first_of`: where the first delimiter is. -/
def findDelimiter (s : Text) : Option Nat := s.findIdx? (· = uniqueDelimiter)

/-- The loop of `DecodeTableRow` behind a delimiter; every round finds another one. -/
def splitValues : Nat → Text → List Text
  | 0, rest => [rest]
  | n + 1, rest =>
    match findDelimiter rest with
    | none => [rest]
    | some next => rest.take next :: splitValues n (rest.drop (next + 1))

/-- The result is `none` if the assertion fails or on a Panic. -/
def decodeTableRow (names : TableNames) (key : Text) : Option (Text × List Text) :=
  match findDelimiter key with
  | none => none
  | some pos =>
    (decodeTable names (key.take pos)).map fun table =>
      (table, splitValues key.length (key.drop (pos + 1)))

/-! ## Round trip -/

variable {names : TableNames} {table v : Text} {vs : List Text} {m n : Nat}

theorem numeral_injective (h : numeral m = numeral n) : m = n := by
  have hnum := congrArg (fun ds => Nat.ofDigitChars 10 ds 0) h
  simpa [numeral] using hnum

theorem delimiter_notMem_numeral : uniqueDelimiter ∉ numeral n := by
  intro h
  have hdigit := Nat.isDigit_of_mem_toDigits (by decide) (by decide) h
  exact absurd hdigit (by decide)

theorem appendValues_eq (encoding : Text) (vs : List Text) :
    appendValues encoding vs = encoding ++ vs.flatMap (uniqueDelimiter :: ·) := by
  induction vs generalizing encoding with
  | nil => simp [appendValues]
  | cons v vs ih =>
    rw [appendValues, foldl_cons, ← appendValues, ih]
    simp

theorem find_none (hv : uniqueDelimiter ∉ v) : findDelimiter v = none := by
  rw [findDelimiter, findIdx?_eq_none_iff]
  intro c hc
  have hne : c ≠ uniqueDelimiter := fun heq => hv (heq ▸ hc)
  simpa using hne

theorem find_delimiter (hv : uniqueDelimiter ∉ v) (s : Text) :
    findDelimiter (v ++ uniqueDelimiter :: s) = some v.length := by
  have hnone := find_none hv
  unfold findDelimiter at hnone ⊢
  rw [findIdx?_append, hnone]
  simp [findIdx?_cons]

theorem splitValues_append (hn : (vs.flatMap (uniqueDelimiter :: ·)).length ≤ n)
    (hv : uniqueDelimiter ∉ v) (hvs : ∀ u ∈ vs, uniqueDelimiter ∉ u) :
    splitValues n (v ++ vs.flatMap (uniqueDelimiter :: ·)) = v :: vs := by
  induction vs generalizing n v with
  | nil => cases n <;> simp [splitValues, find_none hv]
  | cons u vs ih =>
    simp only [flatMap_cons, length_append, length_cons] at hn
    obtain ⟨n, rfl⟩ : ∃ k, n = k + 1 := ⟨n - 1, by omega⟩
    rw [forall_mem_cons] at hvs
    rw [flatMap_cons, cons_append, splitValues, find_delimiter hv]
    simp only [take_left, drop_append, Nat.add_sub_cancel_left, drop_eq_nil_of_le (Nat.le_succ _),
      nil_append, drop_one, tail_cons]
    rw [ih (by omega) hvs.1 hvs.2]

theorem decodeTableRow_key {numeric : Text} (hn : uniqueDelimiter ∉ numeric)
    (hv : ∀ u ∈ v :: vs, uniqueDelimiter ∉ u) :
    decodeTableRow names (appendValues numeric (v :: vs)) =
      (decodeTable names numeric).map fun table => (table, v :: vs) := by
  rw [forall_mem_cons] at hv
  rw [appendValues_eq, flatMap_cons, cons_append, decodeTableRow, find_delimiter hn]
  simp only [take_left, drop_append, Nat.add_sub_cancel_left, drop_eq_nil_of_le (Nat.le_succ _),
      nil_append, drop_one, tail_cons]
  rw [splitValues_append (by simp; omega) hv.1 hv.2]

theorem encodeTable_mem (h : table ∈ names) :
    ∃ n, encodeTable names table = (numeral n, names) ∧
      decodeTable names (numeral n) = some table := by
  obtain ⟨n, hn⟩ := Option.isSome_iff_exists.1 (isSome_idxOf?.2 h)
  refine ⟨n, by simp [encodeTable, hn], ?_⟩
  rw [idxOf?, findIdx?_eq_some_iff_getElem] at hn
  obtain ⟨hlt, heq, -⟩ := hn
  have hfind : ((List.range names.length).find? fun i => numeral i = numeral n) = some n := by
    rw [find?_range_eq_some]
    refine ⟨by simp, by simpa, fun j hj => ?_⟩
    have hne : numeral j ≠ numeral n := fun h => absurd (numeral_injective h) (by omega)
    simpa using hne
  rw [decodeTable, hfind, Option.bind_some, List.getElem?_eq_getElem hlt, eq_of_beq heq]

def addQuotes (q : Char) (value : Text) (quoted : Bool) : Text :=
  if quoted then q :: (value ++ [q]) else value

theorem removeQuotes_addQuotes (q : Char) (b : Bool) :
    removeQuotes (addQuotes q v b) b = some v := by
  cases b <;> simp [removeQuotes, addQuotes]

structure RowKey (names : TableNames) (table : Text) (vs : List Text) : Prop where
  decodes : decodeTableRow names (encodeTableRow names table vs).1 = some (table, vs)
  views : encodeTableRowViews names table vs = encodeTableRow names table vs
  quoted : ∀ (q : Char) (xs : List (Text × Bool)), xs.map (·.1) = vs →
    encodeTableRowQuoted names table (xs.map fun x => (addQuotes q x.1 x.2, x.2)) =
      some (encodeTableRow names table vs)
  injective : ∀ table' ∈ names, ∀ vs' : List Text, (∀ v ∈ vs', uniqueDelimiter ∉ v) →
    (encodeTableRow names table' vs').1 = (encodeTableRow names table vs).1 →
      table' = table ∧ vs' = vs
  notTable : ∀ table' ∈ names, (encodeTableRow names table vs).1 ≠ (encodeTable names table').1

theorem encodeTableRowQuoted_eq (q : Char) (xs : List (Text × Bool)) :
    encodeTableRowQuoted names table (xs.map fun x => (addQuotes q x.1 x.2, x.2)) =
      some (encodeTableRow names table (xs.map (·.1))) := by
  have h : (xs.map fun x => (addQuotes q x.1 x.2, x.2)).mapM (fun x => removeQuotes x.1 x.2) =
      some (xs.map (·.1)) := by
    induction xs with
    | nil => rfl
    | cons x xs ih => simp [ih, removeQuotes_addQuotes]
  rw [encodeTableRowQuoted, h, Option.map_some]

theorem decodeTableRow_encode (h : table ∈ names) (hvs : ∀ v ∈ vs, uniqueDelimiter ∉ v) :
    decodeTableRow names (encodeTableRow names table vs).1 =
      if vs = [] then none else some (table, vs) := by
  obtain ⟨n, hn, hd⟩ := encodeTable_mem h
  rw [encodeTableRow, hn]
  cases vs with
  | nil => simp [appendValues, decodeTableRow, find_none delimiter_notMem_numeral]
  | cons v vs =>
    rw [decodeTableRow_key delimiter_notMem_numeral hvs, hd]
    simp

/-- **A row's key is faithful exactly if the row has a primary key value.** -/
theorem rowKey_iff (h : table ∈ names) (hvs : ∀ v ∈ vs, uniqueDelimiter ∉ v) :
    RowKey names table vs ↔ vs ≠ [] := by
  constructor
  · rintro hkey rfl
    exact hkey.notTable table h rfl
  · intro hne
    have hdec := decodeTableRow_encode h hvs
    rw [if_neg hne] at hdec
    refine ⟨hdec, by simp [encodeTableRowViews, encodeTableRow, appendValues], fun q xs hxs => ?_,
      fun table' h' vs' hvs' heq => ?_, fun table' h' heq => ?_⟩
    · rw [encodeTableRowQuoted_eq, hxs]
    · have hdec' := decodeTableRow_encode h' hvs'
      rw [heq, hdec] at hdec'
      split_ifs at hdec' with hnil
      simpa [eq_comm] using hdec'
    · have hdec' := @decodeTableRow_encode names table' [] h' (by simp)
      rw [if_pos rfl, encodeTableRow, appendValues, foldl_nil, ← heq, hdec] at hdec'
      cases hdec'

theorem rowKey_iff_one : RowKey [['h']] ['h'] [['7'], []] ↔ [['7'], ([] : Text)] ≠ [] :=
  rowKey_iff (by decide) (by decide)

theorem row_without_key :
    (encodeTableRow [['h']] ['h'] []).1 = (encodeTable [['h']] ['h']).1 ∧
      decodeTableRow [['h']] (encodeTableRow [['h']] ['h'] []).1 = none := by
  decide

end Sintr.Sql
