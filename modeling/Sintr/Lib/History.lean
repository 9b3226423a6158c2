import Mathlib.Data.List.Induction

/-!
# Histories

A history is a list that grows at its end. `EachAfter P l` says of every element of `l` that it
meets `P` with the elements before it: that is how "only after" and "so far" are stated.
`flatMapAfter f l` is what every element with those before it gives.

* `EachAfter.snoc`: the step, when an element is added.
* `EachAfter.mono`: a weaker condition.
* `EachAfter.before`: what an element meets, if `P` is kept by longer histories.
* `flatMapAfter_snoc`: the step for `flatMapAfter`.
-/

universe u v

variable {α : Type u} {β : Type v} {P : List α → α → Prop} {l : List α} {a : α}

/-- Every element meets `P` with the elements before it. -/
def EachAfter (P : List α → α → Prop) (l : List α) : Prop :=
  ∀ before a after, l = before ++ a :: after → P before a

theorem eachAfter_nil : EachAfter P [] := by
  intro before a after h
  simp at h

theorem snoc_eq_append_cons {before after : List α} {x : α}
    (h : l ++ [a] = before ++ x :: after) :
    (l = before ∧ a = x) ∨ ∃ after', l = before ++ x :: after' := by
  rcases List.eq_nil_or_concat after with rfl | ⟨after', y, rfl⟩
  · obtain ⟨hl, ha⟩ := List.append_inj' h rfl
    exact .inl ⟨hl, List.singleton_inj.1 ha⟩
  · rw [List.concat_eq_append, ← List.cons_append, ← List.append_assoc] at h
    exact .inr ⟨after', (List.append_inj' h rfl).1⟩

theorem EachAfter.snoc (h : EachAfter P l) (ha : P l a) : EachAfter P (l ++ [a]) := by
  intro before x after heq
  rcases snoc_eq_append_cons heq with ⟨rfl, rfl⟩ | ⟨after', hl⟩
  · exact ha
  · exact h before x after' hl

theorem EachAfter.mono {Q : List α → α → Prop} (h : EachAfter P l)
    (hPQ : ∀ before a, P before a → Q before a) : EachAfter Q l :=
  fun before a after heq => hPQ before a (h before a after heq)

theorem EachAfter.before (h : EachAfter P l)
    (hmono : ∀ before after, P before a → P (before ++ after) a) (ha : a ∈ l) : P l a := by
  obtain ⟨before, after, rfl⟩ := List.append_of_mem ha
  exact hmono before (a :: after) (h before a after rfl)

/-! ## Lists made along a history -/

/-- The lists that `f` gives for the elements of `l`, in order, the first of them after `before`. -/
def flatMapFrom (f : List α → α → List β) : List α → List α → List β
  | _, [] => []
  | before, a :: l => f before a ++ flatMapFrom f (before ++ [a]) l

/-- The lists that `f` gives for each element with the elements before it, in order. -/
def flatMapAfter (f : List α → α → List β) (l : List α) : List β := flatMapFrom f [] l

variable {f : List α → α → List β}

theorem flatMapFrom_snoc (before : List α) :
    flatMapFrom f before (l ++ [a]) = flatMapFrom f before l ++ f (before ++ l) a := by
  induction l generalizing before with
  | nil => simp [flatMapFrom]
  | cons b l ih => simp [flatMapFrom, ih]

@[simp] theorem flatMapAfter_nil : flatMapAfter f [] = [] := rfl

theorem flatMapAfter_snoc : flatMapAfter f (l ++ [a]) = flatMapAfter f l ++ f l a :=
  flatMapFrom_snoc []
