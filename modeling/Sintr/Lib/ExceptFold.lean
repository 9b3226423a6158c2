import Mathlib.Data.List.Basic

/-!
# Loops that may stop

A loop with an exit is a `foldlM` in `Except`: each round computes the next accumulator or ends the
loop with an error.

* `Except.bind_eq_ok`, `Except.bind_eq_error`: the outcomes of a sequence of two computations.
* `foldlM_ok`: a loop that was not stopped passed every round.
* `foldlM_error`: a loop that was stopped was stopped by one of its rounds.
* `foldlM_induct`: what every round keeps holds at the end.
-/

universe u v w

variable {ε : Type u} {α : Type v} {β : Type v} {A : Type w} {x : Except ε α}

theorem Except.bind_eq_ok {f : α → Except ε β} {b : β} :
    (x >>= f) = .ok b ↔ ∃ a, x = .ok a ∧ f a = .ok b := by
  cases x with
  | error e =>
    constructor
    · intro h
      cases h
    · rintro ⟨_, h, _⟩
      cases h
  | ok a =>
    constructor
    · intro h
      exact ⟨a, rfl, h⟩
    · rintro ⟨_, h, hf⟩
      cases h
      exact hf

theorem Except.bind_eq_error {f : α → Except ε β} {e : ε} :
    (x >>= f) = .error e ↔ x = .error e ∨ ∃ a, x = .ok a ∧ f a = .error e := by
  cases x with
  | error e' =>
    refine ⟨fun h => .inl ?_, fun h => ?_⟩
    · cases h
      rfl
    · rcases h with h | ⟨_, h, _⟩
      · cases h
        rfl
      · cases h
  | ok a =>
    refine ⟨fun h => .inr ⟨a, rfl, h⟩, fun h => ?_⟩
    rcases h with h | ⟨_, h, hf⟩
    · cases h
    · cases h
      exact hf

variable {f : α → A → Except ε α} {l : List A} {a b : α}

theorem foldlM_induct {P : α → Prop} (h : l.foldlM f a = .ok b) (ha : P a)
    (hstep : ∀ x ∈ l, ∀ c c', f c x = .ok c' → P c → P c') : P b := by
  induction l generalizing a with
  | nil =>
    cases h
    exact ha
  | cons x l ih =>
    rw [List.foldlM_cons, Except.bind_eq_ok] at h
    obtain ⟨c, hc, h⟩ := h
    exact ih h (hstep x List.mem_cons_self a c hc ha)
      fun y hy => hstep y (List.mem_cons_of_mem x hy)

theorem foldlM_ok (h : l.foldlM f a = .ok b) : ∀ x ∈ l, ∃ c c', f c x = .ok c' := by
  induction l generalizing a with
  | nil => exact fun x hx => nomatch hx
  | cons x l ih =>
    rw [List.foldlM_cons, Except.bind_eq_ok] at h
    obtain ⟨c, hc, h⟩ := h
    intro y hy
    rcases List.mem_cons.1 hy with rfl | hy
    · exact ⟨a, c, hc⟩
    · exact ih h y hy

theorem foldlM_error {e : ε} (h : l.foldlM f a = .error e) : ∃ x ∈ l, ∃ c, f c x = .error e := by
  induction l generalizing a with
  | nil => cases h
  | cons x l ih =>
    rw [List.foldlM_cons, Except.bind_eq_error] at h
    rcases h with h | ⟨c, -, h⟩
    · exact ⟨x, List.mem_cons_self, a, h⟩
    · obtain ⟨y, hy, hc⟩ := ih h
      exact ⟨y, List.mem_cons_of_mem x hy, hc⟩
