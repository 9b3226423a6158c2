import Mathlib.Data.List.Induction

/-!
# Runs of a deterministic machine

A machine is a total step function on states; a run is the fold of the step over a list of events.

* `Machine.run_induct`: an invariant kept by every step holds after every run.
* `Machine.Along`: every step of a run meets a condition on the state it starts in;
  `Machine.run_along` is the invariant rule for such runs.
* `Machine.run_history`: the same for a property of the state together with the events so far.
* `Machine.Quiescent`: no event changes the state; `Machine.exists_quiescent` reaches such a state,
  if every change makes a measure smaller.
-/

universe u v w

structure Machine (σ : Type u) (ε : Type v) where
  step : σ → ε → σ

namespace Machine

open List

variable {σ : Type u} {ε : Type v} {α : Type w} (M : Machine σ ε)

def run (s : σ) (es : List ε) : σ := es.foldl M.step s

@[simp] theorem run_nil (s : σ) : M.run s [] = s := rfl

@[simp] theorem run_cons (s : σ) (e : ε) (es : List ε) :
    M.run s (e :: es) = M.run (M.step s e) es := rfl

theorem run_append (s : σ) (es fs : List ε) : M.run s (es ++ fs) = M.run (M.run s es) fs :=
  foldl_append

/-- Every step of the run of `es` from `s` starts in a state that meets `P` with its event. -/
def Along (P : σ → ε → Prop) : σ → List ε → Prop
  | _, [] => True
  | s, e :: es => P s e ∧ Along P (M.step s e) es

instance Along.decidable (P : σ → ε → Prop) [∀ s e, Decidable (P s e)] :
    ∀ s es, Decidable (M.Along P s es)
  | _, [] => .isTrue trivial
  | s, e :: es =>
    have := Along.decidable P (M.step s e) es
    inferInstanceAs (Decidable (P s e ∧ M.Along P (M.step s e) es))

variable {M}

variable {P : σ → ε → Prop} {es : List ε} {s : σ} {Q : σ → ε → Prop} {I : σ → Prop}

theorem Along.append {fs : List ε} :
    M.Along P s (es ++ fs) ↔ M.Along P s es ∧ M.Along P (M.run s es) fs := by
  induction es generalizing s with
  | nil => simp [Along]
  | cons e es ih => simp [Along, ih, and_assoc]

theorem Along.mono (h : M.Along P s es) (hPQ : ∀ s e, P s e → Q s e) :
    M.Along Q s es := by
  induction es generalizing s with
  | nil => trivial
  | cons e es ih => exact ⟨hPQ s e h.1, ih h.2⟩

theorem Along.and (h : M.Along P s es) (hQ : M.Along Q s es) :
    M.Along (fun s e => P s e ∧ Q s e) s es := by
  induction es generalizing s with
  | nil => trivial
  | cons e es ih => exact ⟨⟨h.1, hQ.1⟩, ih h.2 hQ.2⟩

theorem along_of_forall {Q : ε → Prop} (hQ : ∀ e ∈ es, Q e) :
    M.Along (fun _ e => Q e) s es := by
  induction es generalizing s with
  | nil => trivial
  | cons e es ih => exact ⟨hQ e mem_cons_self, ih fun e he => hQ e (mem_cons_of_mem _ he)⟩

theorem Along.and_forall {Q : ε → Prop} (h : M.Along P s es) (hQ : ∀ e ∈ es, Q e) :
    M.Along (fun s e => P s e ∧ Q e) s es :=
  h.and (along_of_forall hQ)

theorem run_along (hstep : ∀ s e, P s e → I s → I (M.step s e)) (hs : I s) (hes : M.Along P s es) :
    I (M.run s es) := by
  induction es generalizing s with
  | nil => exact hs
  | cons e es ih => exact ih (hstep s e hes.1 hs) hes.2

theorem run_filter {keep : ε → Bool} (hkeep : ∀ s e, P s e → keep e = true ∨ M.step s e = s)
    (hes : M.Along P s es) : M.run s es = M.run s (es.filter keep) := by
  induction es generalizing s with
  | nil => rfl
  | cons e es ih =>
    rw [run_cons, ih hes.2, filter_cons]
    split_ifs with he
    · rw [run_cons]
    · rw [(hkeep s e hes.1).resolve_left he]

theorem run_induct (hstep : ∀ s e, I s → I (M.step s e)) (hs : I s) (es : List ε) :
    I (M.run s es) := by
  induction es generalizing s with
  | nil => exact hs
  | cons e es ih => exact ih (hstep s e hs)

theorem run_history {I : List ε → σ → Prop} (hinit : I [] s)
    (hstep : ∀ es e, I es (M.run s es) → P (M.run s es) e → I (es ++ [e]) (M.step (M.run s es) e))
    (hes : M.Along P s es) : I es (M.run s es) := by
  induction es using reverseRecOn with
  | nil => exact hinit
  | append_singleton es e ih =>
    obtain ⟨h1, h2⟩ := Along.append.1 hes
    rw [run_append]
    exact hstep es e (ih h1) h2.1

variable (M)

def Quiescent (A : ε → Prop) (s : σ) : Prop := ∀ e, A e → M.step s e = s

variable {M}

theorem exists_quiescent {A : ε → Prop} {μ : σ → Nat}
    (hμ : ∀ s e, A e → M.step s e = s ∨ μ (M.step s e) < μ s) (s : σ) :
    ∃ es, (∀ e ∈ es, A e) ∧ M.Quiescent A (M.run s es) := by
  induction hn : μ s using Nat.strongRecOn generalizing s with
  | _ n ih =>
    by_cases hq : M.Quiescent A s
    · exact ⟨[], by simp, hq⟩
    · unfold Quiescent at hq
      push Not at hq
      obtain ⟨e, he, hne⟩ := hq
      have hlt : μ (M.step s e) < n := hn ▸ (hμ s e he).resolve_left hne
      obtain ⟨es, hes, hend⟩ := ih _ hlt (M.step s e) rfl
      exact ⟨e :: es, forall_mem_cons.2 ⟨he, hes⟩, hend⟩

end Machine
