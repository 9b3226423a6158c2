import Sintr.Fallback.Acts

/-!
# Callbacks that wait

`step_waiting` is the rule for invariants of the form "every waiting callback satisfies `P`": the
callbacks that an event leaves behind have to satisfy it.
-/

namespace Sintr.Fallback

structure Waiting (env : Env) (P : Task → Prop) (s : State) : Prop where
  ongoing : ∀ d txn, s.ongoing d = some txn → env.digest txn = d
  tasks : ∀ t ∈ s.tasks, P t

structure Idle (env : Env) (s : State) : Prop where
  tasks : s.tasks = []
  ongoing : ∀ d txn, s.ongoing d = some txn → env.digest txn = d

variable {env : Env}

theorem Idle.waiting {s : State} (h : Idle env s) (P : Task → Prop) :
    Waiting env P s :=
  ⟨h.ongoing, by simp [h.tasks]⟩

variable {P : Task → Prop}

/-- An action leaves the tables of the other components alone and at most pushes a callback. -/
theorem Does.frame {s₀ s s' : State} {e : Event} (h : Does env s₀ e s s') :
    s'.ongoing = s.ongoing ∧ s'.ended = s.ended ∧
      (s'.tasks = s.tasks ∨ ∃ t, Pushes env s₀ e t ∧ s' = s.push t) := by
  cases h with
  | push t h => exact ⟨rfl, rfl, .inr ⟨t, h, rfl⟩⟩
  | adoptDecision d v c =>
    obtain ⟨p2, log, heq⟩ := s.adoptDecision_eq d v c
    rw [heq]
    exact ⟨rfl, rfl, .inl rfl⟩
  | moveView d v self =>
    obtain ⟨p2, orgs, counts, log, heq⟩ := s.processMoveView_eq d env v self
    rw [heq]
    exact ⟨rfl, rfl, .inl rfl⟩
  | preProcessElectFB d v c voter s' h =>
    rw [(s.preProcessElectFB_some d h).2]
    exact ⟨rfl, rfl, .inl rfl⟩
  | processElectFB d v c sig =>
    obtain ⟨p2, quorums, views, log, heq⟩ := s.processElectFB_eq d env v c sig
    rw [heq]
    exact ⟨rfl, rfl, .inl rfl⟩
  | _ => exact ⟨rfl, rfl, .inl rfl⟩

theorem Waiting.acts {s₀ s s' : State} {e : Event} (h : Waiting env P s)
    (hP : ∀ t, Pushes env s₀ e t → P t) (ha : Acts env s₀ e s s') : Waiting env P s' := by
  induction ha with
  | refl => exact h
  | tail _ hdoes ih =>
    obtain ⟨hongoing, -, htasks | ⟨t, ht, rfl⟩⟩ := hdoes.frame
    · exact ⟨hongoing ▸ ih.ongoing, htasks ▸ ih.tasks⟩
    · refine ⟨ih.ongoing, fun t' ht' => ?_⟩
      obtain hold | hnew := List.mem_append.1 ht'
      · exact ih.tasks t' hold
      · exact List.mem_singleton.1 hnew ▸ hP t ht

theorem Waiting.outside {s : State} (h : Waiting env P s) (o : Outside) :
    Waiting env P (s.outside env o) := by
  cases o with
  | addOngoing txn =>
    refine ⟨fun d txn' hd => ?_, h.tasks⟩
    by_cases heq : d = env.digest txn
    · subst heq
      simp only [State.outside, Function.update_self, Option.some.injEq] at hd
      rw [← hd]
    · simp only [State.outside, Function.update_of_ne heq] at hd
      exact h.ongoing d txn' hd
  | removeOngoing d₀ | clean d₀ =>
    refine ⟨fun d txn hd => ?_, h.tasks⟩
    by_cases heq : d = d₀
    · simp [State.outside, State.clean, heq] at hd
    · simp only [State.outside, State.clean, Function.update_of_ne heq] at hd
      exact h.ongoing d txn hd
  | _ => exact ⟨h.ongoing, h.tasks⟩

theorem step_waiting {s : State} {e : Event} (hP : ∀ t, Pushes env s e t → P t)
    (h : Waiting env P s) : Waiting env P (step env s e) := by
  obtain ⟨o, rfl, -, heq⟩ | ⟨s', hs', hacts⟩ := step_acts env s e
  · exact heq ▸ h.outside o
  · obtain rfl | ⟨k, schedule, stale, t, -, -, rfl⟩ := hs'
    · exact h.acts hP hacts
    · have herase : Waiting env P { s with tasks := s.tasks.eraseIdx k } :=
        ⟨h.ongoing, fun t' ht' => h.tasks t' (List.mem_of_mem_eraseIdx ht')⟩
      exact herase.acts hP hacts

/-! ## Ended transactions -/

theorem Acts.ended {s₀ s s' : State} {e : Event} (h : Acts env s₀ e s s') : s'.ended = s.ended := by
  induction h with
  | refl => rfl
  | tail _ hdoes ih => exact hdoes.frame.2.1.trans ih

/-- Only another component ends a transaction. -/
theorem step_ended (env : Env) (s : State) (e : Event) :
    (∃ o, e = .outside o ∧ step env s e = s.outside env o) ∨ (step env s e).ended = s.ended := by
  obtain ⟨o, rfl, -, heq⟩ | ⟨s', hs', hacts⟩ := step_acts env s e
  · exact .inl ⟨o, rfl, heq⟩
  · obtain rfl | ⟨k, schedule, stale, t, -, -, rfl⟩ := hs' <;> exact .inr hacts.ended

theorem ended_step {s : State} {e : Event} {d : Digest} {c : CommitDecision}
    (h : s.ended d c = true) : (step env s e).ended d c = true := by
  obtain ⟨o, rfl, heq⟩ | heq := step_ended env s e
  · rw [heq]
    cases o with
    | commit d' | abort d' =>
      cases c <;> simp_all [State.outside, State.ended, Function.update_apply]
    | _ => exact h
  · rwa [heq]

theorem run_ended {es : List Event}
    (hes : ∀ e ∈ es, ∀ d, e ≠ .outside (.commit d) ∧ e ≠ .outside (.abort d)) (s : State) :
    ((fallbackMachine env).run s es).ended = s.ended := by
  refine Machine.run_along (M := fallbackMachine env) (I := fun t => t.ended = s.ended)
    (fun t e he h => ?_) rfl (Machine.along_of_forall hes)
  obtain ⟨o, rfl, heq⟩ | heq := step_ended env t e
  · cases o with
    | commit d => exact absurd rfl (he d).1
    | abort d => exact absurd rfl (he d).2
    | _ => exact (congrArg State.ended heq).trans h
  · exact heq.trans h

/-- What is ended on the way is ended at last. -/
theorem along_ended (s : State) (es : List Event) :
    (fallbackMachine env).Along (fun t _ => ∀ d c, t.ended d c = true →
      ((fallbackMachine env).run s es).ended d c = true) s es := by
  induction es generalizing s with
  | nil => trivial
  | cons e es ih =>
    refine ⟨fun d c h => ?_, ih _⟩
    exact Machine.run_induct (M := fallbackMachine env) (I := fun t => t.ended d c = true)
      (fun _ _ => ended_step) h (e :: es)

end Sintr.Fallback
