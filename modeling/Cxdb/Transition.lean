import Mathlib.Data.List.Induction

/-!
# Runs of Labelled Transition Systems

A system is a relation `step s e s'`: in state `s` the event `e` can lead to `s'`. A run
records its events in order, so that what has been promised along the way (an
acknowledgement, a returned id) can be read off the run and compared with the state it
has reached.

## Main results

* `Run.invariant`: what holds at the start and is preserved by every step holds along
  every run, histories included.
* `Run.mono`: a run of a system is a run of every larger one; `Guarded` restricts the
  steps to those that meet a condition on the state before and the event.
* `Run.project`: a simulation takes runs to runs.
* `run_of_execAll`, `exists_run_of_execAll`: an executable step function computes runs;
  `run_of_foldlM`, `exists_run_of_foldlM`: so does one that takes the event.
* `Run.deterministic`: the events of such a run determine where it leads.
* `Run.guarded_iff`: a property that a step keeps exactly when it meets a guard.
-/

namespace Transition

variable {S E : Type}

/-- `Run step s₀ es s`: the events `es`, in this order, lead from `s₀` to `s`. -/
inductive Run (step : S → E → S → Prop) (s₀ : S) : List E → S → Prop
  | start : Run step s₀ [] s₀
  | next {es : List E} {s s' : S} {e : E} :
      Run step s₀ es s → step s e s' → Run step s₀ (es ++ [e]) s'

/-- The steps whose state before and event meet `C`. -/
def Guarded (C : S → E → Prop) (step : S → E → S → Prop) : S → E → S → Prop :=
  fun s e s' => C s e ∧ step s e s'

/-- A step, if there is an event. -/
def Perhaps (step : S → E → S → Prop) : Option E → S → S → Prop
  | none => fun s s' => s' = s
  | some e => fun s s' => step s e s'

variable {step step' : S → E → S → Prop} {s₀ s : S} {es : List E}

/-- **Invariants.** What holds of the empty history and is preserved by every step
holds of every run. -/
theorem Run.invariant {I : List E → S → Prop} (h₀ : I [] s₀)
    (hstep : ∀ es s e s', I es s → step s e s' → I (es ++ [e]) s')
    (h : Run step s₀ es s) : I es s := by
  induction h with
  | start => exact h₀
  | next _ hs ih => exact hstep _ _ _ _ ih hs

/-- A step is a run. -/
theorem Run.single {s' : S} {e : E} (h : step s e s') : Run step s [e] s' :=
  Run.start.next h

/-- One run after another. -/
theorem Run.append {s' : S} {es' : List E} (h : Run step s₀ es s) (h' : Run step s es' s') :
    Run step s₀ (es ++ es') s' := by
  induction h' with
  | start => simpa using h
  | next _ hs ih => exact List.append_assoc es _ _ ▸ ih.next hs

/-- Runs of a smaller system are runs of a larger one. -/
theorem Run.mono (hmono : ∀ s e s', step s e s' → step' s e s')
    (h : Run step s₀ es s) : Run step' s₀ es s := by
  induction h with
  | start => exact Run.start
  | next _ hs ih => exact ih.next (hmono _ _ _ hs)

/-- Forgetting the guard. -/
theorem Run.of_guarded {C : S → E → Prop} (h : Run (Guarded C step) s₀ es s) :
    Run step s₀ es s :=
  h.mono fun _ _ _ hs => hs.2

/-- **Simulation.** When every step of a system is matched by a step of another one, or
by none at all, its runs are runs of the other system. -/
theorem Run.project {T F : Type} {stepT : T → F → T → Prop} {t₀ : T} {ev : E → Option F}
    {R : S → T → Prop} (h₀ : R s₀ t₀)
    (hsome : ∀ s e s' t f, R s t → step s e s' → ev e = some f →
      ∃ t', stepT t f t' ∧ R s' t')
    (hnone : ∀ s e s' t, R s t → step s e s' → ev e = none → R s' t)
    (h : Run step s₀ es s) : ∃ t, Run stepT t₀ (es.filterMap ev) t ∧ R s t := by
  induction h with
  | start => exact ⟨t₀, Run.start, h₀⟩
  | @next es s s' e _ hs ih =>
      obtain ⟨t, ht, hR⟩ := ih
      rw [List.filterMap_append]
      cases he : ev e with
      | none => exact ⟨t, by simpa [he] using ht, hnone s e s' t hR hs he⟩
      | some f =>
          obtain ⟨t', hstep, hR'⟩ := hsome s e s' t f hR hs he
          exact ⟨t', by simpa [he] using ht.next hstep, hR'⟩

/-! ### Computed runs -/

variable {I : Type}

/-- Feed inputs to a step function, as long as the condition `C` holds. -/
def execAll (C : S → E → Prop) [∀ s e, Decidable (C s e)] (exec : S → I → Option (E × S))
    (s₀ : S) (inputs : List I) : Option (List E × S) :=
  inputs.foldlM
    (fun r i =>
      match exec r.2 i with
      | none => none
      | some (e, s') => if C r.2 e then some (r.1 ++ [e], s') else none)
    ([], s₀)

/-- **A computed run is a run.** -/
theorem run_of_execAll {C : S → E → Prop} [∀ s e, Decidable (C s e)]
    {exec : S → I → Option (E × S)}
    (hexec : ∀ s i e s', exec s i = some (e, s') → step s e s') {inputs : List I}
    (h : execAll C exec s₀ inputs = some (es, s)) : Run (Guarded C step) s₀ es s := by
  induction inputs using List.reverseRecOn generalizing es s with
  | nil =>
      obtain ⟨rfl, rfl⟩ := Prod.mk.inj (Option.some.inj h)
      exact Run.start
  | append_singleton inputs i ih =>
      rw [execAll, List.foldlM_append] at h
      obtain ⟨r, hr, hlast⟩ := Option.bind_eq_some_iff.mp h
      simp only [List.foldlM_cons, List.foldlM_nil, bind_pure] at hlast
      split at hlast
      · exact absurd hlast (by simp)
      next e s' he =>
      split at hlast
      next hC =>
        obtain ⟨rfl, rfl⟩ := Prod.mk.inj (Option.some.inj hlast)
        exact (ih hr).next ⟨hC, hexec _ _ _ _ he⟩
      · exact absurd hlast (by simp)

/-- A property that is checked on a computed run holds of a run. -/
theorem exists_run_of_execAll (C : S → E → Prop) [∀ s e, Decidable (C s e)]
    {exec : S → I → Option (E × S)}
    (hexec : ∀ s i e s', exec s i = some (e, s') → step s e s') (s₀ : S) (inputs : List I)
    (P : List E → S → Prop) [∀ es s, Decidable (P es s)]
    (h : ((execAll C exec s₀ inputs).any fun r => decide (P r.1 r.2)) = true) :
    ∃ es s, execAll C exec s₀ inputs = some (es, s) ∧ Run (Guarded C step) s₀ es s ∧
      P es s := by
  cases hr : execAll C exec s₀ inputs with
  | none => simp [hr] at h
  | some r =>
      exact ⟨r.1, r.2, rfl, run_of_execAll hexec hr, by simpa [hr] using h⟩

/-- A step function that takes the event, as a system. -/
def Steps (exec : S → E → Option S) : S → E → S → Prop :=
  fun s e s' => exec s e = some s'

/-- **A computed run is a run**, of a step function that takes the event. -/
theorem run_of_foldlM {C : S → E → Prop} [∀ s e, Decidable (C s e)] {exec : S → E → Option S}
    (h : es.foldlM (fun s e => if C s e then exec s e else none) s₀ = some s) :
    Run (Guarded C (Steps exec)) s₀ es s := by
  induction es using List.reverseRecOn generalizing s with
  | nil =>
      obtain rfl := Option.some.inj h
      exact Run.start
  | append_singleton es e ih =>
      rw [List.foldlM_append] at h
      obtain ⟨r, hr, hlast⟩ := Option.bind_eq_some_iff.mp h
      simp only [List.foldlM_cons, List.foldlM_nil, bind_pure] at hlast
      split at hlast
      next hC => exact (ih hr).next ⟨hC, hlast⟩
      · cases hlast

/-- The last step of a run. -/
theorem run_append_singleton_iff {e : E} {s' : S} :
    Run step s₀ (es ++ [e]) s' ↔ ∃ s, Run step s₀ es s ∧ step s e s' := by
  constructor
  · intro h
    obtain ⟨fs, hfs⟩ : ∃ fs, fs = es ++ [e] := ⟨_, rfl⟩
    rw [← hfs] at h
    cases h with
    | start => simp at hfs
    | next h hs =>
        obtain ⟨rfl, hlast⟩ := List.append_inj' hfs rfl
        obtain rfl := (List.cons.inj hlast).1
        exact ⟨_, h, hs⟩
  · rintro ⟨s, h, hs⟩
    exact h.next hs

theorem run_nil_iff : Run step s₀ [] s ↔ s₀ = s := by
  constructor
  · intro h
    generalize hnil : ([] : List E) = fs at h
    cases h with
    | start => rfl
    | next => simp at hnil
  · rintro rfl
    exact .start

/-- The events of a run of a step function determine where it leads. -/
theorem Run.deterministic {exec : S → E → Option S} {s' : S} (h : Run (Steps exec) s₀ es s)
    (h' : Run (Steps exec) s₀ es s') : s = s' := by
  induction es using List.reverseRecOn generalizing s s' with
  | nil => exact (run_nil_iff.mp h).symm.trans (run_nil_iff.mp h')
  | append_singleton es e ih =>
      obtain ⟨t, ht, hs⟩ := run_append_singleton_iff.mp h
      obtain ⟨t', ht', hs'⟩ := run_append_singleton_iff.mp h'
      obtain rfl := ih ht ht'
      exact Option.some.inj (hs.symm.trans hs')

/-- **Exact guards.** When a step keeps `P` exactly if its state and event meet `C`, then `P`
holds after exactly the runs whose steps all meet `C`. -/
theorem Run.guarded_iff {exec : S → E → Option S} {C : S → E → Prop} {P : S → Prop}
    (h₀ : P s₀) (hstep : ∀ es s e s', Run (Steps exec) s₀ es s → exec s e = some s' →
      (P s' ↔ P s ∧ C s e)) (h : Run (Steps exec) s₀ es s) :
    P s ↔ Run (Guarded C (Steps exec)) s₀ es s := by
  induction es using List.reverseRecOn generalizing s with
  | nil =>
      obtain rfl := run_nil_iff.mp h
      exact iff_of_true h₀ .start
  | append_singleton es e ih =>
      obtain ⟨t, ht, hs⟩ := run_append_singleton_iff.mp h
      rw [hstep es t e s ht hs, ih ht, run_append_singleton_iff]
      constructor
      · exact fun ⟨hr, hC⟩ => ⟨t, hr, hC, hs⟩
      · rintro ⟨t', hr, hC, -⟩
        obtain rfl := ht.deterministic hr.of_guarded
        exact ⟨hr, hC⟩

/-- A property that is checked on a computed run holds of a run. -/
theorem exists_run_of_foldlM (C : S → E → Prop) [∀ s e, Decidable (C s e)]
    (exec : S → E → Option S) (s₀ : S) (es : List E) (P : S → Prop) [DecidablePred P]
    (h : ((es.foldlM (fun s e => if C s e then exec s e else none) s₀).any
      fun s => decide (P s)) = true) :
    ∃ s, Run (Guarded C (Steps exec)) s₀ es s ∧ P s := by
  cases hr : es.foldlM (fun s e => if C s e then exec s e else none) s₀ with
  | none => simp [hr] at h
  | some s => exact ⟨s, run_of_foldlM hr, by simpa [hr] using h⟩

end Transition
