import Mathlib.Data.List.Basic

/-!
# Inserting Reads Into a Run

A deterministic system runs operations, which have results, and reads, which may change its
state. Some reads are inserted: the same run goes without them. A simulation between the two
says of every operation when its result is the same.

## Main results

* `Simulation.results_eq_iff`: the results of the two runs are the same if and only if every
  operation meets its guard.
-/

namespace InsertedReads

variable {σ ι κ ρ : Type}

/-- The steps of a run. -/
inductive Step (ι κ : Type) where
  | op (i : ι)
  | read (k : κ) (inserted : Bool)

/-- A system: what its operations return, and what they and its reads do to the state. -/
structure System (σ ι κ ρ : Type) where
  op : ι → σ → ρ × σ
  read : κ → σ → σ

namespace System

variable (sys : System σ ι κ ρ)

/-- The state behind a step, with the inserted reads or without them. -/
def next (inserting : Bool) (s : σ) : Step ι κ → σ
  | .op i => (sys.op i s).2
  | .read k inserted => if inserted && !inserting then s else sys.read k s

/-- The state behind a run. -/
def after (inserting : Bool) (steps : List (Step ι κ)) (s : σ) : σ :=
  steps.foldl (sys.next inserting) s

/-- The results of a run. -/
def results (inserting : Bool) : List (Step ι κ) → σ → List ρ
  | [], _ => []
  | .op i :: steps, s => (sys.op i s).1 :: results inserting steps (sys.op i s).2
  | .read k inserted :: steps, s =>
      results inserting steps (sys.next inserting s (.read k inserted))

/-- A relation between the run without the inserted reads and the one with them; the guard of
an operation says when it is kept. -/
structure Simulation (R : σ → σ → Prop) (Guard : ι → σ → σ → Prop) : Prop where
  op : ∀ {s t}, R s t → ∀ i, Guard i s t →
    (sys.op i t).1 = (sys.op i s).1 ∧ R (sys.op i s).2 (sys.op i t).2
  differs : ∀ {s t}, R s t → ∀ i, ¬Guard i s t → (sys.op i t).1 ≠ (sys.op i s).1
  read : ∀ {s t}, R s t → ∀ k, R (sys.read k s) (sys.read k t)
  inserted : ∀ {s t}, R s t → ∀ k, R s (sys.read k t)

/-- All operations of a run meet their guards. -/
def Guarded (Guard : ι → σ → σ → Prop) (steps : List (Step ι κ)) (s t : σ) : Prop :=
  ∀ before i rest, steps = before ++ .op i :: rest →
    Guard i (sys.after false before s) (sys.after true before t)

variable {sys} {R : σ → σ → Prop} {Guard : ι → σ → σ → Prop} {s t : σ}

theorem guarded_nil : sys.Guarded Guard ([] : List (Step ι κ)) s t := by
  intro before i rest h
  cases before <;> cases h

theorem guarded_op {i : ι} {steps : List (Step ι κ)} :
    sys.Guarded Guard (.op i :: steps) s t ↔
      Guard i s t ∧ sys.Guarded Guard steps (sys.op i s).2 (sys.op i t).2 := by
  constructor
  · intro h
    refine ⟨h [] i steps rfl, fun before i' rest hsteps => ?_⟩
    exact h (.op i :: before) i' rest (congrArg _ hsteps)
  · rintro ⟨hhead, htail⟩ before i' rest hsteps
    cases before with
    | nil =>
        obtain ⟨hi, rfl⟩ := List.cons.inj hsteps
        obtain rfl := Step.op.inj hi
        exact hhead
    | cons step before =>
        obtain ⟨rfl, htail'⟩ := List.cons.inj hsteps
        exact htail before i' rest htail'

theorem guarded_read {k : κ} {inserted : Bool} {steps : List (Step ι κ)} :
    sys.Guarded Guard (.read k inserted :: steps) s t ↔
      sys.Guarded Guard steps (sys.next false s (.read k inserted))
        (sys.next true t (.read k inserted)) := by
  constructor
  · intro h before i rest hsteps
    exact h (.read k inserted :: before) i rest (congrArg _ hsteps)
  · intro h before i rest hsteps
    cases before with
    | nil => cases (List.cons.inj hsteps).1
    | cons step before =>
        obtain ⟨rfl, htail⟩ := List.cons.inj hsteps
        exact h before i rest htail

/-- A read keeps the relation, inserted or not. -/
theorem Simulation.next_read (sim : sys.Simulation R Guard) (h : R s t) (k : κ)
    (inserted : Bool) :
    R (sys.next false s (.read k inserted)) (sys.next true t (.read k inserted)) := by
  cases inserted with
  | true => exact sim.inserted h k
  | false => exact sim.read h k

/-- **The results are the same** if and only if every operation meets its guard. -/
theorem Simulation.results_eq_iff (sim : sys.Simulation R Guard) (h : R s t)
    (steps : List (Step ι κ)) :
    sys.results true steps t = sys.results false steps s ↔ sys.Guarded Guard steps s t := by
  induction steps generalizing s t with
  | nil => exact ⟨fun _ => guarded_nil, fun _ => rfl⟩
  | cons step steps ih =>
      cases step with
      | op i =>
          rw [guarded_op, results, results, List.cons_eq_cons]
          by_cases hguard : Guard i s t
          · obtain ⟨hresult, hnext⟩ := sim.op h i hguard
            simp only [hresult, hguard, true_and, ih hnext]
          · simp only [sim.differs h i hguard, hguard, false_and]
      | read k inserted =>
          rw [guarded_read, results, results, ih (sim.next_read h k inserted)]

end System

end InsertedReads
