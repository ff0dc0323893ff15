import Cxdb.Transition

/-!
# Fair Behaviours

A behaviour is an infinite run: at every moment an event happens, or nothing does. It is
weakly fair to a class of events if one of them happens again and again, or is again and
again not enabled. What must happen in a fair behaviour is shown with a rank that the
events of the class lower and that no other event raises.

## Main results

* `Behaviour.invariant`: an invariant of the steps that a behaviour takes holds at every moment.
* `Behaviour.eventually_of_rank`: what keeps a class of events enabled, while each of them
  lowers a rank, comes to an end.
-/

namespace Transition

variable {S E : Type}

/-- An infinite run; at a moment without an event the state stays. -/
structure Behaviour (step : S → E → S → Prop) (s₀ : S) where
  state : ℕ → S
  event : ℕ → Option E
  start : state 0 = s₀
  next : ∀ n, Perhaps step (event n) (state n) (state (n + 1))

variable {step : S → E → S → Prop} {s₀ : S}

/-- An event of the class can happen. -/
def Enabled (step : S → E → S → Prop) (A : E → Prop) (s : S) : Prop :=
  ∃ e s', A e ∧ step s e s'

/-- The class is not enabled forever without one of its events. -/
def Behaviour.WeaklyFair (b : Behaviour step s₀) (A : E → Prop) : Prop :=
  ∀ n, ∃ m, n ≤ m ∧ ((∃ e, b.event m = some e ∧ A e) ∨ ¬Enabled step A (b.state m))

/-- Every step of the behaviour meets `C`. -/
def Behaviour.Meets (b : Behaviour step s₀) (C : S → E → Prop) : Prop :=
  ∀ n e, b.event n = some e → C (b.state n) e

/-- A moment is a step of the system, or nothing happens. -/
theorem Behaviour.step_or_stay (b : Behaviour step s₀) (n : ℕ) :
    (∃ e, b.event n = some e ∧ step (b.state n) e (b.state (n + 1))) ∨
      b.event n = none ∧ b.state (n + 1) = b.state n := by
  have hnext := b.next n
  cases he : b.event n with
  | none =>
      rw [he] at hnext
      exact Or.inr ⟨rfl, hnext⟩
  | some e =>
      rw [he] at hnext
      exact Or.inl ⟨e, rfl, hnext⟩

/-- **Invariants of a behaviour.** -/
theorem Behaviour.invariant (b : Behaviour step s₀) {I : S → Prop} (h₀ : I s₀)
    (hstep : ∀ n e, b.event n = some e → step (b.state n) e (b.state (n + 1)) →
      I (b.state n) → I (b.state (n + 1))) (n : ℕ) : I (b.state n) := by
  induction n with
  | zero => exact b.start.symm ▸ h₀
  | succ n ih =>
      rcases b.step_or_stay n with ⟨e, he, hs⟩ | ⟨-, hstay⟩
      · exact hstep n e he hs ih
      · exact hstay.symm ▸ ih

/-- What a step keeps is kept from then on. -/
theorem Behaviour.persists (b : Behaviour step s₀) {P : S → Prop}
    (hstep : ∀ s e s', step s e s' → P s → P s') {n m : ℕ} (hnm : n ≤ m)
    (h : P (b.state n)) : P (b.state m) := by
  induction hnm with
  | refl => exact h
  | @step m _ ih =>
      rcases b.step_or_stay m with ⟨e, -, hs⟩ | ⟨-, hstay⟩
      · exact hstep _ e _ hs ih
      · exact hstay.symm ▸ ih

/-- **What must come to an end.** While `P` holds an event of the class is enabled, and the
rank is lowered by every event of the class and raised by none. -/
theorem Behaviour.eventually_of_rank (b : Behaviour step s₀) {A : E → Prop} {P : S → Prop}
    (rank : S → ℕ) (hfair : b.WeaklyFair A)
    (henabled : ∀ n, P (b.state n) → Enabled step A (b.state n))
    (hrank : ∀ n e, b.event n = some e → step (b.state n) e (b.state (n + 1)) →
      P (b.state n) → P (b.state (n + 1)) →
        rank (b.state (n + 1)) ≤ rank (b.state n) ∧
          (A e → rank (b.state (n + 1)) < rank (b.state n)))
    (n : ℕ) : ∃ m, n ≤ m ∧ ¬P (b.state m) := by
  by_contra hforever
  simp only [not_exists, not_and, not_not] at hforever
  -- The rank does not grow from `n` on.
  have hanti : ∀ m k, n ≤ m → m ≤ k → rank (b.state k) ≤ rank (b.state m) := by
    intro m k hm hk
    induction hk with
    | refl => exact Nat.le_refl _
    | @step k hk ih =>
        have hk' : n ≤ k := Nat.le_trans hm hk
        rcases b.step_or_stay k with ⟨e, he, hs⟩ | ⟨-, hstay⟩
        · exact Nat.le_trans
            (hrank k e he hs (hforever k hk') (hforever _ (Nat.le_succ_of_le hk'))).1 ih
        · exact hstay.symm ▸ ih
  suffices hnone : ∀ r m, n ≤ m → rank (b.state m) = r → False from
    hnone _ n (Nat.le_refl n) rfl
  intro r
  induction r using Nat.strongRecOn with
  | ind r ih =>
      intro m hm hr
      obtain ⟨k, hk, ⟨e, he, hA⟩ | hnot⟩ := hfair m
      · have hk' : n ≤ k := Nat.le_trans hm hk
        rcases b.step_or_stay k with ⟨e', he', hs⟩ | ⟨hstay, -⟩
        · obtain rfl := Option.some.inj (he'.symm.trans he)
          have hlower := (hrank k e' he hs (hforever k hk')
            (hforever _ (Nat.le_succ_of_le hk'))).2 hA
          have hbound := hanti m k hm hk
          exact ih (rank (b.state (k + 1))) (by omega) (k + 1) (by omega) rfl
        · rw [hstay] at he
          cases he
      · exact hnot (henabled k (hforever k (Nat.le_trans hm hk)))

/-! ### Finite runs -/

variable {exec : S → E → Option S}

/-- A run behind which nothing happens any more. -/
def Behaviour.ofEvents (exec : S → E → Option S) (s₀ : S) (es : List E)
    (h : (es.foldlM exec s₀).isSome) : Behaviour (Steps exec) s₀ where
  state n := ((es.take n).foldlM exec s₀).getD s₀
  event n := es[n]?
  start := rfl
  next n := by
    have hprefix : ∃ s, (es.take n).foldlM exec s₀ = some s := by
      rw [← List.take_append_drop n es, List.foldlM_append] at h
      obtain ⟨s, hs⟩ := Option.isSome_iff_exists.mp h
      obtain ⟨t, ht, -⟩ := Option.bind_eq_some_iff.mp hs
      exact ⟨t, ht⟩
    obtain ⟨s, hs⟩ := hprefix
    cases he : es[n]? with
    | none =>
        rw [List.getElem?_eq_none_iff] at he
        rw [List.take_of_length_le he, List.take_of_length_le (Nat.le_succ_of_le he)]
        rfl
    | some e =>
        obtain ⟨hn, rfl⟩ := List.getElem?_eq_some_iff.mp he
        have hsplit : es.take (n + 1) = es.take n ++ [es[n]] := List.take_succ_eq_append_getElem hn
        have hnext : ∃ s', exec s es[n] = some s' := by
          rw [← List.take_append_drop (n + 1) es, hsplit, List.foldlM_append, List.foldlM_append,
            hs] at h
          obtain ⟨s', hs'⟩ := Option.isSome_iff_exists.mp h
          obtain ⟨t, ht, -⟩ := Option.bind_eq_some_iff.mp hs'
          exact ⟨t, by simpa using ht⟩
        obtain ⟨s', hs'⟩ := hnext
        rw [hsplit, List.foldlM_append, hs]
        simp [Perhaps, Steps, hs']

/-- It is fair to every class that is not enabled where the run has led. -/
theorem Behaviour.ofEvents_weaklyFair {s₀ s : S} {es : List E}
    (h : es.foldlM exec s₀ = some s) {A : E → Prop} (hA : ¬Enabled (Steps exec) A s) :
    (Behaviour.ofEvents exec s₀ es (by rw [h]; rfl)).WeaklyFair A := by
  intro n
  refine ⟨n + es.length, Nat.le_add_right _ _, Or.inr ?_⟩
  show ¬Enabled _ A (((es.take (n + es.length)).foldlM exec s₀).getD s₀)
  rw [List.take_of_length_le (Nat.le_add_left _ _), h]
  exact hA

end Transition
