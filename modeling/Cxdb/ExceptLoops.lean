import Mathlib.Data.List.Forall2

/-!
# Loops with a Result for Every Element

`List.mapM` with a body that may fail: the loop returns a result for every element, or the
first failure.

## Main results

* `mapM_ok_iff`: the results of a loop that succeeds, element by element.
* `exists_mapM_ok`: a loop whose every pass succeeds.
* `foldlM_error_iff`: where a loop over a state fails.
-/

namespace ExceptLoops

variable {ε α β : Type} {f : α → Except ε β} {xs : List α} {ys : List β}

/-- **A loop that succeeds** has a result for every element, in their order. -/
theorem mapM_ok_iff : xs.mapM f = .ok ys ↔ List.Forall₂ (fun x y => f x = .ok y) xs ys := by
  induction xs generalizing ys with
  | nil =>
      rw [List.mapM_nil, List.forall₂_nil_left_iff]
      exact ⟨fun h => (Except.ok.inj h).symm, fun h => h ▸ rfl⟩
  | cons x xs ih =>
      rw [List.mapM_cons]
      constructor
      · intro h
        cases hx : f x with
        | error e =>
            rw [hx] at h
            cases h
        | ok y =>
            cases hxs : xs.mapM f with
            | error e =>
                rw [hx, hxs] at h
                cases h
            | ok rest =>
                rw [hx, hxs] at h
                obtain rfl := Except.ok.inj h
                exact .cons hx (ih.mp hxs)
      · intro h
        cases h with
        | cons hx hxs =>
            rw [hx, ih.mpr hxs]
            rfl

/-- What every pass brings about, the loop brings about for every element. -/
theorem exists_mapM_ok {R : α → β → Prop} (h : ∀ x ∈ xs, ∃ y, f x = .ok y ∧ R x y) :
    ∃ ys, xs.mapM f = .ok ys ∧ List.Forall₂ R xs ys := by
  induction xs with
  | nil => exact ⟨[], rfl, .nil⟩
  | cons x xs ih =>
      obtain ⟨y, hy, hR⟩ := h x List.mem_cons_self
      obtain ⟨ys, hys, hRs⟩ := ih fun x' hx' => h x' (List.mem_cons_of_mem _ hx')
      exact ⟨y :: ys, mapM_ok_iff.mpr (.cons hy (mapM_ok_iff.mp hys)), .cons hR hRs⟩

/-- What every pass makes true of its result is true of all results. -/
theorem exists_mapM_forall {p : β → Prop} (h : ∀ x ∈ xs, ∃ y, f x = .ok y ∧ p y) :
    ∃ ys, xs.mapM f = .ok ys ∧ ∀ y ∈ ys, p y := by
  obtain ⟨ys, hys, hall⟩ := exists_mapM_ok (R := fun _ y => p y) h
  refine ⟨ys, hys, ?_⟩
  clear hys h
  induction hall with
  | nil => exact fun y hy => nomatch hy
  | cons hy _ ih => exact List.forall_mem_cons.mpr ⟨hy, ih⟩

/-- A loop whose every pass succeeds. -/
theorem exists_mapM_eq_ok (h : ∀ x ∈ xs, ∃ y, f x = .ok y) : ∃ ys, xs.mapM f = .ok ys := by
  obtain ⟨ys, hys, -⟩ := exists_mapM_ok (R := fun _ _ => True) fun x hx =>
    (h x hx).imp fun _ hy => ⟨hy, trivial⟩
  exact ⟨ys, hys⟩

/-- What a loop that succeeds makes of every element. -/
theorem forall_of_mapM {p : β → Prop} (h : ∀ x y, f x = .ok y → p y) (hf : xs.mapM f = .ok ys) :
    ∀ y ∈ ys, p y := by
  induction mapM_ok_iff.mp hf with
  | nil => exact fun y hy => nomatch hy
  | cons hx _ ih => exact List.forall_mem_cons.mpr ⟨h _ _ hx, ih (mapM_ok_iff.mpr ‹_›)⟩

/-- A loop from whose every result the element can be read off. -/
theorem map_of_mapM {g : β → α} (h : ∀ x y, f x = .ok y → g y = x) (hf : xs.mapM f = .ok ys) :
    ys.map g = xs := by
  induction mapM_ok_iff.mp hf with
  | nil => rfl
  | cons hx _ ih => rw [List.map_cons, h _ _ hx, ih (mapM_ok_iff.mpr ‹_›)]

/-- **A loop over a state that fails** has a first pass that fails. -/
theorem foldlM_error_iff {σ : Type} {f : σ → α → Except ε σ} {s : σ} {e : ε} :
    xs.foldlM f s = .error e ↔
      ∃ pre x post s', xs = pre ++ x :: post ∧ pre.foldlM f s = .ok s' ∧ f s' x = .error e := by
  constructor
  · intro h
    induction xs generalizing s with
    | nil => cases h
    | cons x xs ih =>
        rw [List.foldlM_cons] at h
        cases hx : f s x with
        | error e' =>
            rw [hx] at h
            exact ⟨[], x, xs, s, rfl, rfl, hx.trans h⟩
        | ok s₁ =>
            rw [hx] at h
            obtain ⟨pre, y, post, s', rfl, hpre, hy⟩ := ih h
            refine ⟨x :: pre, y, post, s', rfl, ?_, hy⟩
            rw [List.foldlM_cons, hx]
            exact hpre
  · rintro ⟨pre, x, post, s', rfl, hpre, hx⟩
    rw [List.foldlM_append, hpre]
    change List.foldlM f s' (x :: post) = _
    rw [List.foldlM_cons, hx]
    rfl

end ExceptLoops
