import Cxdb.LineReader
import Mathlib.Data.List.DropRight

/-!
# Rendered Texts

A text is rendered piece by piece: every element becomes one or more. Where an element that is
looked for becomes a single one of its kind, and no other one has such an element in its
rendering, the two can be searched and cut alike.

## Main results

* `Marks.takeWhile`, `Marks.dropWhile`, `Marks.rdropWhile`: a text is cut where its rendering
  is.
* `splitLines_flatMap_marks`: the lines of a rendering are the renderings of the lines.
-/

namespace RenderedText

open LineReader

variable {α β : Type}

/-- An element with `p` becomes one with `q`, and another one becomes elements without `q`. -/
structure Marks (p : α → Bool) (q : β → Bool) (σ : α → List β) : Prop where
  pos : ∀ x, p x = true → ∃ y, σ x = [y] ∧ q y = true
  neg : ∀ x, p x = false → ∀ y ∈ σ x, q y = false
  ne_nil : ∀ x, σ x ≠ []

variable {p p' : α → Bool} {q q' : β → Bool} {σ : α → List β}

/-- One kind or another. -/
theorem Marks.or (h : Marks p q σ) (h' : Marks p' q' σ) :
    Marks (fun x => p x || p' x) (fun y => q y || q' y) σ where
  pos x hx := by
    rcases Bool.or_eq_true_iff.mp hx with hp | hp
    · obtain ⟨y, hy, hq⟩ := h.pos x hp
      exact ⟨y, hy, by rw [hq, Bool.true_or]⟩
    · obtain ⟨y, hy, hq⟩ := h'.pos x hp
      exact ⟨y, hy, by rw [hq, Bool.or_true]⟩
  neg x hx y hy := by
    obtain ⟨hp, hp'⟩ := Bool.or_eq_false_iff.mp hx
    rw [h.neg x hp y hy, h'.neg x hp' y hy, Bool.or_false]
  ne_nil := h.ne_nil

namespace Marks

theorem flatMap_eq_nil (h : Marks p q σ) {l : List α} : l.flatMap σ = [] ↔ l = [] := by
  cases l with
  | nil => simp
  | cons x l => simp [h.ne_nil x]

/-- **What stands before the first one.** -/
theorem takeWhile (h : Marks p q σ) (l : List α) :
    (l.flatMap σ).takeWhile (!q ·) = (l.takeWhile (!p ·)).flatMap σ := by
  induction l with
  | nil => rfl
  | cons x l ih =>
      rw [List.flatMap_cons]
      cases hx : p x with
      | true =>
          obtain ⟨y, hy, hq⟩ := h.pos x hx
          simp [hy, hq, hx]
      | false =>
          rw [List.takeWhile_append_of_pos fun y hy => by rw [h.neg x hx y hy]; rfl, ih,
            List.takeWhile_cons_of_pos (by rw [hx]; rfl), List.flatMap_cons]

/-- **The first one and what stands behind it.** -/
theorem dropWhile (h : Marks p q σ) (l : List α) :
    (l.flatMap σ).dropWhile (!q ·) = (l.dropWhile (!p ·)).flatMap σ := by
  induction l with
  | nil => rfl
  | cons x l ih =>
      rw [List.flatMap_cons]
      cases hx : p x with
      | true =>
          obtain ⟨y, hy, hq⟩ := h.pos x hx
          simp [hy, hq, hx]
      | false =>
          rw [List.dropWhile_append_of_pos fun y hy => by rw [h.neg x hx y hy]; rfl, ih,
            List.dropWhile_cons_of_pos (by rw [hx]; rfl)]

/-- **Without those at the end.** -/
theorem rdropWhile (h : Marks p q σ) (l : List α) :
    (l.flatMap σ).rdropWhile q = (l.rdropWhile p).flatMap σ := by
  induction l using List.reverseRecOn with
  | nil => rfl
  | append_singleton l x ih =>
      rw [List.flatMap_append, List.flatMap_singleton]
      cases hx : p x with
      | true =>
          obtain ⟨y, hy, hq⟩ := h.pos x hx
          rw [hy, List.rdropWhile_concat_pos _ _ _ hq, List.rdropWhile_concat_pos _ _ _ hx, ih]
      | false =>
          obtain ⟨init, y, hy⟩ := (List.eq_nil_or_concat' (σ x)).resolve_left (h.ne_nil x)
          have hq := h.neg x hx y (hy ▸ List.mem_append_right _ List.mem_cons_self)
          rw [List.rdropWhile_concat_neg _ _ _ (by simp [hx]), List.flatMap_append,
            List.flatMap_singleton, hy, ← List.append_assoc,
            List.rdropWhile_concat_neg _ _ _ (by simp [hq])]

theorem any (h : Marks p q σ) (l : List α) : (l.flatMap σ).any q = l.any p := by
  induction l with
  | nil => rfl
  | cons x l ih =>
      rw [List.flatMap_cons, List.any_append, ih, List.any_cons]
      cases hx : p x with
      | true =>
          obtain ⟨y, hy, hq⟩ := h.pos x hx
          simp [hy, hq]
      | false =>
          rw [List.any_eq_false.mpr fun y hy => by simp [h.neg x hx y hy]]

/-- Whether one stands in front. -/
theorem head (h : Marks p q σ) (l : List α) : (l.flatMap σ).head?.any q = l.head?.any p := by
  cases l with
  | nil => rfl
  | cons x l =>
      obtain ⟨y, ys, hy⟩ := List.exists_cons_of_ne_nil (h.ne_nil x)
      rw [List.flatMap_cons, hy]
      cases hx : p x with
      | true =>
          obtain ⟨y', hy', hq⟩ := h.pos x hx
          obtain ⟨rfl, -⟩ := List.cons.inj (hy.symm.trans hy')
          simp [hq, hx]
      | false =>
          have hq := h.neg x hx y (hy ▸ List.mem_cons_self)
          simp [hq, hx]

/-- What stands behind the one in front. -/
theorem tail (h : Marks p q σ) {l : List α} (hhead : l.head?.any p = true) :
    (l.flatMap σ).tail = l.tail.flatMap σ := by
  cases l with
  | nil => rfl
  | cons x l =>
      obtain ⟨y, hy, -⟩ := h.pos x (by simpa using hhead)
      rw [List.flatMap_cons, hy]
      rfl

end Marks

/-! ### Lines -/

variable [DecidableEq α] [DecidableEq β]

theorem splitLine_flatMap {d : α} {e : β} (h : Marks (· == d) (· == e) σ) (l : List α) :
    splitLine e (l.flatMap σ) =
      (splitLine d l).map fun cut => (cut.1.flatMap σ, cut.2.flatMap σ) := by
  have hskip : ∀ (l rest : List β), (∀ y ∈ l, (y == e) = false) →
      splitLine e (l ++ rest) = (splitLine e rest).map fun cut => (l ++ cut.1, cut.2) := by
    intro l rest hl
    rw [splitLine_append]
    have hnone : splitLine e l = none := by
      induction l with
      | nil => rfl
      | cons y l ih =>
          obtain ⟨hy, hl⟩ := List.forall_mem_cons.mp hl
          rw [splitLine, if_neg (by simpa using hy), ih hl]
          rfl
    rw [hnone]
  induction l with
  | nil => rfl
  | cons x l ih =>
      rw [List.flatMap_cons, splitLine]
      by_cases hx : x = d
      · obtain ⟨y, hy, he⟩ := h.pos x (by simpa using hx)
        rw [if_pos hx, hy, List.singleton_append, splitLine, if_pos (by simpa using he)]
        simp [hy]
      · rw [if_neg hx, hskip _ _ (h.neg x (by simpa using hx)), ih, Option.map_map, Option.map_map]
        rfl

/-- **The lines of a rendering** are the renderings of the lines. -/
theorem splitLines_flatMap_marks {d : α} {e : β} (h : Marks (· == d) (· == e) σ) (l : List α) :
    splitLines e (l.flatMap σ) =
      ((splitLines d l).1.map (·.flatMap σ), (splitLines d l).2.flatMap σ) := by
  induction hn : l.length using Nat.strong_induction_on generalizing l with
  | _ n ih =>
      subst hn
      rw [splitLines_eq, splitLines_eq d, splitLine_flatMap h]
      cases hcut : splitLine d l with
      | none => rfl
      | some cut =>
          rw [Option.map_some]
          dsimp only
          rw [ih _ (splitLine_length hcut) _ rfl]
          rfl

end RenderedText
