import Mathlib.Data.List.Basic

/-!
# Lists of Two Values in Turn

Two values that stand in a list one after the other, from the first of them on.

## Main results

* `alternates_concat_iff`: such a list is extended by the value whose turn it is.
* `Alternates.count`: how often each of the two stands there.
-/

namespace Alternation

variable {α : Type} {a b : α} {l l' : List α}

/-- `a`, `b`, `a`, and so on. -/
def Alternates (a b : α) : List α → Prop
  | [] => True
  | x :: l => x = a ∧ Alternates b a l

instance decidableAlternates [DecidableEq α] (a b : α) (l : List α) :
    Decidable (Alternates a b l) :=
  match l with
  | [] => isTrue trivial
  | x :: l =>
      have := decidableAlternates b a l
      inferInstanceAs (Decidable (x = a ∧ Alternates b a l))

/-- The value that stands behind `n` others. -/
def inTurn (a b : α) (n : ℕ) : α := if n % 2 = 0 then a else b

theorem inTurn_succ (a b : α) (n : ℕ) : inTurn b a n = inTurn a b (n + 1) := by
  rw [inTurn, inTurn]
  rcases Nat.mod_two_eq_zero_or_one n with h | h
  · rw [if_pos h, if_neg (by omega)]
  · rw [if_neg (by omega), if_pos (by omega)]

/-- **The value whose turn it is.** -/
theorem alternates_concat_iff {x : α} :
    Alternates a b (l ++ [x]) ↔ Alternates a b l ∧ x = inTurn a b l.length := by
  induction l generalizing a b with
  | nil => simp [Alternates, inTurn]
  | cons y l ih =>
      rw [List.cons_append, Alternates, ih, Alternates, and_assoc, inTurn_succ, List.length_cons]

theorem Alternates.of_append (h : Alternates a b (l ++ l')) : Alternates a b l := by
  induction l generalizing a b with
  | nil => trivial
  | cons x l ih => exact ⟨h.1, ih h.2⟩

theorem Alternates.of_prefix (h : Alternates a b l') (hpre : l <+: l') : Alternates a b l := by
  obtain ⟨t, rfl⟩ := hpre
  exact h.of_append

variable [DecidableEq α]

/-- How often the two stand there. -/
theorem Alternates.count (h : Alternates a b l) (hne : a ≠ b) :
    l.count a = (l.length + 1) / 2 ∧ l.count b = l.length / 2 := by
  induction l generalizing a b with
  | nil => simp
  | cons x l ih =>
      obtain ⟨rfl, hl⟩ := h
      obtain ⟨hb, ha⟩ := ih hl hne.symm
      rw [List.count_cons_self, List.count_cons_of_ne hne, List.length_cons]
      omega

end Alternation
