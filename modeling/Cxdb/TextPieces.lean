import Mathlib.Data.List.Basic

/-!
# Pieces of a Text

A list of texts makes one text, with line breaks between them or without.

## Main results

* `joinLines_flatten`: lines of lines are the lines of all of them.
* `joinLines_eq_concat_iff`: the line breaks make a difference from two texts on.
-/

namespace TextPieces

/-- `join("\n")`. -/
def joinLines : List String → String
  | [] => ""
  | [s] => s
  | s :: t :: rest => s ++ "\n" ++ joinLines (t :: rest)

/-- Strings one after another. -/
def concat : List String → String
  | [] => ""
  | s :: rest => s ++ concat rest

theorem concat_append (l l' : List String) : concat (l ++ l') = concat l ++ concat l' := by
  induction l with
  | nil => simp [concat]
  | cons s l ih => simp [concat, ih, String.append_assoc]

theorem concat_eq_empty {l : List String} : concat l = "" ↔ ∀ s ∈ l, s = "" := by
  induction l with
  | nil => simp [concat]
  | cons s l ih => simp [concat, ih, String.append_eq_empty_iff]

theorem concat_filter (l : List String) : concat (l.filter (· ≠ "")) = concat l := by
  induction l with
  | nil => rfl
  | cons s l ih =>
      by_cases hs : s = ""
      · rw [List.filter_cons_of_neg (by simpa using hs), ih, concat, hs, String.empty_append]
      · rw [List.filter_cons_of_pos (by simpa using hs), concat, ih, concat]

theorem length_joinLines (l : List String) :
    (joinLines l).length = (concat l).length + (l.length - 1) := by
  induction l with
  | nil => rfl
  | cons s l ih =>
      cases l with
      | nil => simp [joinLines, concat]
      | cons t rest =>
          have hsep : "\n".length = 1 := rfl
          rw [joinLines, concat, String.length_append, String.length_append, ih,
            String.length_append]
          simp only [List.length_cons]
          omega

/-- Without line breaks a list of texts is another one, unless it has at most one text. -/
theorem joinLines_eq_concat_iff {l : List String} : concat l = joinLines l ↔ l.length ≤ 1 := by
  constructor
  · intro h
    have hlen := congrArg String.length h
    rw [length_joinLines] at hlen
    omega
  · intro h
    match l, h with
    | [], _ => rfl
    | [s], _ => simp [joinLines, concat]

theorem joinLines_append {l l' : List String} (h : l ≠ []) (h' : l' ≠ []) :
    joinLines (l ++ l') = joinLines l ++ "\n" ++ joinLines l' := by
  induction l with
  | nil => exact absurd rfl h
  | cons s l ih =>
      cases l with
      | nil =>
          obtain ⟨t, rest, rfl⟩ := List.exists_cons_of_ne_nil h'
          rfl
      | cons t rest =>
          rw [List.cons_append, List.cons_append, joinLines, ← List.cons_append,
            ih (List.cons_ne_nil _ _), joinLines]
          simp only [String.append_assoc]

/-- Texts that are not empty make a text that is not. -/
theorem joinLines_filter_eq_empty {l : List String} :
    joinLines (l.filter (· ≠ "")) = "" ↔ l.filter (· ≠ "") = [] := by
  constructor
  · intro h
    have hlen := congrArg String.length h
    rw [length_joinLines] at hlen
    have hconcat : concat (l.filter (· ≠ "")) = "" := by
      rw [← String.length_eq_zero_iff]
      simp only [String.length_empty] at hlen
      omega
    rw [List.filter_eq_nil_iff]
    rw [concat_filter, concat_eq_empty] at hconcat
    simpa using hconcat
  · intro h
    rw [h, joinLines]

/-- **Lines of lines** are the lines of all of them. -/
theorem joinLines_flatten (ls : List (List String)) :
    joinLines ((ls.map fun l => joinLines (l.filter (· ≠ ""))).filter (· ≠ "")) =
      joinLines (ls.flatten.filter (· ≠ "")) := by
  have hnil (ls : List (List String)) :
      (ls.map fun l => joinLines (l.filter (· ≠ ""))).filter (· ≠ "") = [] ↔
        ls.flatten.filter (· ≠ "") = [] := by
    simp only [List.filter_eq_nil_iff, List.forall_mem_map, List.mem_flatten, decide_eq_true_eq,
      ne_eq, not_not, joinLines_filter_eq_empty]
    exact ⟨fun h s ⟨l, hl, hs⟩ => h l hl s hs, fun h l hl s hs => h s ⟨l, hl, hs⟩⟩
  induction ls with
  | nil => rfl
  | cons l ls ih =>
      rw [List.map_cons, List.filter_cons, List.flatten_cons, List.filter_append]
      by_cases hl : l.filter (· ≠ "") = []
      · rw [hl, List.nil_append]
        simpa [joinLines] using ih
      · have hline : joinLines (l.filter (· ≠ "")) ≠ "" := fun h =>
          hl (joinLines_filter_eq_empty.mp h)
        rw [if_pos (by simpa using hline)]
        by_cases hls : ls.flatten.filter (· ≠ "") = []
        · rw [hls, (hnil ls).mpr hls, List.append_nil, joinLines]
        · rw [joinLines_append hl hls, ← ih, ← List.singleton_append,
            joinLines_append (List.cons_ne_nil _ _) fun h => hls ((hnil ls).mp h), joinLines]

end TextPieces
