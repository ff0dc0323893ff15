import Mathlib.Data.List.Basic

/-!
# Paging with a Cursor

A client that reads a long list page by page: it asks for the first page without a cursor,
and then for the page behind the cursor that came with the last one, until there is none.
Pages are read from the end of the list, and each shows its rows in the order of the list.

## Main results

* `Serves.complete`: if every page holds the next rows, and a cursor comes with every page
  that is not empty, then the pages together are the list.
-/

namespace CursorPages

variable {ε κ π α : Type}

/-- Follow the cursors. The pages are collected in the order of the list, the last one that
was read first. -/
def collect (fetch : Option κ → Except ε π) (next : π → Option κ) :
    ℕ → Option κ → Option (Except ε (List π))
  | 0, _ => none
  | fuel + 1, cursor =>
      match fetch cursor with
      | .error e => some (.error e)
      | .ok page =>
        match next page with
        | none => some (.ok [page])
        | some k => (collect fetch next fuel (some k)).map fun r => r.map (· ++ [page])

variable {fetch : Option κ → Except ε π} {next : π → Option κ} {items : π → List α}
  {rows : List α} {limit : ℕ}

/-- The page at position `i` of the rows, newest first, holds the next `limit` of them, and
its cursor is one for the position behind it. -/
def Serves (fetch : Option κ → Except ε π) (next : π → Option κ) (items : π → List α)
    (rows : List α) (limit : ℕ) (At : ℕ → Option κ → Prop) : Prop :=
  ∀ i cursor, At i cursor → ∃ page, fetch cursor = .ok page ∧
    items page = ((rows.drop i).take limit).reverse ∧
    (next page = none ∧ rows.drop i = [] ∨
      ∃ k, next page = some k ∧ rows.drop i ≠ [] ∧ At (i + limit) (some k))

/-- Following the cursors ends, and the pages are together the rows, which are given newest
first. -/
def Complete (fetch : Option κ → Except ε π) (next : π → Option κ) (items : π → List α)
    (rows : List α) : Prop :=
  ∀ fuel, rows.length < fuel → ∃ pages, collect fetch next fuel none = some (.ok pages) ∧
    pages.flatMap items = rows.reverse

/-- The pages from position `i` on are the rows from there on. -/
theorem collect_from {At : ℕ → Option κ → Prop} (h : Serves fetch next items rows limit At)
    (hlimit : 0 < limit) {i : ℕ} {cursor : Option κ} (hat : At i cursor) {fuel : ℕ}
    (hfuel : (rows.drop i).length < fuel) :
    ∃ pages, collect fetch next fuel cursor = some (.ok pages) ∧
      pages.flatMap items = (rows.drop i).reverse := by
  induction fuel generalizing i cursor with
  | zero => exact absurd hfuel (Nat.not_lt_zero _)
  | succ fuel ih =>
      obtain ⟨page, hfetch, hitems, ⟨hnext, hnil⟩ | ⟨k, hnext, hne, hat'⟩⟩ := h i cursor hat
      · refine ⟨[page], by rw [collect, hfetch]; dsimp only; rw [hnext], ?_⟩
        rw [List.flatMap_singleton, hitems, hnil, List.take_nil]
      · have hshorter : (rows.drop (i + limit)).length < fuel := by
          have hpos := List.length_pos_of_ne_nil hne
          rw [List.length_drop] at hfuel hpos ⊢
          omega
        obtain ⟨pages, hpages, hflat⟩ := ih hat' hshorter
        refine ⟨pages ++ [page], ?_, ?_⟩
        · rw [collect, hfetch]
          dsimp only
          rw [hnext]
          dsimp only
          rw [hpages]
          rfl
        · rw [List.flatMap_append, List.flatMap_singleton, hflat, hitems, ← List.drop_drop,
            ← List.reverse_append, List.take_append_drop]

/-- **The pages together are the rows**, for every page size but 0. -/
theorem Serves.complete {At : ℕ → Option κ → Prop} (h : Serves fetch next items rows limit At)
    (hlimit : 0 < limit) (hstart : At 0 none) : Complete fetch next items rows :=
  fun _ hfuel => collect_from h hlimit hstart (i := 0) hfuel

end CursorPages
