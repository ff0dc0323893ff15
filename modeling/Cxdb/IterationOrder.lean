import Cxdb.LastWrite
import Mathlib.Data.List.Sort
import Mathlib.Data.Finset.Max
import Mathlib.Data.String.Basic
import Mathlib.Order.Defs.LinearOrder

/-!
# Iterating over Maps

A hash map is iterated in an order that its contents do not determine: two maps with the
same entries, or one map read twice from the same text, can come in different orders. A
`HashOrder` makes this choice for every place of a program, so that what is proved for
every `HashOrder` holds for every order. An ordered map is iterated in the order of its
keys.

## Main results

* `mem_entriesIn`: an iteration meets exactly the entries of the map.
* `entriesIn_nodup`: it meets every key once.
* `lists_sorted`: sorting is an order of iteration.
-/

namespace IterationOrder

variable {κ α : Type} [DecidableEq κ]

/-- The entries of a map, in an order of its keys. -/
def entriesIn (m : HashMap κ α) (keys : List κ) : List (κ × α) :=
  keys.filterMap fun k => (m.lookup k).map (k, ·)

/-- A list of the elements of a set, each of which is there once. -/
structure Lists (s : Finset κ) (ks : List κ) : Prop where
  nodup : ks.Nodup
  mem_iff : ∀ k, k ∈ ks ↔ k ∈ s

instance (s : Finset κ) (ks : List κ) : Decidable (Lists s ks) :=
  decidable_of_iff (ks.Nodup ∧ (∀ k ∈ ks, k ∈ s) ∧ ∀ k ∈ s, k ∈ ks)
    ⟨fun ⟨hnd, h, h'⟩ => ⟨hnd, fun k => ⟨h k, h' k⟩⟩,
      fun h => ⟨h.nodup, fun k => (h.mem_iff k).mp, fun k => (h.mem_iff k).mpr⟩⟩

/-- What an iteration over a map meets. -/
theorem mem_entriesIn {m : HashMap κ α} {ks : List κ} (h : Lists m.keys ks) {k : κ} {a : α} :
    (k, a) ∈ entriesIn m ks ↔ m.lookup k = some a := by
  simp only [entriesIn, List.mem_filterMap, Option.map_eq_some_iff, Prod.mk.injEq]
  constructor
  · rintro ⟨k', -, b, hb, rfl, rfl⟩
    exact hb
  · intro hk
    exact ⟨k, (h.mem_iff k).mpr (Finmap.mem_keys.mpr (Finmap.mem_of_lookup_eq_some hk)), a, hk,
      rfl, rfl⟩

theorem keys_entriesIn {m : HashMap κ α} {ks : List κ} (h : Lists m.keys ks) :
    (entriesIn m ks).map Prod.fst = ks := by
  have hmem : ∀ k ∈ ks, k ∈ m := fun k hk => Finmap.mem_keys.mp ((h.mem_iff k).mp hk)
  clear h
  induction ks with
  | nil => rfl
  | cons k ks ih =>
      obtain ⟨a, ha⟩ := Finmap.mem_iff.mp (hmem k (by simp))
      rw [entriesIn, List.filterMap_cons, ha, Option.map_some]
      simp only [List.map_cons]
      rw [← entriesIn, ih fun k' hk' => hmem k' (List.mem_cons_of_mem _ hk')]

/-- An iteration meets every key once. -/
theorem entriesIn_nodup {m : HashMap κ α} {ks : List κ} (h : Lists m.keys ks) :
    ((entriesIn m ks).map Prod.fst).Nodup := by
  rw [keys_entriesIn h]
  exact h.nodup

/-! ### Sorted keys -/

instance isTransUInt64 : IsTrans UInt64 (· ≤ ·) := inferInstance

instance antisymmUInt64 : Std.Antisymm (fun a b : UInt64 => a ≤ b) := inferInstance

instance totalUInt64 : Std.Total (fun a b : UInt64 => a ≤ b) := inferInstance

section Sorted

variable (r : κ → κ → Prop) [DecidableRel r] [IsTrans κ r] [Std.Antisymm r] [Std.Total r]

/-- The elements of a set, in their order. -/
def sorted (s : Finset κ) : List κ :=
  Quot.liftOn s.val (fun ks => ks.insertionSort r) fun as bs h =>
    ((List.perm_insertionSort r as).trans (h.trans (List.perm_insertionSort r bs).symm)).eq_of_pairwise
      (fun _ _ _ _ => antisymm) (List.pairwise_insertionSort r as)
      (List.pairwise_insertionSort r bs)

omit [DecidableEq κ] in
theorem sorted_eq {s : Finset κ} {ks : List κ} (h : s.val = ks) :
    sorted r s = ks.insertionSort r := by
  rw [sorted, h]
  rfl

omit [DecidableEq κ] in
/-- Sorting is an order of iteration. -/
theorem lists_sorted (s : Finset κ) : Lists s (sorted r s) := by
  obtain ⟨ks, hks⟩ : ∃ ks : List κ, s.val = ks := ⟨_, (Multiset.coe_toList s.val).symm⟩
  have hperm := List.perm_insertionSort r ks
  rw [sorted_eq r hks]
  constructor
  · rw [hperm.nodup_iff, ← Multiset.coe_nodup, ← hks]
    exact s.nodup
  · intro k
    rw [hperm.mem_iff, ← Multiset.mem_coe, ← hks]
    exact Iff.rfl

omit [DecidableEq κ] in
/-- A list in order is the sorted one. -/
theorem sorted_eq_of_pairwise {s : Finset κ} {ks : List κ} (h : Lists s ks)
    (hks : ks.Pairwise r) : sorted r s = ks := by
  have hs := lists_sorted r s
  obtain ⟨as, has⟩ : ∃ as : List κ, s.val = as := ⟨_, (Multiset.coe_toList s.val).symm⟩
  refine List.Perm.eq_of_pairwise (fun _ _ _ _ => antisymm) ?_ hks ?_
  · rw [sorted_eq r has]
    exact List.pairwise_insertionSort r as
  · exact (List.perm_ext_iff_of_nodup hs.nodup h.nodup).mpr fun k =>
      (hs.mem_iff k).trans (h.mem_iff k).symm

end Sorted

/-- The values of a map, when each of these keys has one. -/
theorem map_snd_entriesIn {m : HashMap κ α} {ks : List κ} {f : κ → α}
    (h : ∀ k ∈ ks, m.lookup k = some (f k)) : (entriesIn m ks).map Prod.snd = ks.map f := by
  induction ks with
  | nil => rfl
  | cons k ks ih =>
      rw [entriesIn, List.filterMap_cons, h k List.mem_cons_self, Option.map_some]
      simp only [List.map_cons]
      rw [← entriesIn, ih fun k' hk' => h k' (List.mem_cons_of_mem _ hk')]

end IterationOrder

open IterationOrder in
/-- An order of iteration for every hash map that a call makes, told apart by where it is
made: for maps with names as keys and for maps with numbers. -/
structure HashOrder where
  strings (place : List String) (keys : Finset String) : List String
  numbers (place : List String) (keys : Finset UInt64) : List UInt64
  strings_list : ∀ place keys, Lists keys (strings place keys)
  numbers_list : ∀ place keys, Lists keys (numbers place keys)

/-- Every map in the order of its keys. -/
def HashOrder.sorted : HashOrder where
  strings _ keys := IterationOrder.sorted (· ≤ ·) keys
  numbers _ keys := IterationOrder.sorted (· ≤ ·) keys
  strings_list _ keys := IterationOrder.lists_sorted (· ≤ ·) keys
  numbers_list _ keys := IterationOrder.lists_sorted (· ≤ ·) keys
