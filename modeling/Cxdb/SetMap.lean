import Cxdb.LastWrite
import Mathlib.Data.Finset.Union

/-!
# Maps to Sets

A map whose values are sets, grown one element at a time: a key comes into being with its
first element. This is how an inverted index is kept, and all that a reader sees of it is
which elements stand under which keys.

## Main results

* `mem_get_insert`: what one insertion adds.
* `mem_get_insertAll`: what inserting one element under several keys adds.
* `mem_range`: what a range of keys collects.
-/

/-- A map from keys to sets of elements. -/
abbrev SetMap (κ α : Type) := HashMap κ (Finset α)

namespace SetMap

variable {κ α : Type} [DecidableEq κ] [DecidableEq α]

/-- The set under a key; empty for a key that is not there. -/
def get (m : SetMap κ α) (k : κ) : Finset α := (m.lookup k).getD ∅

/-- Add an element to the set under a key. -/
def insert (m : SetMap κ α) (k : κ) (a : α) : SetMap κ α :=
  Finmap.insert k (Insert.insert a (m.get k)) m

/-- Add an element under each of several keys. -/
def insertAll (m : SetMap κ α) (ks : List κ) (a : α) : SetMap κ α :=
  ks.foldl (fun m k => m.insert k a) m

/-- The elements under the keys that satisfy `p`. -/
def range (m : SetMap κ α) (p : κ → Bool) : Finset α :=
  (m.keys.filter (p · = true)).biUnion m.get

omit [DecidableEq α] in
@[simp] theorem get_empty (k : κ) : (∅ : SetMap κ α).get k = ∅ := by
  simp [get]

/-- What one insertion adds. -/
@[simp] theorem mem_get_insert {m : SetMap κ α} {k k' : κ} {a b : α} :
    b ∈ (m.insert k a).get k' ↔ b ∈ m.get k' ∨ k' = k ∧ b = a := by
  unfold get insert
  rw [LastWrite.lookup_insert]
  by_cases hk : k' = k
  · subst hk
    rw [if_pos rfl, Option.getD_some, Finset.mem_insert]
    simp only [get, true_and]
    exact or_comm
  · rw [if_neg hk]
    simp [hk]

/-- What inserting an element under several keys adds. -/
@[simp] theorem mem_get_insertAll {m : SetMap κ α} {ks : List κ} {k : κ} {a b : α} :
    b ∈ (m.insertAll ks a).get k ↔ b ∈ m.get k ∨ k ∈ ks ∧ b = a := by
  induction ks generalizing m with
  | nil => simp [insertAll]
  | cons k' ks ih =>
      change b ∈ ((m.insert k' a).insertAll ks a).get k ↔ _
      rw [ih, mem_get_insert, List.mem_cons]
      tauto

/-- What a range of keys collects. -/
@[simp] theorem mem_range {m : SetMap κ α} {p : κ → Bool} {a : α} :
    a ∈ m.range p ↔ ∃ k, p k = true ∧ a ∈ m.get k := by
  rw [range, Finset.mem_biUnion]
  constructor
  · rintro ⟨k, hk, ha⟩
    exact ⟨k, (Finset.mem_filter.mp hk).2, ha⟩
  · rintro ⟨k, hp, ha⟩
    refine ⟨k, Finset.mem_filter.mpr ⟨?_, hp⟩, ha⟩
    -- A key without a set holds nothing.
    by_contra hk
    rw [Finmap.mem_keys, ← Finmap.lookup_eq_none] at hk
    simp [get, hk] at ha

end SetMap
