import Mathlib.Data.Finmap
import Mathlib.Data.List.Sort

/-!
# Last-Write-Wins Maps

A finite map that is filled by inserting the entries of a list in order keeps, for each
key, the value of the last entry with that key. This is what replaying an append-only
log makes of its records.

## Main results

* `lookup_insertAll_of_last`: the last entry for a key is the one that is found.
* `lookup_insertAll_of_mem`: with distinct keys every entry is found.
* `exists_of_lookup_insertAll`: nothing is found that was not written.
-/

/-- A finite map, compared by what its keys are mapped to. -/
abbrev HashMap (κ α : Type) := Finmap fun _ : κ => α

namespace LastWrite

variable {κ α β : Type} [DecidableEq κ]

/-- Insert the entries of a list, in order. -/
def insertAll (key : β → κ) (val : β → α) (m : HashMap κ α) (bs : List β) : HashMap κ α :=
  bs.foldl (fun m b => m.insert (key b) (val b)) m

variable {key : β → κ} {val : β → α}

theorem lookup_insert (m : HashMap κ α) (k k' : κ) (a : α) :
    (m.insert k a).lookup k' = if k' = k then some a else m.lookup k' := by
  split
  · next h => rw [h, Finmap.lookup_insert]
  · next h => rw [Finmap.lookup_insert_of_ne _ h]

@[simp] theorem insertAll_nil (m : HashMap κ α) : insertAll key val m [] = m := rfl

theorem insertAll_append (m : HashMap κ α) (bs cs : List β) :
    insertAll key val m (bs ++ cs) = insertAll key val (insertAll key val m bs) cs := by
  simp [insertAll]

/-- One more entry is one more insertion. -/
theorem insertAll_concat (m : HashMap κ α) (bs : List β) (b : β) :
    insertAll key val m (bs ++ [b]) = (insertAll key val m bs).insert (key b) (val b) := by
  rw [insertAll_append]
  rfl

/-- Entries for other keys do not change what is found. -/
theorem lookup_insertAll_of_forall_ne {m : HashMap κ α} {bs : List β} {k : κ}
    (h : ∀ b ∈ bs, key b ≠ k) : (insertAll key val m bs).lookup k = m.lookup k := by
  induction bs generalizing m with
  | nil => rfl
  | cons b bs ih =>
      have hb : k ≠ key b := fun e => h b (by simp) e.symm
      change (insertAll key val (m.insert (key b) (val b)) bs).lookup k = _
      rw [ih fun c hc => h c (by simp [hc]), Finmap.lookup_insert_of_ne _ hb]

/-- **Last write wins.** -/
theorem lookup_insertAll_of_last {m : HashMap κ α} {bs cs : List β} {b : β} {k : κ}
    (hb : key b = k) (hc : ∀ c ∈ cs, key c ≠ k) :
    (insertAll key val m (bs ++ b :: cs)).lookup k = some (val b) := by
  rw [show bs ++ b :: cs = bs ++ [b] ++ cs by simp, insertAll_append, insertAll_concat,
    lookup_insertAll_of_forall_ne hc, hb, Finmap.lookup_insert]

/-- What is found in a map that is filled from a list of pairs. -/
theorem lookup_insertAll_pairs (bs : List (κ × α)) (k : κ) :
    (insertAll Prod.fst Prod.snd (∅ : HashMap κ α) bs).lookup k = bs.reverse.lookup k := by
  induction bs using List.reverseRecOn with
  | nil => exact Finmap.lookup_empty k
  | append_singleton bs b ih =>
      rw [insertAll_concat, lookup_insert, ih, List.reverse_concat, List.lookup_cons]
      by_cases h : k = b.1
      · rw [if_pos h, h, beq_self_eq_true]
      · rw [if_neg h, beq_false_of_ne h]

/-- A key that occurs has a last entry. -/
theorem exists_last_of_mem {bs : List β} {k : κ} (h : ∃ b ∈ bs, key b = k) :
    ∃ pre b post, bs = pre ++ b :: post ∧ key b = k ∧ ∀ c ∈ post, key c ≠ k := by
  induction bs using List.reverseRecOn with
  | nil => simp at h
  | append_singleton bs c ih =>
      by_cases hc : key c = k
      · exact ⟨bs, c, [], rfl, hc, by simp⟩
      · have hbs : ∃ b ∈ bs, key b = k := by
          obtain ⟨b, hb, hk⟩ := h
          rcases List.mem_append.mp hb with hb | hb
          · exact ⟨b, hb, hk⟩
          · exact absurd (List.mem_singleton.mp hb ▸ hk) hc
        obtain ⟨pre, b, post, rfl, hk, hpost⟩ := ih hbs
        refine ⟨pre, b, post ++ [c], by simp, hk, ?_⟩
        intro c' hc'
        rcases List.mem_append.mp hc' with hc' | hc'
        · exact hpost c' hc'
        · exact List.mem_singleton.mp hc' ▸ hc

/-- What is found was there before, or is the last entry of the list for its key. -/
theorem exists_of_lookup_insertAll {m : HashMap κ α} {bs : List β} {k : κ} {a : α}
    (h : (insertAll key val m bs).lookup k = some a) :
    (∃ b ∈ bs, key b = k ∧ val b = a) ∨ m.lookup k = some a := by
  induction bs using List.reverseRecOn with
  | nil => exact Or.inr h
  | append_singleton bs b ih =>
      rw [insertAll_concat, lookup_insert] at h
      split at h
      · next hk => exact Or.inl ⟨b, by simp, hk.symm, Option.some.inj h⟩
      · rcases ih h with ⟨c, hc, hkey⟩ | hm
        · exact Or.inl ⟨c, by simp [hc], hkey⟩
        · exact Or.inr hm

/-- With distinct keys every entry is found. -/
theorem lookup_insertAll_of_mem {m : HashMap κ α} {bs : List β} {b : β}
    (hnd : (bs.map key).Nodup) (hb : b ∈ bs) :
    (insertAll key val m bs).lookup (key b) = some (val b) := by
  obtain ⟨pre, post, rfl⟩ := List.append_of_mem hb
  refine lookup_insertAll_of_last rfl fun c hc heq => ?_
  rw [List.map_append, List.map_cons, List.nodup_append] at hnd
  exact (List.nodup_cons.mp hnd.2.1).1 (heq ▸ List.mem_map_of_mem hc)

/-- An entry is found when all entries with its key have its value. -/
theorem lookup_insertAll_of_unique {m : HashMap κ α} {bs : List β} {b : β} (hb : b ∈ bs)
    (h : ∀ c ∈ bs, key c = key b → val c = val b) :
    (insertAll key val m bs).lookup (key b) = some (val b) := by
  have hmem : ∃ c ∈ bs, key c = key b := ⟨b, hb, rfl⟩
  obtain ⟨pre, c, post, rfl, hc, hpost⟩ := exists_last_of_mem hmem
  rw [lookup_insertAll_of_last hc hpost, h c (by simp) hc]

/-- The keys of a replayed log are the keys of its records. -/
theorem mem_insertAll_empty {bs : List β} {k : κ} :
    k ∈ insertAll key val (∅ : HashMap κ α) bs ↔ ∃ b ∈ bs, key b = k := by
  constructor
  · intro h
    obtain ⟨a, ha⟩ := Finmap.mem_iff.mp h
    rcases exists_of_lookup_insertAll ha with ⟨b, hb, hkey, -⟩ | h
    · exact ⟨b, hb, hkey⟩
    · simp at h
  · rintro ⟨b, hb, rfl⟩
    induction bs using List.reverseRecOn with
    | nil => simp at hb
    | append_singleton bs c ih =>
        rw [insertAll_concat, Finmap.mem_insert]
        rcases List.mem_append.mp hb with hb | hb
        · exact Or.inr (ih hb)
        · exact Or.inl (by rw [List.mem_singleton.mp hb])

/-! ### Enumeration -/

/-- The keys in increasing order. -/
def sortedKeys [LinearOrder κ] (m : HashMap κ α) : List κ :=
  Quot.liftOn m.keys.val (fun l => l.insertionSort (· ≤ ·)) fun _ _ h =>
    ((List.perm_insertionSort _ _).trans <|
      h.trans (List.perm_insertionSort _ _).symm).eq_of_pairwise'
        (List.pairwise_insertionSort _ _) (List.pairwise_insertionSort _ _)

omit [DecidableEq κ] in
/-- Every key is enumerated. -/
theorem mem_sortedKeys [LinearOrder κ] {m : HashMap κ α} {k : κ} :
    k ∈ sortedKeys m ↔ k ∈ m := by
  rw [← Finmap.mem_keys, ← Finset.mem_val, sortedKeys]
  induction m.keys.val using Quot.inductionOn with
  | h l => exact (List.perm_insertionSort _ _).mem_iff

end LastWrite
