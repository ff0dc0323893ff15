import Mathlib.Data.List.Induction
import Mathlib.Data.List.Nodup
import Cxdb.JsonValue

/-!
# Building Objects

An object that is built by inserting its fields one after another. Of two fields of one name
the later one stays; a field of a new name leaves the others as they are.

## Main results

* `exists_lookup_insertFields`: every name that was inserted is found, with one of its values.
* `lookup_insertFields`: with distinct names every value is found.
* `keys_insertFields`: with distinct names the object has these names, each once.
-/

namespace Cxdb

/-- `Map::insert`: the entries stay in the order of their keys. -/
def insertField (key : String) (value : JsonValue) :
    List (String × JsonValue) → List (String × JsonValue)
  | [] => [(key, value)]
  | (k, v) :: fields =>
      if key < k then (key, value) :: (k, v) :: fields
      else if key = k then (key, value) :: fields
      else (k, v) :: insertField key value fields

/-- The object of some fields. -/
def insertFields (entries : List (String × JsonValue)) : List (String × JsonValue) :=
  entries.foldl (fun fields entry => insertField entry.1 entry.2 fields) []

theorem insertFields_concat (entries : List (String × JsonValue)) (entry : String × JsonValue) :
    insertFields (entries ++ [entry]) = insertField entry.1 entry.2 (insertFields entries) := by
  simp [insertFields]

/-- A loop that inserts some of its fields. -/
theorem foldl_insertField {β : Type} (f : β → Option (String × JsonValue)) (bs : List β) :
    bs.foldl (fun fields b =>
      match f b with
      | some entry => insertField entry.1 entry.2 fields
      | none => fields) [] = insertFields (bs.filterMap f) := by
  induction bs using List.reverseRecOn with
  | nil => rfl
  | append_singleton bs b ih =>
      rw [List.foldl_append, ih, List.filterMap_append]
      simp only [List.foldl_cons, List.foldl_nil, List.filterMap_cons, List.filterMap_nil]
      cases f b with
      | none => simp
      | some entry => exact (insertFields_concat _ _).symm

theorem lookup_cons_eq (key name : String) (value : JsonValue)
    (fields : List (String × JsonValue)) :
    ((key, value) :: fields).lookup name = if name = key then some value else fields.lookup name := by
  rw [List.lookup_cons]
  by_cases h : name = key
  · rw [beq_iff_eq.mpr h, if_pos h]
  · rw [beq_eq_false_iff_ne.mpr h, if_neg h]

theorem lookup_insertField (key name : String) (value : JsonValue)
    (fields : List (String × JsonValue)) :
    (insertField key value fields).lookup name =
      if name = key then some value else fields.lookup name := by
  induction fields with
  | nil => exact lookup_cons_eq key name value []
  | cons entry fields ih =>
      obtain ⟨k, v⟩ := entry
      by_cases hlt : key < k
      · rw [insertField, if_pos hlt, lookup_cons_eq]
      · by_cases heq : key = k
        · subst heq
          rw [insertField, if_neg hlt, if_pos rfl, lookup_cons_eq, lookup_cons_eq]
          by_cases hname : name = key
          · rw [if_pos hname, if_pos hname]
          · rw [if_neg hname, if_neg hname, if_neg hname]
        · rw [insertField, if_neg hlt, if_neg heq, lookup_cons_eq, ih, lookup_cons_eq]
          by_cases hname : name = key
          · rw [if_pos hname, if_neg fun h => heq (hname.symm.trans h), if_pos hname]
          · rw [if_neg hname, if_neg hname]

theorem keys_insertField (value : JsonValue) {key : String} {fields : List (String × JsonValue)}
    (h : key ∉ fields.map Prod.fst) :
    ((insertField key value fields).map Prod.fst).Perm (key :: fields.map Prod.fst) := by
  induction fields with
  | nil => exact .refl _
  | cons entry fields ih =>
      obtain ⟨k, v⟩ := entry
      simp only [List.map_cons, List.mem_cons, not_or] at h
      rw [insertField]
      split_ifs with hlt
      · exact .refl _
      · exact absurd ‹key = k› h.1
      · exact ((ih h.2).cons k).trans (.swap key k _)

/-- Every name that was inserted is found, with one of its values. -/
theorem exists_lookup_insertFields {entries : List (String × JsonValue)} {name : String}
    (h : name ∈ entries.map Prod.fst) :
    ∃ value, (name, value) ∈ entries ∧ (insertFields entries).lookup name = some value := by
  induction entries using List.reverseRecOn with
  | nil => cases h
  | append_singleton entries entry ih =>
      rw [insertFields_concat, lookup_insertField]
      by_cases hname : name = entry.1
      · exact ⟨entry.2, by simp [hname], if_pos hname⟩
      · have hmem : name ∈ entries.map Prod.fst := by
          rw [List.map_append, List.mem_append] at h
          exact h.resolve_right fun h => hname (List.mem_singleton.mp h)
        obtain ⟨value, hvalue, hlookup⟩ := ih hmem
        exact ⟨value, by simp [hvalue], by rw [if_neg hname, hlookup]⟩

theorem lookup_insertFields_none {entries : List (String × JsonValue)} {name : String}
    (h : name ∉ entries.map Prod.fst) : (insertFields entries).lookup name = none := by
  induction entries using List.reverseRecOn with
  | nil => rfl
  | append_singleton entries entry ih =>
      simp only [List.map_append, List.map_cons, List.map_nil, List.mem_append,
        List.mem_singleton, not_or] at h
      rw [insertFields_concat, lookup_insertField, if_neg h.2, ih h.1]

/-- **With distinct names every value is found.** -/
theorem lookup_insertFields {entries : List (String × JsonValue)}
    (hnodup : (entries.map Prod.fst).Nodup) {name : String} {value : JsonValue}
    (h : (name, value) ∈ entries) : (insertFields entries).lookup name = some value := by
  obtain ⟨value', hmem, hlookup⟩ := exists_lookup_insertFields (List.mem_map_of_mem (f := Prod.fst) h)
  have heq := List.inj_on_of_nodup_map hnodup h hmem rfl
  rw [hlookup, (Prod.mk.inj heq).2]

/-- **With distinct names** the object has these names, each once. -/
theorem keys_insertFields {entries : List (String × JsonValue)}
    (hnodup : (entries.map Prod.fst).Nodup) :
    ((insertFields entries).map Prod.fst).Perm (entries.map Prod.fst) := by
  induction entries using List.reverseRecOn with
  | nil => exact .refl _
  | append_singleton entries entry ih =>
      rw [List.map_append, List.map_cons, List.map_nil] at hnodup ⊢
      have hold := (List.nodup_append.mp hnodup).1
      have hnew : entry.1 ∉ entries.map Prod.fst := fun h =>
        (List.nodup_append.mp hnodup).2.2 _ h _ List.mem_cons_self rfl
      rw [insertFields_concat]
      have hkeys := keys_insertField entry.2 fun h => hnew ((ih hold).mem_iff.mp h)
      exact hkeys.trans (((ih hold).cons _).trans (List.perm_append_singleton _ _).symm)

end Cxdb
