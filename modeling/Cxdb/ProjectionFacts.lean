import Cxdb.Projection

/-!
# What a Projection Holds

The two objects that a projection makes of a map: the fields of its type, under their names,
and what stands under other tags, under these.

## Main results

* `exists_lookup_projected`: a field of the type that the map has is shown.
* `lookup_unknown`, `lookup_unknown_none`: exactly the other tags are reported as unknown.
* `renderTypeRef_eq`: a nested object is these two, one within the other.
-/

open ByteFormat IterationOrder

namespace Cxdb.Projection

variable (crates : PayloadCrates) (options : RenderOptions) (registry : Registry)
  (order : HashOrder)

/-- The fields of a type that a map has, as they are shown. -/
def projectedFields (desc : TypeVersionSpec) (place : List String)
    (map : HashMap UInt64 MsgpackValue) : List (String × JsonValue) :=
  collectFields order desc place fun tag field =>
    (map.lookup tag).map fun val => renderFieldValue crates options registry order val field

/-- The entries of a map under their tags. -/
def tagMap (entries : List (MsgpackValue × MsgpackValue)) : HashMap UInt64 MsgpackValue :=
  LastWrite.insertAll Prod.fst Prod.snd ∅ (entries.filterMap taggedEntry)

theorem normalizeTags_map (entries : List (MsgpackValue × MsgpackValue)) :
    normalizeTags (.map entries) = .ok (tagMap entries) := rfl

/-- What the entries of a map are projected to. -/
def projection (desc : TypeVersionSpec) (map : HashMap UInt64 MsgpackValue) :
    ProjectionResult where
  data := .object (projectedFields crates options registry order desc [] map)
  unknown :=
    if options.includeUnknown then
      some (.object (unknownFields crates options order desc ["_unknown"] map))
    else none

variable {crates options registry order} {desc : TypeVersionSpec} {place : List String}
  {map : HashMap UInt64 MsgpackValue} {tag : UInt64} {field : FieldSpec} {val : MsgpackValue}

theorem projectMsgpack_eq {payload : Bytes} {entries : List (MsgpackValue × MsgpackValue)}
    (h : crates.readValue payload = .ok (.map entries)) :
    projectMsgpack crates options registry order payload desc =
      .ok (projection crates options registry order desc (tagMap entries)) := by
  rw [projectMsgpack, h]
  rfl

/-! ### Fields -/

variable (crates options registry order desc place map) in
/-- The fields that are shown, in the order in which they are met. -/
def projectedEntries : List (String × JsonValue) :=
  (entriesIn desc.fields (order.numbers place desc.fields.keys)).filterMap fun entry =>
    ((map.lookup entry.1).map fun val =>
      renderFieldValue crates options registry order val entry.2).map (entry.2.name, ·)

theorem projectedFields_eq :
    projectedFields crates options registry order desc place map =
      insertFields (projectedEntries crates options registry order desc place map) := by
  rw [projectedFields, collectFields, projectedEntries, ← foldl_insertField]
  congr 1
  funext data ⟨tag, field⟩
  dsimp only
  cases map.lookup tag <;> rfl

theorem mem_projectedEntries {name : String} {out : JsonValue} :
    (name, out) ∈ projectedEntries crates options registry order desc place map ↔
      ∃ tag field val, desc.fields.lookup tag = some field ∧ map.lookup tag = some val ∧
        field.name = name ∧ renderFieldValue crates options registry order val field = out := by
  simp only [projectedEntries, List.mem_filterMap, Option.map_eq_some_iff, Prod.exists,
    Prod.mk.injEq, mem_entriesIn (order.numbers_list place desc.fields.keys)]
  constructor
  · rintro ⟨tag, field, hfield, out', ⟨val, hval, hout⟩, hname, rfl⟩
    exact ⟨tag, field, val, hfield, hval, hname, hout⟩
  · rintro ⟨tag, field, val, hfield, hval, hname, hout⟩
    exact ⟨tag, field, hfield, out, ⟨val, hval, hout⟩, hname, rfl⟩

variable (crates options registry order place) in
/-- **A field that the map has is shown**, if no field of its name is shown in its place. -/
theorem exists_lookup_projected (hfield : desc.fields.lookup tag = some field)
    (hval : map.lookup tag = some val) :
    ∃ tag' field' val', desc.fields.lookup tag' = some field' ∧ map.lookup tag' = some val' ∧
      field'.name = field.name ∧
      (projectedFields crates options registry order desc place map).lookup field.name =
        some (renderFieldValue crates options registry order val' field') := by
  have hmem : (field.name, renderFieldValue crates options registry order val field) ∈
      projectedEntries crates options registry order desc place map :=
    mem_projectedEntries.mpr ⟨tag, field, val, hfield, hval, rfl, rfl⟩
  obtain ⟨out, hout, hlookup⟩ := exists_lookup_insertFields
    (List.mem_map_of_mem (f := Prod.fst) hmem)
  obtain ⟨tag', field', val', hfield', hval', hname, rfl⟩ := mem_projectedEntries.mp hout
  rw [projectedFields_eq]
  exact ⟨tag', field', val', hfield', hval', hname, hlookup⟩

theorem lookup_projected_none {name : String}
    (h : ∀ tag field, desc.fields.lookup tag = some field → tag ∈ map → field.name ≠ name) :
    (projectedFields crates options registry order desc place map).lookup name = none := by
  rw [projectedFields_eq]
  refine lookup_insertFields_none fun hmem => ?_
  obtain ⟨⟨name', out⟩, hout, rfl⟩ := List.mem_map.mp hmem
  obtain ⟨tag, field, val, hfield, hval, hname, -⟩ := mem_projectedEntries.mp hout
  exact h tag field hfield (Finmap.mem_of_lookup_eq_some hval) hname

/-! ### Unknown tags -/

theorem print_injective {tag tag' : UInt64}
    (h : Decimal.print tag.toNat = Decimal.print tag'.toNat) : tag = tag' := by
  have heq := Decimal.parseU64_print tag
  rw [h, Decimal.parseU64_print] at heq
  exact (Option.some.inj heq).symm

/-- An entry that is reported, under its tag. -/
def unknownEntry (crates : PayloadCrates) (options : RenderOptions) (desc : TypeVersionSpec)
    (entry : UInt64 × MsgpackValue) : Option (String × JsonValue) :=
  if entry.1 ∈ desc.fields then none
  else some (Decimal.print entry.1.toNat, renderValue crates options entry.2)

theorem unknownFields_eq :
    unknownFields crates options order desc place map =
      insertFields ((entriesIn map (order.numbers place map.keys)).filterMap
        (unknownEntry crates options desc)) := by
  rw [← foldl_insertField, unknownFields]
  congr 1
  funext unknown ⟨tag, value⟩
  by_cases htag : tag ∈ desc.fields
  · simp only [unknownEntry, if_pos htag]
  · simp only [unknownEntry, if_neg htag]

theorem mem_unknownEntries {name : String} {out : JsonValue} :
    (name, out) ∈ (entriesIn map (order.numbers place map.keys)).filterMap
        (unknownEntry crates options desc) ↔
      ∃ tag val, map.lookup tag = some val ∧ tag ∉ desc.fields ∧
        Decimal.print tag.toNat = name ∧ renderValue crates options val = out := by
  simp only [List.mem_filterMap, Prod.exists, mem_entriesIn (order.numbers_list place map.keys)]
  constructor
  · rintro ⟨tag, val, hval, hentry⟩
    rw [unknownEntry] at hentry
    split_ifs at hentry with htag
    obtain ⟨hname, hout⟩ := Prod.mk.inj (Option.some.inj hentry)
    exact ⟨tag, val, hval, htag, hname, hout⟩
  · rintro ⟨tag, val, hval, htag, hname, hout⟩
    exact ⟨tag, val, hval, by rw [unknownEntry, if_neg htag, hname, hout]⟩

/-- **A tag of the type is not reported as unknown.** -/
theorem lookup_unknown_none (h : tag ∈ desc.fields) :
    (unknownFields crates options order desc place map).lookup (Decimal.print tag.toNat) =
      none := by
  rw [unknownFields_eq]
  refine lookup_insertFields_none fun hmem => ?_
  obtain ⟨⟨name, out⟩, hout, hname⟩ := List.mem_map.mp hmem
  obtain ⟨tag', val, -, htag', hprint, -⟩ := mem_unknownEntries.mp hout
  exact htag' (print_injective (hprint.trans hname) ▸ h)

theorem keys_unknownEntries (entries : List (UInt64 × MsgpackValue)) :
    (entries.filterMap (unknownEntry crates options desc)).map Prod.fst =
      ((entries.map Prod.fst).filter (· ∉ desc.fields)).map fun tag =>
        Decimal.print tag.toNat := by
  induction entries with
  | nil => rfl
  | cons entry entries ih =>
      by_cases htag : entry.1 ∈ desc.fields
      · rw [List.filterMap_cons, unknownEntry, if_pos htag, List.map_cons,
          List.filter_cons_of_neg (by simp [htag]), ih]
      · rw [List.filterMap_cons, unknownEntry, if_neg htag, List.map_cons, List.map_cons,
          List.filter_cons_of_pos (by simp [htag]), List.map_cons, ih]

theorem nodup_unknownEntries :
    (((entriesIn map (order.numbers place map.keys)).filterMap
      (unknownEntry crates options desc)).map Prod.fst).Nodup := by
  rw [keys_unknownEntries]
  exact ((entriesIn_nodup (order.numbers_list place map.keys)).filter _).map fun _ _ =>
    print_injective

/-- **Another tag is.** -/
theorem lookup_unknown (hval : map.lookup tag = some val) (h : tag ∉ desc.fields) :
    (unknownFields crates options order desc place map).lookup (Decimal.print tag.toNat) =
      some (renderValue crates options val) := by
  rw [unknownFields_eq]
  exact lookup_insertFields nodup_unknownEntries
    (mem_unknownEntries.mpr ⟨tag, val, hval, h, rfl, rfl⟩)

theorem unknown_eq_nil (h : ∀ tag val, map.lookup tag = some val → tag ∈ desc.fields) :
    unknownFields crates options order desc place map = [] := by
  rw [unknownFields_eq, List.filterMap_eq_nil_iff.mpr]
  · rfl
  · intro entry hentry
    exact if_pos (h _ _ ((mem_entriesIn (order.numbers_list place map.keys)).mp hentry))

/-! ### Nested objects -/

/-- **A nested object**: its fields, and the unknown tags among them. -/
theorem renderTypeRef_eq {value : MsgpackValue} {typeRef : String}
    (hdesc : registry.getLatestTypeVersion typeRef = some desc)
    (hmap : normalizeTags value = .ok map) :
    renderTypeRef crates options registry order value typeRef =
      let data := projectedFields crates options registry order desc [typeRef] map
      let unknown := unknownFields crates options order desc ["_unknown", typeRef] map
      if options.includeUnknown = true ∧ unknown ≠ [] then
        .object (insertField "_unknown" (.object unknown) data)
      else .object data := by
  have hloop : ∀ (desc : TypeVersionSpec) (f g : UInt64 → FieldSpec → Option JsonValue),
      (∀ tag field, f tag field = g tag field) →
      collectFields order desc [typeRef] f = collectFields order desc [typeRef] g :=
    fun _ f g h => by rw [funext fun tag => funext (h tag)]
  rw [renderTypeRef]
  split
  · next desc' map' h hmap' =>
    obtain rfl := Option.some.inj (h.symm.trans hdesc)
    obtain rfl := Except.ok.inj (hmap'.symm.trans hmap)
    rw [hloop desc' _ (fun tag field => (map'.lookup tag).map fun val =>
      renderFieldValue crates options registry order val field) fun tag field => ?_]
    · rfl
    · split
      · next val h => rw [h]; rfl
      · next h => rw [h]; rfl
  · next h => exact absurd hmap (h _ _ hdesc)

end Cxdb.Projection
