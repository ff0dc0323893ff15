import Cxdb.PayloadRoundTrip

/-!
# Every Tag Is Shown

A projection that reports unknown tags shows each tag of a payload once: a tag of the type
under the name of its field, another one under its number. The objects below say what is
unknown within themselves, and the one at the root beside itself.

## Main results

* `accounts_projected`: what a map of tags is projected to accounts for every tag.
* `projection_accounts`: so does every object that the payload reaches.
-/

open ByteFormat IterationOrder

namespace Cxdb

open Projection

/-! ### Maps of tags -/

/-- The entries of a map. -/
abbrev MsgpackEntries := List (MsgpackValue × MsgpackValue)

/-- The tags of a map. -/
def entryTags (entries : MsgpackEntries) : List UInt64 :=
  entries.filterMap fun entry => keyToTag entry.1

/-- Every key spells a number, and no two keys the same one. -/
structure NumericTags (entries : MsgpackEntries) : Prop where
  numeric : ∀ entry ∈ entries, (keyToTag entry.1).isSome = true
  distinct : (entryTags entries).Nodup

/-- The fields of a type have names of their own, and none has that of the unknown tags. -/
structure NamedFields (desc : TypeVersionSpec) : Prop where
  distinct : ∀ tag tag' field field', desc.fields.lookup tag = some field →
    desc.fields.lookup tag' = some field' → field.name = field'.name → tag = tag'
  free : ∀ tag field, desc.fields.lookup tag = some field → field.name ≠ "_unknown"

/-- The names of the tags that the type has. -/
def knownNames (desc : TypeVersionSpec) (entries : MsgpackEntries) : List String :=
  (entryTags entries).filterMap fun tag => (desc.fields.lookup tag).map FieldSpec.name

/-- The other tags, as decimal numbers. -/
def otherTags (desc : TypeVersionSpec) (entries : MsgpackEntries) : List String :=
  ((entryTags entries).filter (· ∉ desc.fields)).map fun tag => Decimal.print tag.toNat

/-- **The maps that a map reaches**: itself, and through a field with a reference, or an item
of a field whose items have one, what that one reaches, each with the type that it is
projected with. -/
inductive ReachesMap (registry : Registry) :
    TypeVersionSpec → MsgpackEntries → List PathStep → TypeVersionSpec → MsgpackEntries → Prop
  | refl {desc entries} : ReachesMap registry desc entries [] desc entries
  | field {desc entries key tag field typeRef desc' entries' path desc'' entries''}
      (hentry : (key, .map entries') ∈ entries) (htag : keyToTag key = some tag)
      (hfield : desc.fields.lookup tag = some field) (htarget : field.target = some typeRef)
      (hdesc : registry.getLatestTypeVersion typeRef = some desc')
      (hrest : ReachesMap registry desc' entries' path desc'' entries'') :
      ReachesMap registry desc entries (.field field.name :: path) desc'' entries''
  | item {desc entries key tag field typeRef desc' items index entries' path desc'' entries''}
      (hentry : (key, .array items) ∈ entries) (htag : keyToTag key = some tag)
      (hfield : desc.fields.lookup tag = some field) (htarget : field.itemTarget = some typeRef)
      (hdesc : registry.getLatestTypeVersion typeRef = some desc')
      (hitem : items[index]? = some (.map entries'))
      (hrest : ReachesMap registry desc' entries' path desc'' entries'') :
      ReachesMap registry desc entries (.field field.name :: .item index :: path) desc'' entries''

/-- Every map that is reached has numeric tags, and its type has names for its fields. -/
def WellTagged (registry : Registry) (desc : TypeVersionSpec) (entries : MsgpackEntries) : Prop :=
  ∀ path desc' entries', ReachesMap registry desc entries path desc' entries' →
    NamedFields desc' ∧ NumericTags entries'

section

variable (crates : PayloadCrates) (options : RenderOptions) (registry : Registry)
  (order : HashOrder)

/-- **Every tag is accounted for**, once: what the type has under its name, with its value as
the field shows it, and anything else under its number, with its value as it is. -/
structure Accounts (desc : TypeVersionSpec) (entries : MsgpackEntries)
    (data unknown : JsonFields) : Prop where
  names : (data.map Prod.fst).Perm (knownNames desc entries)
  names_once : (data.map Prod.fst).Nodup
  free : "_unknown" ∉ data.map Prod.fst
  others : (unknown.map Prod.fst).Perm (otherTags desc entries)
  others_once : (unknown.map Prod.fst).Nodup
  field : ∀ entry ∈ entries, ∀ tag field, keyToTag entry.1 = some tag →
    desc.fields.lookup tag = some field →
      data.lookup field.name = some (renderFieldValue crates options registry order entry.2 field)
  other : ∀ entry ∈ entries, ∀ tag, keyToTag entry.1 = some tag → tag ∉ desc.fields →
    unknown.lookup (Decimal.print tag.toNat) = some (renderValue crates options entry.2)

/-- An object with its unknown tags among its fields, if there are any. -/
def withUnknown (data unknown : JsonFields) : JsonFields :=
  if unknown = [] then data else insertField "_unknown" (.object unknown) data

/-- A nested object that accounts for every tag. -/
def ShowsTags (desc : TypeVersionSpec) (entries : MsgpackEntries) (v : JsonValue) : Prop :=
  ∃ data unknown, v = .object (withUnknown data unknown) ∧
    Accounts crates options registry order desc entries data unknown

end

variable {crates : PayloadCrates} {options : RenderOptions} {registry : Registry}
  {order : HashOrder} {desc : TypeVersionSpec} {entries : MsgpackEntries}

/-! ### One object -/

theorem mem_entryTags {tag : UInt64} :
    tag ∈ entryTags entries ↔ ∃ entry ∈ entries, keyToTag entry.1 = some tag :=
  List.mem_filterMap

/-- What is found under a tag is the value of its entry. -/
theorem lookup_tagMap_entry (htags : NumericTags entries)
    {entry : MsgpackValue × MsgpackValue} (hentry : entry ∈ entries) {tag : UInt64}
    (htag : keyToTag entry.1 = some tag) : (tagMap entries).lookup tag = some entry.2 := by
  have hdistinct : ((entries.filterMap taggedEntry).map Prod.fst).Nodup := by
    rw [List.map_filterMap]
    have hfst : ∀ entry, (taggedEntry entry).map Prod.fst = keyToTag entry.1 := by
      intro entry
      rw [taggedEntry]
      cases keyToTag entry.1 <;> rfl
    simp only [hfst]
    exact htags.distinct
  have hmem : (tag, entry.2) ∈ entries.filterMap taggedEntry :=
    List.mem_filterMap.mpr ⟨entry, hentry, by rw [taggedEntry, htag]; rfl⟩
  refine LastWrite.lookup_insertAll_of_unique (b := (tag, entry.2)) hmem fun c hc heq => ?_
  rw [List.inj_on_of_nodup_map hdistinct hc hmem heq]

theorem exists_entry_of_lookup {tag : UInt64} {val : MsgpackValue}
    (h : (tagMap entries).lookup tag = some val) :
    ∃ entry ∈ entries, keyToTag entry.1 = some tag ∧ entry.2 = val := by
  rcases LastWrite.exists_of_lookup_insertAll h with ⟨c, hc, rfl, rfl⟩ | hempty
  · obtain ⟨entry, hentry, hc⟩ := List.mem_filterMap.mp hc
    obtain ⟨tag, htag, rfl⟩ := Option.map_eq_some_iff.mp hc
    exact ⟨entry, hentry, htag, rfl⟩
  · simp at hempty

theorem nodup_knownNames (hnames : NamedFields desc) (htags : NumericTags entries) :
    (knownNames desc entries).Nodup := by
  refine htags.distinct.filterMap fun tag tag' name hname hname' => ?_
  obtain ⟨field, hfield, rfl⟩ := Option.map_eq_some_iff.mp hname
  obtain ⟨field', hfield', hsame⟩ := Option.map_eq_some_iff.mp hname'
  exact hnames.distinct tag tag' field field' hfield hfield' hsame.symm

/-- The names of the fields that are shown. -/
theorem names_projectedEntries (place : List String) (map : HashMap UInt64 MsgpackValue) :
    (projectedEntries crates options registry order desc place map).map Prod.fst =
      (order.numbers place desc.fields.keys).filterMap fun tag =>
        (desc.fields.lookup tag).bind fun field => (map.lookup tag).map fun _ => field.name := by
  rw [projectedEntries, entriesIn, List.filterMap_filterMap, List.map_filterMap]
  refine List.filterMap_congr fun tag _ => ?_
  cases desc.fields.lookup tag with
  | none => rfl
  | some field =>
      rw [Option.map_some, Option.bind_some, Option.bind_some]
      cases map.lookup tag <;> rfl

theorem nodup_projectedEntries (hnames : NamedFields desc) (place : List String)
    (map : HashMap UInt64 MsgpackValue) :
    ((projectedEntries crates options registry order desc place map).map Prod.fst).Nodup := by
  rw [names_projectedEntries]
  refine (order.numbers_list place _).nodup.filterMap fun tag tag' name hname hname' => ?_
  obtain ⟨field, hfield, hmap⟩ := Option.bind_eq_some_iff.mp hname
  obtain ⟨field', hfield', hmap'⟩ := Option.bind_eq_some_iff.mp hname'
  obtain ⟨-, -, rfl⟩ := Option.map_eq_some_iff.mp hmap
  obtain ⟨-, -, hsame⟩ := Option.map_eq_some_iff.mp hmap'
  exact hnames.distinct tag tag' field field' hfield hfield' hsame.symm

variable (crates options registry order) in
/-- **What a map of tags is projected to** accounts for every tag. -/
theorem accounts_projected (hnames : NamedFields desc) (htags : NumericTags entries)
    (place place' : List String) :
    Accounts crates options registry order desc entries
      (projectedFields crates options registry order desc place (tagMap entries))
      (unknownFields crates options order desc place' (tagMap entries)) := by
  have hprojected : ((projectedEntries crates options registry order desc place
      (tagMap entries)).map Prod.fst).Nodup := nodup_projectedEntries hnames place _
  have hkeys := keys_insertFields hprojected
  have hmem : ∀ name, name ∈ (projectedEntries crates options registry order desc place
      (tagMap entries)).map Prod.fst ↔ name ∈ knownNames desc entries := by
    intro name
    rw [knownNames, List.mem_filterMap, List.mem_map]
    constructor
    · rintro ⟨⟨name, out⟩, hout, rfl⟩
      obtain ⟨tag, field, val, hfield, hval, hname, -⟩ := mem_projectedEntries.mp hout
      obtain ⟨entry, hentry, htag, -⟩ := exists_entry_of_lookup hval
      exact ⟨tag, mem_entryTags.mpr ⟨entry, hentry, htag⟩, by rw [hfield, ← hname]; rfl⟩
    · rintro ⟨tag, hmem, hname⟩
      obtain ⟨entry, hentry, htag⟩ := mem_entryTags.mp hmem
      obtain ⟨field, hfield, hname⟩ := Option.map_eq_some_iff.mp hname
      exact ⟨(name, _), mem_projectedEntries.mpr ⟨tag, field, entry.2, hfield,
        lookup_tagMap_entry htags hentry htag, hname, rfl⟩, rfl⟩
  have hunknown : (((entriesIn (tagMap entries)
      (order.numbers place' (tagMap entries).keys)).filterMap
        (unknownEntry crates options desc)).map Prod.fst).Nodup := nodup_unknownEntries
  have hothers := keys_insertFields hunknown
  rw [← projectedFields_eq] at hkeys
  rw [← unknownFields_eq] at hothers
  refine ⟨hkeys.trans ((List.perm_ext_iff_of_nodup hprojected (nodup_knownNames hnames htags)).mpr
      hmem), hkeys.nodup_iff.mpr hprojected, fun h => ?_, hothers.trans ?_,
    hothers.nodup_iff.mpr hunknown, fun entry hentry tag field htag hfield => ?_,
    fun entry hentry tag htag hnew =>
      lookup_unknown (lookup_tagMap_entry htags hentry htag) hnew⟩
  · obtain ⟨tag, -, hname⟩ := List.mem_filterMap.mp ((hmem _).mp (hkeys.mem_iff.mp h))
    obtain ⟨field, hfield, hname⟩ := Option.map_eq_some_iff.mp hname
    exact hnames.free tag field hfield hname
  · -- the tags of the map are those of its entries
    rw [keys_unknownEntries, keys_entriesIn (order.numbers_list place' _), otherTags]
    refine List.Perm.map _ (List.Perm.filter _ ?_)
    refine (List.perm_ext_iff_of_nodup (order.numbers_list place' _).nodup htags.distinct).mpr
      fun tag => ?_
    rw [(order.numbers_list place' _).mem_iff, Finmap.mem_keys, Finmap.mem_iff, mem_entryTags]
    constructor
    · rintro ⟨val, hval⟩
      obtain ⟨entry, hentry, htag, -⟩ := exists_entry_of_lookup hval
      exact ⟨entry, hentry, htag⟩
    · rintro ⟨entry, hentry, htag⟩
      exact ⟨entry.2, lookup_tagMap_entry htags hentry htag⟩
  · rw [projectedFields_eq]
    exact lookup_insertFields hprojected (mem_projectedEntries.mpr
      ⟨tag, field, entry.2, hfield, lookup_tagMap_entry htags hentry htag, rfl, rfl⟩)

/-! ### Every object -/

theorem lookup_withUnknown {data : JsonFields} (unknown : JsonFields) {name : String}
    (h : name ≠ "_unknown") : (withUnknown data unknown).lookup name = data.lookup name := by
  rw [withUnknown]
  split
  · rfl
  · rw [lookup_insertField, if_neg h]

variable (crates order) in
/-- A nested object accounts for the tags of the map that it is rendered from. -/
theorem renderTypeRef_tags (hunknown : options.includeUnknown = true) {typeRef : String}
    (hdesc : registry.getLatestTypeVersion typeRef = some desc) (hnames : NamedFields desc)
    (htags : NumericTags entries) :
    ShowsTags crates options registry order desc entries
      (renderTypeRef crates options registry order (.map entries) typeRef) := by
  refine ⟨_, _, ?_, accounts_projected crates options registry order hnames htags [typeRef]
    ["_unknown", typeRef]⟩
  rw [renderTypeRef_eq hdesc (normalizeTags_map entries), withUnknown]
  dsimp only
  by_cases h : unknownFields crates options order desc ["_unknown", typeRef] (tagMap entries) = []
  · rw [if_pos h, if_neg fun hand => hand.2 h]
  · rw [if_neg h, if_pos ⟨hunknown, h⟩]

/-- An object that shows the fields of its type. -/
def ShowsFields (crates : PayloadCrates) (options : RenderOptions) (registry : Registry)
    (order : HashOrder) (desc : TypeVersionSpec) (entries : MsgpackEntries) (v : JsonValue) :
    Prop :=
  ∀ entry ∈ entries, ∀ tag field, keyToTag entry.1 = some tag →
    desc.fields.lookup tag = some field →
      v.get field.name = some (renderFieldValue crates options registry order entry.2 field)

theorem ShowsTags.fields (hnames : NamedFields desc) {v : JsonValue}
    (h : ShowsTags crates options registry order desc entries v) :
    ShowsFields crates options registry order desc entries v := by
  obtain ⟨data, unknown, rfl, haccounts⟩ := h
  intro entry hentry tag field htag hfield
  rw [JsonValue.get, lookup_withUnknown unknown (hnames.free tag field hfield)]
  exact haccounts.field entry hentry tag field htag hfield

/-- **Every object that is reached shows its tags**, by induction on the path. -/
theorem ReachesMap.shown {path : List PathStep} {desc' : TypeVersionSpec}
    {entries' : MsgpackEntries} (h : ReachesMap registry desc entries path desc' entries')
    (hunknown : options.includeUnknown = true) (htagged : WellTagged registry desc entries)
    {below : Prop} {v : JsonValue}
    (hfields : ShowsFields crates options registry order desc entries v)
    (hshown : below → ShowsTags crates options registry order desc entries v) :
    ∃ v', v.follow path = some v' ∧
      (below ∨ path ≠ [] → ShowsTags crates options registry order desc' entries' v') := by
  induction h generalizing v below with
  | refl => exact ⟨v, rfl, fun h => hshown (h.resolve_right fun h => h rfl)⟩
  | @field desc entries key tag field typeRef desc₁ entries₁ path desc' entries' hentry htag
      hfield htarget hdesc hrest ih =>
      have hnext : WellTagged registry desc₁ entries₁ := fun path d e h =>
        htagged _ d e (.field hentry htag hfield htarget hdesc h)
      obtain ⟨hnames, htags⟩ := hnext [] desc₁ entries₁ .refl
      have hvalue := renderTypeRef_tags crates order hunknown hdesc hnames htags
      obtain ⟨v', hfollow, hshown'⟩ := ih hnext (hvalue.fields hnames) fun _ : True => hvalue
      refine ⟨v', ?_, fun _ => hshown' (.inl trivial)⟩
      rw [JsonValue.follow, hfields _ hentry tag field htag hfield,
        renderFieldValue_target (renderEnum_map _ field) htarget]
      exact hfollow
  | @item desc entries key tag field typeRef desc₁ items index entries₁ path desc' entries'
      hentry htag hfield htarget hdesc hitem hrest ih =>
      have hnext : WellTagged registry desc₁ entries₁ := fun path d e h =>
        htagged _ d e (.item hentry htag hfield htarget hdesc hitem h)
      obtain ⟨hnames, htags⟩ := hnext [] desc₁ entries₁ .refl
      have hvalue := renderTypeRef_tags crates order hunknown hdesc hnames htags
      obtain ⟨v', hfollow, hshown'⟩ := ih hnext (hvalue.fields hnames) fun _ : True => hvalue
      refine ⟨v', ?_, fun _ => hshown' (.inl trivial)⟩
      rw [JsonValue.follow, hfields _ hentry tag field htag hfield,
        renderFieldValue_refs htarget, Option.bind_some, JsonValue.follow, JsonValue.asArray,
        Option.bind_some, List.getElem?_map, hitem]
      exact hfollow

/-- **No tag is lost.** A map of tags is projected, with unknown tags reported: the result
accounts for every tag of the map, and so does the object at the path of every map that this
one reaches. -/
theorem projection_accounts {payload : Bytes} (hunknown : options.includeUnknown = true)
    (hread : crates.readValue payload = .ok (.map entries))
    (htagged : WellTagged registry desc entries) :
    ∃ data unknown, projectMsgpack crates options registry order payload desc =
        .ok { data := .object data, unknown := some (.object unknown) } ∧
      Accounts crates options registry order desc entries data unknown ∧
      ∀ path desc' entries', ReachesMap registry desc entries path desc' entries' → path ≠ [] →
        ∃ v, (JsonValue.object data).follow path = some v ∧
          ShowsTags crates options registry order desc' entries' v := by
  obtain ⟨hnames, htags⟩ := htagged [] desc entries .refl
  have haccounts := accounts_projected crates options registry order hnames htags [] ["_unknown"]
  refine ⟨_, _, ?_, haccounts, fun path desc' entries' h hpath => ?_⟩
  · rw [projectMsgpack_eq hread, projection, if_pos hunknown]
  · have hfields : ShowsFields crates options registry order desc entries (.object
        (projectedFields crates options registry order desc [] (tagMap entries))) :=
      haccounts.field
    obtain ⟨v, hfollow, hshown⟩ := h.shown hunknown htagged hfields False.elim
    exact ⟨v, hfollow, hshown (.inr hpath)⟩

/-! ### A map within a map -/

/-- A map with a field of its type, and another tag, which is written as text. -/
def taggedInner : MsgpackEntries :=
  [(.integer 1, .string (some "root")), (.string (some "9"), .boolean true)]

/-- A map with a reference to this one. -/
def taggedOuter : MsgpackEntries := [(.integer 13, .map taggedInner), (.integer 20, .nil)]

/-- The bytes of the two maps. -/
def taggedBytes : Bytes :=
  [0x82, 0x0d, 0x82, 0x01, 0xa4, 0x72, 0x6f, 0x6f, 0x74, 0xa1, 0x39, 0xc3, 0x14, 0xc0]

theorem namedFields_singleton {tag : UInt64} {field : FieldSpec} {version : UInt32}
    (h : field.name ≠ "_unknown") : NamedFields
      { version := version, fields := Finmap.singleton tag field, renderer := none } where
  distinct _ _ _ _ hfield hfield' _ := by
    rw [(of_lookup_singleton hfield).1, (of_lookup_singleton hfield').1]
  free _ _ hfield := (of_lookup_singleton hfield).2 ▸ h

/-- The tags of the two maps are numeric. -/
theorem wellTagged_outer :
    WellTagged (handoffRegistry "map") (outerType "map") taggedOuter := by
  have hinner : NamedFields innerType ∧ NumericTags taggedInner :=
    ⟨namedFields_singleton (by decide), by decide, by decide⟩
  intro path desc entries h
  cases h with
  | refl => exact ⟨namedFields_singleton (by decide), by decide, by decide⟩
  | field hentry htag hfield htarget hdesc hrest =>
      obtain ⟨-, rfl⟩ := of_lookup_singleton hfield
      obtain rfl : "test:Inner" = _ := Option.some.inj htarget
      rw [handoffRegistry_inner] at hdesc
      obtain rfl := Option.some.inj hdesc
      simp only [taggedOuter, List.mem_cons, Prod.mk.injEq, MsgpackValue.map.injEq,
        List.not_mem_nil, or_false, reduceCtorEq, and_false] at hentry
      obtain ⟨-, rfl⟩ := hentry
      cases hrest with
      | refl => exact hinner
      | field hentry htag hfield htarget =>
          obtain ⟨-, rfl⟩ := of_lookup_singleton hfield
          cases htarget
      | item hentry htag hfield htarget =>
          obtain ⟨-, rfl⟩ := of_lookup_singleton hfield
          cases htarget
  | item hentry htag hfield htarget =>
      obtain ⟨-, rfl⟩ := of_lookup_singleton hfield
      cases htarget

/-- The crates as they are on the two maps. -/
def taggedCrates : PayloadCrates := cratesFor (.map taggedOuter) taggedBytes

/-- The tags of the two maps are shown. -/
theorem projection_accounts_outer :
    ∃ data unknown, projectMsgpack taggedCrates defaultOptions (handoffRegistry "map") .sorted
        taggedBytes (outerType "map") =
          .ok { data := .object data, unknown := some (.object unknown) } ∧
      Accounts taggedCrates defaultOptions (handoffRegistry "map") .sorted (outerType "map")
        taggedOuter data unknown ∧
      ∀ path desc' entries', ReachesMap (handoffRegistry "map") (outerType "map") taggedOuter path
          desc' entries' → path ≠ [] →
        ∃ v, (JsonValue.object data).follow path = some v ∧
          ShowsTags taggedCrates defaultOptions (handoffRegistry "map") .sorted desc' entries' v :=
  projection_accounts rfl rfl wellTagged_outer

end Cxdb
