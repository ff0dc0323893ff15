import Mathlib.Data.List.ReduceOption
import Cxdb.ExceptLoops
import Cxdb.PayloadScalars

/-!
# Trees of Payloads

An object of a registered type holds objects of the types that its fields refer to, which hold
others. `Nested` reaches all of them, each at its path; what is asked of a payload is asked of
every object that it reaches.

## Main results

* `encodeObject_ok`: an object that conforms to its type is encoded, and every map in what it
  is encoded to has distinct keys.
-/

open ByteFormat IterationOrder ExceptLoops

namespace Cxdb

open Projection

/-! ### Reaching objects -/

/-- The entries of an object. -/
abbrev JsonFields := List (String × JsonValue)

/-- A step into a value. -/
inductive PathStep where
  | field (name : String)
  | item (index : ℕ)
  deriving DecidableEq

/-- The value at a path. -/
def JsonValue.follow : JsonValue → List PathStep → Option JsonValue
  | v, [] => some v
  | v, .field name :: path => (v.get name).bind fun w => w.follow path
  | v, .item index :: path => (v.asArray.bind (·[index]?)).bind fun w => w.follow path

/-- The type that the items of a field refer to. -/
def FieldSpec.itemTarget (field : FieldSpec) : Option String :=
  if field.fieldType = "array" then
    match field.items with
    | some (.ref typeRef) => some typeRef
    | _ => none
  else none

/-- The type of the items of a field. -/
def FieldSpec.itemType (field : FieldSpec) : Option String :=
  if field.fieldType = "array" then
    match field.items with
    | some (.simple itemType) => some itemType
    | _ => none
  else none

variable {crates : PayloadCrates} {options : RenderOptions} {registry : Registry}
  {order : HashOrder}

/-- **The objects that an object reaches**: itself, and through a field or an item of a field
what that one reaches, each with the type that the field refers to. -/
inductive Nested (registry : Registry) :
    TypeVersionSpec → JsonFields → List PathStep → TypeVersionSpec → JsonFields → Prop
  | refl {desc obj} : Nested registry desc obj [] desc obj
  | field {desc obj tag field typeRef desc' obj' path desc'' obj''}
      (hfield : desc.fields.lookup tag = some field) (htarget : field.target = some typeRef)
      (hdesc : registry.getLatestTypeVersion typeRef = some desc')
      (hvalue : obj.lookup field.name = some (.object obj'))
      (hrest : Nested registry desc' obj' path desc'' obj'') :
      Nested registry desc obj (.field field.name :: path) desc'' obj''
  | item {desc obj tag field typeRef desc' items index obj' path desc'' obj''}
      (hfield : desc.fields.lookup tag = some field) (htarget : field.itemTarget = some typeRef)
      (hdesc : registry.getLatestTypeVersion typeRef = some desc')
      (hvalue : obj.lookup field.name = some (.array items))
      (hitem : items[index]? = some (.object obj'))
      (hrest : Nested registry desc' obj' path desc'' obj'') :
      Nested registry desc obj (.field field.name :: .item index :: path) desc'' obj''

/-! ### Conforming objects -/

/-- A value that a field can have. -/
inductive FieldConforms (crates : PayloadCrates) (registry : Registry) (field : FieldSpec) :
    JsonValue → Prop
  | null : FieldConforms crates registry field .null
  | ref {typeRef desc obj} (htarget : field.target = some typeRef)
      (hdesc : registry.getLatestTypeVersion typeRef = some desc) :
      FieldConforms crates registry field (.object obj)
  | refs {typeRef desc items} (htarget : field.itemTarget = some typeRef)
      (hdesc : registry.getLatestTypeVersion typeRef = some desc)
      (hitems : ∀ item ∈ items, ∃ obj, item = .object obj) :
      FieldConforms crates registry field (.array items)
  | scalars {itemType items} (htype : field.itemType = some itemType)
      (hitems : ∀ item ∈ items, ∃ x, readScalar crates itemType item = some x) :
      FieldConforms crates registry field (.array items)
  | label {enumRef enumMap v} (href : field.enumRef = some enumRef)
      (hmap : registry.getEnum enumRef = some enumMap) (hv : IsEnumValue enumMap v) :
      FieldConforms crates registry field v
  | scalar {v x} (href : field.enumRef = none) (htarget : field.target = none)
      (hread : readScalar crates field.fieldType v = some x) :
      FieldConforms crates registry field v

/-- An object has the required fields of its type, and those that it has are of their types.
Nothing is asked of what it has beside them. -/
def ObjectConforms (crates : PayloadCrates) (registry : Registry) (desc : TypeVersionSpec)
    (obj : JsonFields) : Prop :=
  ∀ tag field, desc.fields.lookup tag = some field →
    match obj.lookup field.name with
    | some v => FieldConforms crates registry field v
    | none => field.optional = true

/-- Every object that the payload reaches conforms to its type. -/
def Conforms (crates : PayloadCrates) (registry : Registry) (desc : TypeVersionSpec)
    (obj : JsonFields) : Prop :=
  ∀ path desc' obj', Nested registry desc obj path desc' obj' →
    ObjectConforms crates registry desc' obj'

/-! ### Objects that are kept -/

/-- No two keys of an object are stored as one number, in a value that is stored as it is. -/
inductive JsonValue.SpellsOnce : JsonValue → Prop
  | null : SpellsOnce .null
  | bool (b) : SpellsOnce (.bool b)
  | number (n) : SpellsOnce (.number n)
  | string (s) : SpellsOnce (.string s)
  | array {items} (hitems : ∀ item ∈ items, item.SpellsOnce) : SpellsOnce (.array items)
  | object {fields : JsonFields} (hkeys : (fields.map fun entry => plainKey entry.1).Nodup)
      (hfields : ∀ entry ∈ fields, entry.2.SpellsOnce) : SpellsOnce (.object fields)

/-- A scalar of a field that is kept. -/
structure FieldKept (crates : PayloadCrates) (registry : Registry) (options : RenderOptions)
    (field : FieldSpec) (v : JsonValue) : Prop where
  label : ∀ enumRef enumMap, field.enumRef = some enumRef →
    registry.getEnum enumRef = some enumMap → EnumKept enumMap v
  scalar : field.enumRef = none → field.target = none →
    ScalarKept crates options field.fieldType v
  items : ∀ itemType items, field.itemType = some itemType → v = .array items →
    ∀ item ∈ items, ScalarKept crates options itemType item

/-- **The objects that are kept.** The encoder stores a map with a reference as it is, so that
it must not hold a field of its type. What an object has beside its fields must not be stored
under a tag that is taken; and a field of the name that unknown tags are reported under needs
that there are none. -/
structure ObjectKept (crates : PayloadCrates) (registry : Registry) (options : RenderOptions)
    (desc : TypeVersionSpec) (obj : JsonFields) : Prop where
  fields : ∀ tag field v, desc.fields.lookup tag = some field → obj.lookup field.name = some v →
    FieldKept crates registry options field v
  names : ∀ tag tag' field field', desc.fields.lookup tag = some field →
    desc.fields.lookup tag' = some field' → field.name = field'.name →
      (obj.lookup field.name).isSome = true → field = field'
  maps : ∀ tag field typeRef desc' obj', desc.fields.lookup tag = some field →
    field.fieldType = "map" → field.typeRef = some typeRef →
      registry.getLatestTypeVersion typeRef = some desc' →
        obj.lookup field.name = some (.object obj') →
          (∀ tag' field', desc'.fields.lookup tag' = some field' →
            obj'.lookup field'.name = none) ∧
          (JsonValue.object obj').SpellsOnce
  extra_free : ∀ entry ∈ extraFields obj desc, ∀ tag field,
    Decimal.parseU64 entry.1 = some tag → desc.fields.lookup tag = some field →
      obj.lookup field.name = none
  extra_once : ((extraFields obj desc).map fun entry => plainKey entry.1).Nodup
  extra_values : ∀ entry ∈ extraFields obj desc, entry.2.SpellsOnce

/-- The name that unknown tags are reported under is free, or there are none. -/
def UnknownFree (options : RenderOptions) (desc : TypeVersionSpec) (obj : JsonFields) : Prop :=
  options.includeUnknown = true → ∀ tag field, desc.fields.lookup tag = some field →
    field.name = "_unknown" → (obj.lookup field.name).isSome = true →
      ∀ entry ∈ extraFields obj desc, ∀ tag', Decimal.parseU64 entry.1 = some tag' →
        tag' ∈ desc.fields

/-- Every object that the payload reaches is kept; unknown tags have a name among the fields
only below the root. -/
def Kept (crates : PayloadCrates) (registry : Registry) (options : RenderOptions)
    (desc : TypeVersionSpec) (obj : JsonFields) : Prop :=
  ∀ path desc' obj', Nested registry desc obj path desc' obj' →
    ObjectKept crates registry options desc' obj' ∧
      (path ≠ [] → UnknownFree options desc' obj')

/-- Every map has distinct keys. -/
inductive MsgpackValue.DistinctTags : MsgpackValue → Prop
  | leaf {v} (harray : ∀ items, v ≠ .array items) (hmap : ∀ entries, v ≠ .map entries) :
      DistinctTags v
  | array {items} (hitems : ∀ item ∈ items, item.DistinctTags) : DistinctTags (.array items)
  | map {entries : List (MsgpackValue × MsgpackValue)} (hkeys : (entries.map Prod.fst).Nodup)
      (hentries : ∀ entry ∈ entries, entry.2.DistinctTags) : DistinctTags (.map entries)

/-! ### Encoding a field -/

theorem encodeFieldValue_ref {field : FieldSpec} {typeRef : String} {desc : TypeVersionSpec}
    (htype : field.fieldType = "ref") (href : field.typeRef = some typeRef)
    (hdesc : registry.getLatestTypeVersion typeRef = some desc) (obj : JsonFields) :
    encodeFieldValue crates registry order (.object obj) field =
      encodeObjectWithDescriptor crates registry order obj desc := by
  rw [encodeFieldValue.eq_def]
  simp only [encodeEnum_object, htype, href]
  rw [encodeRefValue, hdesc]

/-- A map is stored as it is, whatever it refers to. -/
theorem encodeFieldValue_map {field : FieldSpec} (htype : field.fieldType = "map")
    (obj : JsonFields) :
    encodeFieldValue crates registry order (.object obj) field =
      .ok (jsonToMsgpackValue (.object obj)) := by
  rw [encodeFieldValue.eq_def]
  simp only [encodeEnum_object, htype]
  rfl

theorem encodeFieldValue_refs {field : FieldSpec} {typeRef : String}
    (htarget : field.itemTarget = some typeRef) (items : List JsonValue) :
    encodeFieldValue crates registry order (.array items) field =
      (items.mapM fun item => encodeRefValue crates registry order item typeRef).map .array := by
  rw [FieldSpec.itemTarget] at htarget
  split_ifs at htarget with htype
  split at htarget
  · next typeRef' hitems =>
    obtain rfl := Option.some.inj htarget
    rw [encodeFieldValue.eq_def]
    simp only [encodeEnum_array, htype, hitems]
    rfl
  · cases htarget

theorem encodeFieldValue_items {field : FieldSpec} {itemType : String}
    (htype : field.itemType = some itemType) (items : List JsonValue) :
    encodeFieldValue crates registry order (.array items) field =
      (items.mapM fun item => encodeValueForType crates item itemType).map .array := by
  rw [FieldSpec.itemType] at htype
  split_ifs at htype with harray
  split at htype
  · next itemType' hitems =>
    obtain rfl := Option.some.inj htype
    rw [encodeFieldValue.eq_def]
    simp only [encodeEnum_array, harray, hitems]
    rfl
  · cases htype

theorem readScalar_array (v : JsonValue) : readScalar crates "array" v = none := by
  rw [readScalar]
  simp [unsignedTypes, signedTypes, timeTypes, bytesTypes]

theorem orInvalid_ok {α : Type} {value : Option α} {message message' : String} {a : α}
    (h : orInvalid value message = .ok a) : orInvalid value message' = .ok a := by
  cases value with
  | none => cases h
  | some b => exact h

/-- A field without an enum or a reference is stored as its type says, where this does. -/
theorem encodeFieldValue_of_type {field : FieldSpec} {v : JsonValue} {w : MsgpackValue}
    (henum : field.enumRef = none) (htarget : field.target = none) (hnull : v ≠ .null)
    (harray : field.fieldType ≠ "array")
    (h : encodeValueForType crates v field.fieldType = .ok w) :
    encodeFieldValue crates registry order v field = .ok w := by
  have hnoenum : encodeEnum registry order v field = none := by rw [encodeEnum, henum]
  rw [encodeFieldValue.eq_def]
  split
  · exact absurd rfl hnull
  · simp only [hnoenum]
    split
    case h_13 htype => exact absurd htype harray
    case h_14 htype =>
      rw [FieldSpec.target, if_pos (.inl htype)] at htarget
      rw [htarget]
      rw [htype] at h
      exact h
    case h_15 => exact h
    all_goals
      next htype =>
        rw [htype] at h
        first
        | exact orInvalid_ok h
        | exact h

theorem encodeFieldValue_scalar {field : FieldSpec} {v : JsonValue} {x : Scalar}
    (henum : field.enumRef = none) (htarget : field.target = none) (hnull : v ≠ .null)
    (hread : readScalar crates field.fieldType v = some x)
    (hi64 : field.fieldType = "i64" → ∀ s, v ≠ .string s) :
    encodeFieldValue crates registry order v field = .ok x.toMsgpack := by
  refine encodeFieldValue_of_type henum htarget hnull (fun htype => ?_)
    (encodeValueForType_scalar hread hi64)
  rw [htype, readScalar_array] at hread
  cases hread

theorem encodeFieldValue_label {field : FieldSpec} {enumRef : String} {enumMap : EnumMapping}
    {v : JsonValue} (href : field.enumRef = some enumRef)
    (hmap : registry.getEnum enumRef = some enumMap) (hv : IsEnumValue enumMap v)
    (hkept : EnumKept enumMap v) :
    ∃ n label, encodeFieldValue crates registry order v field = .ok (.integer n.toNat) ∧
      Labels enumMap v n label := by
  obtain ⟨n, label, hencode, hlabel⟩ := encodeEnum_label href hmap hv hkept
  refine ⟨n, label, ?_, hlabel⟩
  rw [encodeFieldValue.eq_def]
  split
  · rcases hlabel.2 with h | h <;> cases h
  · rw [hencode]

/-! ### Encoding an object -/

/-- What an object has of a field, encoded under the tag of the field. -/
def encodeTagged (crates : PayloadCrates) (registry : Registry) (order : HashOrder)
    (obj : JsonFields) (entry : UInt64 × FieldSpec) :
    Except StoreError (Option (MsgpackValue × MsgpackValue)) :=
  match obj.lookup entry.2.name with
  | some value =>
      (encodeFieldValue crates registry order value entry.2).map fun encoded =>
        some (.integer entry.1.toNat, encoded)
  | none =>
      if entry.2.optional then .ok none
      else .error (.invalidInput s!"missing required field: {entry.2.name}")

/-- What an object has beside its fields, as it is. -/
def encodeExtra (obj : JsonFields) (desc : TypeVersionSpec) : List (MsgpackValue × MsgpackValue) :=
  (extraFields obj desc).map fun entry => (plainKey entry.1, jsonToMsgpackValue entry.2)

theorem encodeObject_eq (obj : JsonFields) (desc : TypeVersionSpec) :
    encodeObjectWithDescriptor crates registry order obj desc =
      (desc.taggedFields.mapM (encodeTagged crates registry order obj)).map fun entries =>
        .map (entries.reduceOption ++ encodeExtra obj desc) := by
  have hloop : ∀ f g : UInt64 × FieldSpec →
      Except StoreError (Option (MsgpackValue × MsgpackValue)),
      (∀ entry, f entry = g entry) → desc.taggedFields.mapM f = desc.taggedFields.mapM g :=
    fun f g h => by rw [funext h]
  rw [encodeObjectWithDescriptor, hloop _ (encodeTagged crates registry order obj) fun entry => ?_]
  · rfl
  · rw [encodeTagged]
    split
    · next value h => simp only [h]
    · next h => simp only [h]

/-- Whether an object has a field. -/
def hasField (obj : JsonFields) (entry : UInt64 × FieldSpec) : Bool :=
  (obj.lookup entry.2.name).isSome

/-- The entries of the fields that an object has. -/
theorem keys_reduceOption {obj : JsonFields} {tagged : List (UInt64 × FieldSpec)}
    {rs : List (Option (MsgpackValue × MsgpackValue))}
    (h : List.Forall₂ (fun entry r => encodeTagged crates registry order obj entry = .ok r)
      tagged rs) :
    rs.reduceOption.map Prod.fst =
      (tagged.filter (hasField obj)).map fun entry => .integer entry.1.toNat := by
  induction h with
  | nil => rfl
  | @cons entry r tagged rs hr _ ih =>
      rw [encodeTagged] at hr
      cases hv : obj.lookup entry.2.name with
      | none =>
          rw [hv] at hr
          dsimp only at hr
          split_ifs at hr with hoptional
          obtain rfl := Except.ok.inj hr
          rw [List.reduceOption_cons_of_none, List.filter_cons_of_neg (by simp [hasField, hv]), ih]
      | some v =>
          rw [hv] at hr
          dsimp only at hr
          cases hw : encodeFieldValue crates registry order v entry.2 with
          | error e =>
              rw [hw] at hr
              cases hr
          | ok w =>
              rw [hw] at hr
              obtain rfl := Except.ok.inj hr
              rw [List.reduceOption_cons_of_some, List.filter_cons_of_pos (by simp [hasField, hv]),
                List.map_cons, List.map_cons, ih]

theorem lists_tagged (desc : TypeVersionSpec) :
    Lists desc.fields.keys (IterationOrder.sorted (· ≤ ·) desc.fields.keys) :=
  lists_sorted (· ≤ ·) _

theorem mem_taggedFields {desc : TypeVersionSpec} {tag : UInt64} {field : FieldSpec} :
    (tag, field) ∈ desc.taggedFields ↔ desc.fields.lookup tag = some field :=
  mem_entriesIn (lists_tagged desc)

theorem keyToTag_integer (tag : UInt64) : keyToTag (.integer tag.toNat) = some tag :=
  integerAsU64_toNat tag

theorem keyToTag_plainKey (key : String) : keyToTag (plainKey key) = Decimal.parseU64 key := by
  rw [plainKey]
  cases h : Decimal.parseU64 key with
  | some n => exact integerAsU64_toNat n
  | none => exact h

theorem toNat_integer_injective :
    Function.Injective fun entry : UInt64 => MsgpackValue.integer entry.toNat := by
  intro a b h
  have hnat : (a.toNat : ℤ) = b.toNat := MsgpackValue.integer.inj h
  exact UInt64.toNat_inj.mp (by omega)

/-- The fields of a type are stored under distinct keys. -/
theorem nodup_declared {desc : TypeVersionSpec} {obj : JsonFields}
    {rs : List (Option (MsgpackValue × MsgpackValue))}
    (hrs : List.Forall₂ (fun entry r => encodeTagged crates registry order obj entry = .ok r)
      desc.taggedFields rs) : (rs.reduceOption.map Prod.fst).Nodup := by
  have hnodup := entriesIn_nodup (lists_tagged desc)
  have hfilter : ((desc.taggedFields.filter (hasField obj)).map Prod.fst).Nodup :=
    hnodup.sublist (List.filter_sublist.map _)
  have hmap := hfilter.map toNat_integer_injective
  rw [List.map_map] at hmap
  rw [keys_reduceOption hrs]
  exact hmap

/-- **The keys of an encoded object are distinct**, when those beside its fields are free. -/
theorem nodup_keys {desc : TypeVersionSpec} {obj : JsonFields}
    (hkept : ObjectKept crates registry options desc obj)
    {rs : List (Option (MsgpackValue × MsgpackValue))}
    (hrs : List.Forall₂ (fun entry r => encodeTagged crates registry order obj entry = .ok r)
      desc.taggedFields rs) :
    ((rs.reduceOption ++ encodeExtra obj desc).map Prod.fst).Nodup := by
  have hdeclared := nodup_declared hrs
  rw [keys_reduceOption hrs] at hdeclared
  rw [List.map_append, keys_reduceOption hrs, encodeExtra, List.map_map, List.nodup_append]
  refine ⟨hdeclared, hkept.extra_once, fun key hkey key' hkey' heq => ?_⟩
  subst heq
  obtain ⟨⟨tag, field⟩, hentry, rfl⟩ := List.mem_map.mp hkey
  obtain ⟨hentry, hhas⟩ := List.mem_filter.mp hentry
  obtain ⟨entry, hextra, hspells⟩ := List.mem_map.mp hkey'
  have hplain : plainKey entry.1 = .integer tag.toNat := hspells
  have htag : Decimal.parseU64 entry.1 = some tag := by
    rw [← keyToTag_plainKey, hplain, keyToTag_integer]
  have hnone := hkept.extra_free entry hextra tag field htag (mem_taggedFields.mp hentry)
  rw [hasField, hnone] at hhas
  cases hhas

theorem jsonToMsgpackValue_distinct {v : JsonValue} (h : v.SpellsOnce) :
    (jsonToMsgpackValue v).DistinctTags := by
  induction h with
  | null | bool | string =>
      rw [jsonToMsgpackValue]
      exact .leaf (by simp) (by simp)
  | number n =>
      rw [jsonToMsgpackValue]
      cases n <;> exact .leaf (by simp [JsonNumber.toMsgpack]) (by simp [JsonNumber.toMsgpack])
  | array _ ih =>
      rw [jsonToMsgpackValue]
      refine .array fun w hw => ?_
      obtain ⟨item, hitem, rfl⟩ := List.mem_map.mp hw
      exact ih item hitem
  | object hkeys _ ih =>
      rw [jsonToMsgpackValue]
      refine .map (by rwa [List.map_map]) fun w hw => ?_
      obtain ⟨entry, hentry, rfl⟩ := List.mem_map.mp hw
      exact ih entry hentry

theorem Scalar.distinct (x : Scalar) : x.toMsgpack.DistinctTags := by
  cases x <;> exact .leaf (by simp [Scalar.toMsgpack]) (by simp [Scalar.toMsgpack])

theorem encodeRefValue_eq {typeRef : String} {desc : TypeVersionSpec}
    (hdesc : registry.getLatestTypeVersion typeRef = some desc) (obj : JsonFields) :
    encodeRefValue crates registry order (.object obj) typeRef =
      encodeObjectWithDescriptor crates registry order obj desc := by
  rw [encodeRefValue, hdesc]

variable (order) in
/-- The values of a field are encoded when the objects among them are. -/
theorem encodeField_ok {field : FieldSpec} {v : JsonValue}
    (hcase : FieldConforms crates registry field v)
    (hkept : FieldKept crates registry options field v)
    (hmap : ∀ typeRef desc obj, field.fieldType = "map" → field.typeRef = some typeRef →
      registry.getLatestTypeVersion typeRef = some desc → v = .object obj → v.SpellsOnce)
    (hobject : ∀ typeRef desc obj, registry.getLatestTypeVersion typeRef = some desc →
      (field.target = some typeRef ∧ v = .object obj ∨
        field.itemTarget = some typeRef ∧ ∃ items, v = .array items ∧ .object obj ∈ items) →
          ∃ w, encodeObjectWithDescriptor crates registry order obj desc = .ok w ∧
            w.DistinctTags) :
    ∃ w, encodeFieldValue crates registry order v field = .ok w ∧ w.DistinctTags := by
  cases hcase with
  | null => exact ⟨.nil, by rw [encodeFieldValue], .leaf (by simp) (by simp)⟩
  | @ref typeRef desc obj htarget hdesc =>
      obtain ⟨w, hw, hdistinct⟩ := hobject typeRef desc obj hdesc (.inl ⟨htarget, rfl⟩)
      rw [FieldSpec.target] at htarget
      split_ifs at htarget with htype
      rcases htype with htype | htype
      · exact ⟨w, (encodeFieldValue_ref htype htarget hdesc obj).trans hw, hdistinct⟩
      · exact ⟨_, encodeFieldValue_map htype obj,
          jsonToMsgpackValue_distinct (hmap typeRef desc obj htype htarget hdesc rfl)⟩
  | @refs typeRef desc items htarget hdesc hitems =>
      have hpass : ∀ item ∈ items, ∃ w,
          encodeRefValue crates registry order item typeRef = .ok w ∧ w.DistinctTags := by
        intro item hitem
        obtain ⟨obj, rfl⟩ := hitems item hitem
        rw [encodeRefValue_eq hdesc]
        exact hobject typeRef desc obj hdesc (.inr ⟨htarget, items, rfl, hitem⟩)
      obtain ⟨ws, hws, hdistinct⟩ := exists_mapM_forall hpass
      exact ⟨.array ws, by rw [encodeFieldValue_refs htarget, hws]; rfl,
        .array hdistinct⟩
  | @scalars itemType items htype hitems =>
      have hpass : ∀ item ∈ items, ∃ w,
          encodeValueForType crates item itemType = .ok w ∧ w.DistinctTags := by
        intro item hitem
        obtain ⟨x, hx⟩ := hitems item hitem
        exact ⟨_, encodeValueForType_scalar hx
          (hkept.items itemType items htype rfl item hitem).number, x.distinct⟩
      obtain ⟨ws, hws, hdistinct⟩ := exists_mapM_forall hpass
      exact ⟨.array ws, by rw [encodeFieldValue_items htype, hws]; rfl,
        .array hdistinct⟩
  | label href henum hv =>
      obtain ⟨n, label, hencode, -⟩ := encodeFieldValue_label href henum hv
        (hkept.label _ _ href henum)
      exact ⟨_, hencode, .leaf (by simp) (by simp)⟩
  | @scalar _ x href htarget hread =>
      by_cases hnull : v = .null
      · exact ⟨.nil, by rw [hnull, encodeFieldValue], .leaf (by simp) (by simp)⟩
      · exact ⟨_, encodeFieldValue_scalar href htarget hnull hread
          (hkept.scalar href htarget).number, x.distinct⟩

variable (order) in
/-- **An object that conforms to its type is encoded**, with distinct keys in every map. -/
theorem encodeObject_ok {desc : TypeVersionSpec} {obj : JsonFields}
    (hconf : Conforms crates registry desc obj)
    (hkept : ∀ path desc' obj', Nested registry desc obj path desc' obj' →
      ObjectKept crates registry options desc' obj') :
    ∃ entries, encodeObjectWithDescriptor crates registry order obj desc = .ok (.map entries) ∧
      (MsgpackValue.map entries).DistinctTags := by
  have hroot := hkept [] desc obj .refl
  have hpass : ∀ entry ∈ desc.taggedFields, ∃ r,
      encodeTagged crates registry order obj entry = .ok r ∧
        ∀ e, r = some e → e.2.DistinctTags := by
    rintro ⟨tag, field⟩ hentry
    have hfield := mem_taggedFields.mp hentry
    have hcase := hconf [] desc obj .refl tag field hfield
    cases hv : obj.lookup field.name with
    | none =>
        rw [hv] at hcase
        exact ⟨none, by simp only [encodeTagged, hv]; exact if_pos hcase, nofun⟩
    | some v =>
        rw [hv] at hcase
        have hobject : ∀ typeRef desc' obj', registry.getLatestTypeVersion typeRef = some desc' →
            (field.target = some typeRef ∧ v = .object obj' ∨
              field.itemTarget = some typeRef ∧
                ∃ items, v = .array items ∧ .object obj' ∈ items) →
            ∃ w, encodeObjectWithDescriptor crates registry order obj' desc' = .ok w ∧
              w.DistinctTags := by
          rintro typeRef desc' obj' hdesc (⟨htarget, rfl⟩ | ⟨htarget, items, rfl, hitem⟩)
          · have hsmaller : sizeOf obj' < sizeOf obj := by
              have := sizeOf_lt_of_lookup hv
              simp only [JsonValue.object.sizeOf_spec] at this
              omega
            obtain ⟨entries, hentries, hdistinct⟩ := encodeObject_ok
              (fun path d o h => hconf _ d o (.field hfield htarget hdesc hv h))
              (fun path d o h => hkept _ d o (.field hfield htarget hdesc hv h))
            exact ⟨_, hentries, hdistinct⟩
          · obtain ⟨index, hindex⟩ := List.mem_iff_getElem?.mp hitem
            have hsmaller : sizeOf obj' < sizeOf obj := by
              have := sizeOf_lt_of_lookup hv
              have := List.sizeOf_lt_of_mem hitem
              simp only [JsonValue.array.sizeOf_spec, JsonValue.object.sizeOf_spec] at *
              omega
            obtain ⟨entries, hentries, hdistinct⟩ := encodeObject_ok
              (fun path d o h => hconf _ d o (.item hfield htarget hdesc hv hindex h))
              (fun path d o h => hkept _ d o (.item hfield htarget hdesc hv hindex h))
            exact ⟨_, hentries, hdistinct⟩
        obtain ⟨w, hw, hdistinct⟩ := encodeField_ok order hcase
          (hroot.fields tag field v hfield hv)
          (fun typeRef desc' obj' htype href hdesc hobj' => by
            subst hobj'
            exact (hroot.maps tag field typeRef desc' obj' hfield htype href hdesc hv).2)
          hobject
        refine ⟨some (.integer tag.toNat, w), by simp only [encodeTagged, hv, hw]; rfl, ?_⟩
        intro e he
        rw [← Option.some.inj he]
        exact hdistinct
  obtain ⟨rs, hloop, hrs⟩ := exists_mapM_forall hpass
  refine ⟨rs.reduceOption ++ encodeExtra obj desc, by rw [encodeObject_eq, hloop]; rfl,
    .map (nodup_keys hroot (mapM_ok_iff.mp hloop)) fun entry hentry => ?_⟩
  rcases List.mem_append.mp hentry with hentry | hentry
  · exact hrs (some entry) (List.reduceOption_mem_iff.mp hentry) entry rfl
  · obtain ⟨extra, hextra, rfl⟩ := List.mem_map.mp hentry
    exact jsonToMsgpackValue_distinct (hroot.extra_values extra hextra)
termination_by sizeOf obj
decreasing_by
  all_goals exact hsmaller

end Cxdb
