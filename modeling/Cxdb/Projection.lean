import Cxdb.JsonFields
import Cxdb.PayloadEncoding

/-!
# Projecting Payloads

`projection/mod.rs`: a stored payload is shown as JSON, with the names of its type's fields for
their tags. What stands under another tag is reported as unknown, if the reader asks for it.

The projector never fails on what a field holds: a value that does not suit its type is shown
as null.
-/

open ByteFormat IterationOrder

namespace Cxdb

inductive BytesRender where
  | base64
  | hex
  | lenOnly
  deriving DecidableEq

inductive U64Format where
  | string
  | number
  deriving DecidableEq

inductive EnumRender where
  | label
  | number
  | both
  deriving DecidableEq

inductive TimeRender where
  | iso
  | unixMs
  deriving DecidableEq

structure RenderOptions where
  bytesRender : BytesRender
  u64Format : U64Format
  enumRender : EnumRender
  timeRender : TimeRender
  includeUnknown : Bool
  deriving DecidableEq

structure ProjectionResult where
  data : JsonValue
  unknown : Option JsonValue

/-- `Number::from` for an integer of 64 bits. -/
def JsonNumber.ofInt (n : ℤ) : JsonNumber :=
  if h : -2 ^ 63 ≤ n ∧ n < 0 then .negInt ⟨n, h⟩ else .posInt (UInt64.ofNat n.toNat)

/-- `Number::from_f64`, with zero for what is not finite. -/
def JsonNumber.ofF64 (bits : UInt64) : JsonNumber :=
  if (bits >>> 52) &&& 0x7FF = 0x7FF then .posInt 0 else .float bits

namespace Projection

/-! ### Tags -/

/-- `key_to_tag`. -/
def keyToTag : MsgpackValue → Option UInt64
  | .integer n => integerAsU64 n
  | .string s => s.bind Decimal.parseU64
  | _ => none

/-- An entry under a tag. -/
def taggedEntry (entry : MsgpackValue × MsgpackValue) : Option (UInt64 × MsgpackValue) :=
  (keyToTag entry.1).map (·, entry.2)

/-- `normalize_tags`: of two entries under one tag the later one stays. -/
def normalizeTags : MsgpackValue → Except StoreError (HashMap UInt64 MsgpackValue)
  | .map entries =>
      .ok (LastWrite.insertAll Prod.fst Prod.snd ∅ (entries.filterMap taggedEntry))
  | _ => .error (.invalidInput "payload is not a map")

/-- `value_to_u64`. -/
def valueToU64 : MsgpackValue → Option UInt64
  | .integer n => integerAsU64 n
  | _ => none

/-- `value_to_i64`. -/
def valueToI64 : MsgpackValue → Option ℤ
  | .integer n => integerAsI64 n
  | _ => none

section Rendering

variable (crates : PayloadCrates) (options : RenderOptions)

/-! ### Scalars -/

/-- `render_u64_raw`. -/
def renderU64Raw (u : UInt64) : JsonValue :=
  match options.u64Format with
  | .string => .string (Decimal.print u.toNat)
  | .number => .number (.posInt u)

/-- `render_u64`. -/
def renderU64 (value : MsgpackValue) : JsonValue :=
  match valueToU64 value with
  | some u => renderU64Raw options u
  | none => .null

/-- `render_int`. -/
def renderInt (value : MsgpackValue) : JsonValue :=
  match valueToI64 value with
  | some i => .number (.ofInt i)
  | none => .null

/-- `render_string`. -/
def renderString : MsgpackValue → JsonValue
  | .string s => .string (s.getD "")
  | _ => .null

/-- `render_bool`. -/
def renderBool : MsgpackValue → JsonValue
  | .boolean b => .bool b
  | _ => .null

/-- `render_bytes`. -/
def renderBytes : MsgpackValue → JsonValue
  | .binary bytes =>
      match options.bytesRender with
      | .base64 => .string (crates.base64Encode bytes)
      | .hex => .string (crates.hexEncode bytes)
      | .lenOnly => .number (.posInt (UInt64.ofNat bytes.length))
  | _ => .null

/-- `render_time`. -/
def renderTime (value : MsgpackValue) : JsonValue :=
  match valueToI64 value, options.timeRender with
  | none, _ => .null
  | some ms, .unixMs => .number (.ofInt ms)
  | some ms, .iso =>
      match crates.rfc3339 ms with
      | some text => .string text
      | none => .null

/-! ### Values without a type -/

/-- The key of an entry that is shown as it is. -/
def rawKey : MsgpackValue → String
  | .string s => s.getD ""
  | .integer n =>
      match integerAsU64 n with
      | some u => Decimal.print u.toNat
      | none => ""
  | _ => ""

/-- `render_value`. -/
def renderValue (value : MsgpackValue) : JsonValue :=
  match value with
  | .nil => .null
  | .boolean b => .bool b
  | .integer n =>
      match integerAsU64 n, integerAsI64 n with
      | some u, _ => renderU64Raw options u
      | none, some i => .number (.ofInt i)
      | none, none => .null
  | .f32 bits => .number (.ofF64 (crates.widen bits))
  | .f64 bits => .number (.ofF64 bits)
  | .string s => .string (s.getD "")
  | .binary bytes => renderBytes crates options (.binary bytes)
  | .array items => .array (items.map renderValue)
  | .map entries =>
      .object (entries.foldl (fun obj entry =>
        insertField (rawKey entry.1) (renderValue entry.2) obj) [])
  | .ext _ _ => .null
termination_by sizeOf value
decreasing_by
  · have := List.sizeOf_lt_of_mem ‹_›
    simp only [MsgpackValue.array.sizeOf_spec]
    omega
  · have := List.sizeOf_lt_of_mem ‹_›
    have : sizeOf entry = 1 + sizeOf entry.1 + sizeOf entry.2 := rfl
    simp only [MsgpackValue.map.sizeOf_spec]
    omega

/-! ### Fields -/

variable (registry : Registry) (order : HashOrder)

/-- A label, or its number, or both. -/
def renderLabel (num : UInt64) (label : String) : JsonValue :=
  match options.enumRender with
  | .label => .string label
  | .number => .number (.posInt num)
  | .both => .object (insertField "value" (.number (.posInt num)) [("label", .string label)])

/-- A number with a label in the enum of its field. -/
def renderEnum (value : MsgpackValue) (field : FieldSpec) : Option JsonValue := do
  let enumRef ← field.enumRef
  let num ← valueToU64 value
  let enumMap ← registry.getEnum enumRef
  let label ← enumMap.lookup (Decimal.print num.toNat)
  some (renderLabel options num label)

/-- The field that the items of a simple type are rendered as. -/
def dummyField (itemType : String) : FieldSpec where
  name := ""
  fieldType := itemType
  enumRef := none
  typeRef := none
  optional := false
  items := none

/-- The fields of a descriptor that a payload has, under their names. The last one under a
name stays. -/
def collectFields (desc : TypeVersionSpec) (place : List String)
    (render : UInt64 → FieldSpec → Option JsonValue) : List (String × JsonValue) :=
  (entriesIn desc.fields (order.numbers place desc.fields.keys)).foldl
    (fun data (tag, field) =>
      match render tag field with
      | some rendered => insertField field.name rendered data
      | none => data) []

/-- What stands under a tag that the descriptor does not have. -/
def unknownFields (desc : TypeVersionSpec) (place : List String)
    (map : HashMap UInt64 MsgpackValue) : List (String × JsonValue) :=
  (entriesIn map (order.numbers place map.keys)).foldl
    (fun unknown (tag, value) =>
      if tag ∈ desc.fields then unknown
      else insertField (Decimal.print tag.toNat) (renderValue crates options value) unknown) []

theorem sizeOf_lt_of_normalizeTags {value val : MsgpackValue}
    {map : HashMap UInt64 MsgpackValue} {tag : UInt64} (h : normalizeTags value = .ok map)
    (hval : map.lookup tag = some val) : sizeOf val < sizeOf value := by
  cases value with
  | map entries =>
      rw [← Except.ok.inj h] at hval
      rcases LastWrite.exists_of_lookup_insertAll hval with ⟨entry, hmem, -, rfl⟩ | hempty
      · obtain ⟨⟨key, v⟩, hentry, htagged⟩ := List.mem_filterMap.mp hmem
        obtain ⟨_, -, rfl⟩ := Option.map_eq_some_iff.mp htagged
        have hlt := List.sizeOf_lt_of_mem hentry
        simp only [MsgpackValue.map.sizeOf_spec, Prod.mk.sizeOf_spec] at hlt ⊢
        omega
      · simp at hempty
  | nil | boolean | integer | f32 | f64 | string | binary | array | ext => cases h

mutual

/-- `render_field_value`. -/
def renderFieldValue (value : MsgpackValue) (field : FieldSpec) : JsonValue :=
  match renderEnum options registry value field with
  | some rendered => rendered
  | none =>
    match field.typeRef, decide (field.fieldType = "ref" ∨ field.fieldType = "map") with
    | some typeRef, true => renderTypeRef value typeRef
    | _, _ =>
      match field.fieldType with
      | "u64" | "uint64" | "i64" | "int64" => renderU64 options value
      | "u32" | "uint32" | "u8" | "uint8" | "int32" => renderInt value
      | "string" => renderString value
      | "bool" => renderBool value
      | "bytes" | "typed_blob" => renderBytes crates options value
      | "array" => renderArray value field.items
      | "unix_ms" | "time_ms" | "timestamp_ms" => renderTime crates options value
      | _ => renderValue crates options value
termination_by (sizeOf value, 1)

/-- `render_type_ref`. -/
def renderTypeRef (value : MsgpackValue) (typeRef : String) : JsonValue :=
  match registry.getLatestTypeVersion typeRef, _h : normalizeTags value with
  | some desc, .ok map =>
      let data := collectFields order desc [typeRef] fun tag field =>
        match _hval : map.lookup tag with
        | some val => some (renderFieldValue val field)
        | none => none
      let unknown := unknownFields crates options order desc ["_unknown", typeRef] map
      if options.includeUnknown = true ∧ unknown ≠ [] then
        .object (insertField "_unknown" (.object unknown) data)
      else .object data
  | _, _ => renderValue crates options value
termination_by (sizeOf value, 0)
decreasing_by
  exact Prod.Lex.left _ _ (sizeOf_lt_of_normalizeTags _h _hval)

/-- `render_array`. -/
def renderArray (value : MsgpackValue) (items : Option ItemsSpec) : JsonValue :=
  match value, items with
  | .array arr, some (.simple itemType) =>
      .array (arr.map fun item => renderFieldValue item (dummyField itemType))
  | .array arr, some (.ref typeRef) => .array (arr.map fun item => renderTypeRef item typeRef)
  | .array arr, none => .array (arr.map fun item => renderValue crates options item)
  | _, _ => .null
termination_by (sizeOf value, 0)

end

/-- `project_msgpack`. -/
def projectMsgpack (payload : Bytes) (descriptor : TypeVersionSpec) :
    Except StoreError ProjectionResult := do
  let value ← (crates.readValue payload).mapError fun e =>
    .invalidInput s!"msgpack decode error: {e}"
  let map ← normalizeTags value
  let data := collectFields order descriptor [] fun tag field =>
    (map.lookup tag).map fun val => renderFieldValue crates options registry order val field
  let unknown := unknownFields crates options order descriptor ["_unknown"] map
  .ok { data := .object data
        unknown := if options.includeUnknown then some (.object unknown) else none }

end Rendering

end Projection

end Cxdb
