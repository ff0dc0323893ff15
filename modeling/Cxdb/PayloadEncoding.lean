import Cxdb.MsgpackValue
import Cxdb.Registry

/-!
# Encoding Payloads

`encode_http_payload` of `http/mod.rs`: a turn that comes as JSON is stored as msgpack. An
object of a registered type becomes a map from the tags of the type's fields; what it has
beside them stays under its own key, which is a number where it spells one.

The bytes of msgpack, base64 and hex are left to the crates, which are parameters.
-/

open ByteFormat IterationOrder

namespace Cxdb

/-- What is left to crates. -/
structure PayloadCrates where
  /-- `rmpv::encode::write_value`. -/
  writeValue : MsgpackValue → Except String Bytes
  /-- `rmpv::decode::read_value`. -/
  readValue : Bytes → Except String MsgpackValue
  base64Encode : Bytes → String
  base64Decode : String → Except String Bytes
  hexEncode : Bytes → String
  hexDecode : String → Except String Bytes
  /-- `from_timestamp_millis`, then `to_rfc3339`. -/
  rfc3339 : ℤ → Option String
  /-- A single as a double. -/
  widen : UInt32 → UInt64

/-! ### Values without a type -/

/-- A key of an object, as a number where it spells one. -/
def plainKey (key : String) : MsgpackValue :=
  match Decimal.parseU64 key with
  | some n => .integer n.toNat
  | none => .string (some key)

def JsonNumber.toMsgpack : JsonNumber → MsgpackValue
  | .posInt n => .integer n.toNat
  | .negInt n => .integer n
  | .float bits => .f64 bits

/-- `json_to_msgpack_value`, which does not fail: a number is an integer or a double. The keys
of an object are sorted already. -/
def jsonToMsgpackValue : JsonValue → MsgpackValue
  | .null => .nil
  | .bool b => .boolean b
  | .number n => n.toMsgpack
  | .string s => .string (some s)
  | .array items => .array (items.map jsonToMsgpackValue)
  | .object fields => .map (fields.map fun field => (plainKey field.1, jsonToMsgpackValue field.2))
termination_by v => sizeOf v
decreasing_by
  · have := List.sizeOf_lt_of_mem ‹_›
    simp only [JsonValue.array.sizeOf_spec]
    omega
  · have := List.sizeOf_lt_of_mem ‹_›
    have : sizeOf field = 1 + sizeOf field.1 + sizeOf field.2 := rfl
    simp only [JsonValue.object.sizeOf_spec]
    omega

/-! ### Scalars -/

/-- `parse_json_u64_opt`. -/
def parseJsonU64Opt : JsonValue → Option UInt64
  | .string s => Decimal.parseU64 s
  | .number n => n.asU64 <|> n.asI64.bind fun i =>
      if 0 ≤ i then some (UInt64.ofNat i.toNat) else none
  | _ => none

/-- `parse_json_i64_opt`. -/
def parseJsonI64Opt : JsonValue → Option ℤ
  | .string s => Decimal.parseI64 s
  | .number n => n.asI64 <|> n.asU64.bind fun u =>
      if u.toNat < 2 ^ 63 then some (u.toNat : ℤ) else none
  | _ => none

section Encoding

variable (crates : PayloadCrates)

/-- `parse_bytes_value`: base64, or hex, or the text itself; numbers; or an object that says
which it is. -/
def parseBytesValue : JsonValue → Except StoreError Bytes
  | .string s =>
      match crates.base64Decode s, crates.hexDecode s with
      | .ok bytes, _ => .ok bytes
      | .error _, .ok bytes => .ok bytes
      | .error _, .error _ => .ok s.toUTF8.toList
  | .array items =>
      items.mapM fun item =>
        match parseJsonU64Opt item with
        | none => .error (.invalidInput "invalid byte array value")
        | some num =>
            if 255 < num then .error (.invalidInput "byte out of range")
            else .ok (UInt8.ofNat num.toNat)
  | .object fields =>
      match fields.lookup "base64", fields.lookup "hex" with
      | some (.string b64), _ =>
          (crates.base64Decode b64).mapError fun e => .invalidInput s!"invalid base64 bytes: {e}"
      | _, some (.string hex) =>
          (crates.hexDecode hex).mapError fun e => .invalidInput s!"invalid hex bytes: {e}"
      | _, _ => .error (.invalidInput "bytes object must contain base64 or hex")
  | _ => .error (.invalidInput "invalid bytes value")

/-- `ok_or_else` with an invalid input. -/
def orInvalid {α : Type} (value : Option α) (message : String) : Except StoreError α :=
  match value with
  | some a => .ok a
  | none => .error (.invalidInput message)

/-- `encode_value_for_type`. -/
def encodeValueForType (value : JsonValue) (fieldType : String) : Except StoreError MsgpackValue :=
  match fieldType with
  | "string" => orInvalid (value.asStr.map (.string <| some ·)) "expected string"
  | "bool" => orInvalid (value.asBool.map .boolean) "expected bool"
  | "u64" | "uint64" | "u32" | "uint32" | "u8" | "uint8" =>
      orInvalid ((parseJsonU64Opt value).map (.integer ·.toNat)) "expected integer"
  | "int64" | "int32" | "unix_ms" | "time_ms" | "timestamp_ms" =>
      orInvalid ((parseJsonI64Opt value).map .integer) "expected integer"
  | "bytes" | "typed_blob" => (parseBytesValue crates value).map .binary
  | _ => .ok (jsonToMsgpackValue value)

variable (registry : Registry) (order : HashOrder)

/-- The value of a field with an enum: a number, or one that has the label. Of anything else
the type of the field decides. -/
def encodeEnum (value : JsonValue) (field : FieldSpec) :
    Option (Except StoreError MsgpackValue) :=
  match field.enumRef with
  | none => none
  | some enumRef =>
      match parseJsonU64Opt value, value.asStr with
      | some num, _ => some (.ok (.integer num.toNat))
      | none, none => none
      | none, some label =>
          let found := (registry.getEnum enumRef).bind fun enumMap =>
            (entriesIn enumMap (order.strings [enumRef] enumMap.keys)).find? (·.2 = label)
          match found with
          | none => some (.error (.invalidInput s!"unknown enum label for {field.name}"))
          | some (num, _) =>
              match Decimal.parseU64 num with
              | none => some (.error (.invalidInput s!"invalid enum value for {field.name}"))
              | some num => some (.ok (.integer num.toNat))

/-- The fields of a descriptor, in the order of their tags. -/
def TypeVersionSpec.taggedFields (desc : TypeVersionSpec) : List (UInt64 × FieldSpec) :=
  entriesIn desc.fields (IterationOrder.sorted (· ≤ ·) desc.fields.keys)

/-- What an object has beside the fields of its descriptor. -/
def extraFields (obj : List (String × JsonValue)) (desc : TypeVersionSpec) :
    List (String × JsonValue) :=
  obj.filter fun entry => !desc.taggedFields.any fun (_, field) => field.name = entry.1

theorem sizeOf_lt_of_lookup {obj : List (String × JsonValue)} {name : String} {value : JsonValue}
    (h : obj.lookup name = some value) : sizeOf value < sizeOf obj := by
  induction obj with
  | nil => cases h
  | cons entry obj ih =>
      obtain ⟨key, v⟩ := entry
      simp only [List.cons.sizeOf_spec, Prod.mk.sizeOf_spec]
      rw [List.lookup_cons] at h
      split at h
      · rw [Option.some.inj h]
        omega
      · have := ih h
        omega

mutual

/-- `encode_object_with_descriptor`. -/
def encodeObjectWithDescriptor (obj : List (String × JsonValue)) (desc : TypeVersionSpec) :
    Except StoreError MsgpackValue := do
  let entries ← desc.taggedFields.mapM fun entry =>
    match _h : obj.lookup entry.2.name with
    | some value =>
        (encodeFieldValue value entry.2).map fun encoded =>
          some (MsgpackValue.integer entry.1.toNat, encoded)
    | none =>
        if entry.2.optional then .ok none
        else .error (.invalidInput s!"missing required field: {entry.2.name}")
  let extra := (extraFields obj desc).map fun entry =>
    (plainKey entry.1, jsonToMsgpackValue entry.2)
  .ok (.map (entries.reduceOption ++ extra))
termination_by (sizeOf obj, 0)
decreasing_by
  exact Prod.Lex.left _ _ (sizeOf_lt_of_lookup _h)

/-- `encode_field_value`. -/
def encodeFieldValue (value : JsonValue) (field : FieldSpec) : Except StoreError MsgpackValue :=
  match value with
  | .null => .ok .nil
  | value =>
    match encodeEnum registry order value field with
    | some encoded => encoded
    | none =>
      match field.fieldType with
      | "string" =>
          orInvalid (value.asStr.map (.string <| some ·)) s!"expected string for {field.name}"
      | "bool" => orInvalid (value.asBool.map .boolean) s!"expected bool for {field.name}"
      | "u64" | "uint64" | "u32" | "uint32" | "u8" | "uint8" =>
          orInvalid ((parseJsonU64Opt value).map (.integer ·.toNat))
            s!"expected integer for {field.name}"
      | "int64" | "int32" =>
          orInvalid ((parseJsonI64Opt value).map .integer) s!"expected integer for {field.name}"
      | "bytes" | "typed_blob" => (parseBytesValue crates value).map .binary
      | "array" =>
          match value with
          | .array items => do
              let out ← items.mapM fun item =>
                match field.items with
                | some (.simple itemType) => encodeValueForType crates item itemType
                | some (.ref typeRef) => encodeRefValue item typeRef
                | none => .ok (jsonToMsgpackValue item)
              .ok (.array out)
          | _ => .error (.invalidInput s!"expected array for {field.name}")
      | "ref" =>
          match field.typeRef with
          | some typeRef => encodeRefValue value typeRef
          | none => .ok (jsonToMsgpackValue value)
      | _ => encodeValueForType crates value field.fieldType
termination_by (sizeOf value, 1)

/-- `encode_ref_value`. -/
def encodeRefValue (value : JsonValue) (typeRef : String) : Except StoreError MsgpackValue :=
  match value with
  | .object obj =>
      match registry.getLatestTypeVersion typeRef with
      | some desc => encodeObjectWithDescriptor obj desc
      | none => .error (.notFound "type descriptor")
  | _ => .error (.invalidInput s!"expected object for ref {typeRef}")
termination_by (sizeOf value, 0)

end

/-- `encode_http_payload`. -/
def encodeHttpPayload (payloadJson : JsonValue) (typeId : String) (typeVersion : UInt32) :
    Except StoreError Bytes := do
  let value ←
    match registry.getTypeVersion typeId typeVersion, payloadJson with
    | some desc, .object obj => encodeObjectWithDescriptor crates registry order obj desc
    | _, _ => .ok (jsonToMsgpackValue payloadJson)
  (crates.writeValue value).mapError fun e => .invalidInput s!"msgpack encode error: {e}"

end Encoding

end Cxdb
