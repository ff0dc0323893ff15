import Cxdb.ByteFormat

/-!
# JSON Values

`serde_json::Value`, as the readers and writers of payloads take it apart. Reading a text is
left to the crate, which is a parameter where it is needed. The entries of an object stand in
the order of their keys, each of which is there once.
-/

namespace Cxdb

/-- `serde_json::Number`: an unsigned integer, a negative one, or the bits of a finite double. -/
inductive JsonNumber where
  | posInt (n : UInt64)
  | negInt (n : {n : ℤ // -2 ^ 63 ≤ n ∧ n < 0})
  | float (bits : UInt64)
  deriving DecidableEq

/-- `serde_json::Value`. -/
inductive JsonValue where
  | null
  | bool (b : Bool)
  | number (n : JsonNumber)
  | string (s : String)
  | array (items : List JsonValue)
  | object (fields : List (String × JsonValue))

/-- `Value::get` with a key. -/
def JsonValue.get (v : JsonValue) (key : String) : Option JsonValue :=
  match v with
  | .object fields => fields.lookup key
  | _ => none

/-- `Value::as_str`. -/
def JsonValue.asStr : JsonValue → Option String
  | .string s => some s
  | _ => none

/-- `Value::as_bool`. -/
def JsonValue.asBool : JsonValue → Option Bool
  | .bool b => some b
  | _ => none

/-- `Value::as_array`. -/
def JsonValue.asArray : JsonValue → Option (List JsonValue)
  | .array items => some items
  | _ => none

/-- `Number::as_u64`. -/
def JsonNumber.asU64 : JsonNumber → Option UInt64
  | .posInt n => some n
  | _ => none

/-- `Number::as_i64`. -/
def JsonNumber.asI64 : JsonNumber → Option ℤ
  | .posInt n => if n.toNat < 2 ^ 63 then some n.toNat else none
  | .negInt n => some n
  | .float _ => none

/-- `Value::as_u64`. -/
def JsonValue.asU64 : JsonValue → Option UInt64
  | .number n => n.asU64
  | _ => none

end Cxdb
