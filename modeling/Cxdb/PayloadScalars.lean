import Cxdb.Projection

/-!
# Scalars in Payloads

What a value of a scalar type is, whatever it is written as: a count may be a number or a
text of digits, bytes may be base64. The encoder stores it as msgpack, and the projector shows
it as the options say.

## Main results

* `encodeValueForType_scalar`: a value is stored as what it is.
* `renderFieldValue_scalar`: what it is is shown, when the projector keeps it.
* `encodeEnum_label`: a label or a number of an enum is stored as a number with a label.
-/

open ByteFormat IterationOrder

namespace Cxdb

open Projection

/-! ### Values of a type -/

/-- What a value of a scalar type is. -/
inductive Scalar where
  | null
  | text (s : String)
  | flag (b : Bool)
  | integer (n : ℤ)
  | float (bits : UInt64)
  | bytes (b : Bytes)

def unsignedTypes : List String := ["u64", "uint64", "u32", "uint32", "u8", "uint8"]

def signedTypes : List String := ["int64", "int32", "i64"]

def timeTypes : List String := ["unix_ms", "time_ms", "timestamp_ms"]

def bytesTypes : List String := ["bytes", "typed_blob"]

/-- The types whose values are shown as numbers, whatever the format of long integers. -/
def shortTypes : List String := ["u32", "uint32", "u8", "uint8", "int32"]

/-- A value without parts, as it is. -/
def JsonValue.scalar : JsonValue → Option Scalar
  | .null => some .null
  | .bool b => some (.flag b)
  | .string s => some (.text s)
  | .number (.posInt n) => some (.integer n.toNat)
  | .number (.negInt n) => some (.integer n)
  | .number (.float bits) =>
      if JsonNumber.ofF64 bits = .float bits then some (.float bits) else none
  | .array _ => none
  | .object _ => none

section

variable (crates : PayloadCrates) (options : RenderOptions)

/-- What a value of a type is; nothing, if it is not of the type. -/
def readScalar (type : String) (v : JsonValue) : Option Scalar :=
  if type = "string" then v.asStr.map .text
  else if type = "bool" then v.asBool.map .flag
  else if type ∈ unsignedTypes then (parseJsonU64Opt v).map fun n => .integer n.toNat
  else if type ∈ signedTypes ∨ type ∈ timeTypes then (parseJsonI64Opt v).map .integer
  else if type ∈ bytesTypes then (parseBytesValue crates v).toOption.map .bytes
  else if type = "array" then none
  else v.scalar

/-- A long integer, in the format of the options; a negative one is a number. -/
def showInteger (n : ℤ) : JsonValue :=
  if n < 0 then .number (.ofInt n)
  else
    match options.u64Format with
    | .string => .string (Decimal.print n.toNat)
    | .number => .number (.ofInt n)

/-- How a value of a type is shown; an instant may have no date. -/
def showScalar (type : String) : Scalar → Option JsonValue
  | .null => some .null
  | .text s => some (.string s)
  | .flag b => some (.bool b)
  | .float bits => some (.number (.float bits))
  | .bytes bytes =>
      some <| match options.bytesRender with
        | .base64 => .string (crates.base64Encode bytes)
        | .hex => .string (crates.hexEncode bytes)
        | .lenOnly => .number (.posInt (UInt64.ofNat bytes.length))
  | .integer n =>
      if type ∈ timeTypes then
        match options.timeRender with
        | .unixMs => some (.number (.ofInt n))
        | .iso => (crates.rfc3339 n).map .string
      else if type ∈ shortTypes then some (.number (.ofInt n))
      else some (showInteger options n)

/-- **The values that the projector keeps.** It reads a long signed integer as an unsigned one
and a short unsigned integer as a signed one; and the encoder does not know the type `i64`, so
that its text stays a text. -/
structure ScalarKept (type : String) (v : JsonValue) : Prop where
  nonneg : type ∈ ["int64", "i64"] → ∀ n, readScalar crates type v = some (.integer n) → 0 ≤ n
  number : type = "i64" → ∀ s, v ≠ .string s
  short : type ∈ shortTypes → ∀ n, readScalar crates type v = some (.integer n) → n < 2 ^ 63
  dated : type ∈ timeTypes → options.timeRender = .iso →
    ∀ n, readScalar crates type v = some (.integer n) → (crates.rfc3339 n).isSome = true

end

/-- A scalar as it is stored. -/
def Scalar.toMsgpack : Scalar → MsgpackValue
  | .null => .nil
  | .text s => .string (some s)
  | .flag b => .boolean b
  | .integer n => .integer n
  | .float bits => .f64 bits
  | .bytes b => .binary b

variable {crates : PayloadCrates} {options : RenderOptions} {registry : Registry}
  {order : HashOrder}

/-! ### Storing -/

theorem jsonToMsgpackValue_scalar {v : JsonValue} {x : Scalar} (h : v.scalar = some x) :
    jsonToMsgpackValue v = x.toMsgpack := by
  rw [jsonToMsgpackValue.eq_def]
  cases v with
  | null | bool | string =>
      obtain rfl := Option.some.inj h
      rfl
  | number n =>
      cases n with
      | posInt n | negInt n =>
          obtain rfl := Option.some.inj h
          rfl
      | float bits =>
          rw [JsonValue.scalar] at h
          split at h
          · obtain rfl := Option.some.inj h
            rfl
          · cases h
  | array | object => cases h

theorem encodeValueForType_unsigned {type : String} (h : type ∈ unsignedTypes) (v : JsonValue) :
    encodeValueForType crates v type =
      orInvalid ((parseJsonU64Opt v).map (.integer ·.toNat)) "expected integer" := by
  simp only [unsignedTypes, List.mem_cons, List.not_mem_nil, or_false] at h
  rcases h with rfl | rfl | rfl | rfl | rfl | rfl <;> rfl

theorem encodeValueForType_signed {type : String} (h : type ∈ signedTypes ∨ type ∈ timeTypes)
    (hi64 : type ≠ "i64") (v : JsonValue) :
    encodeValueForType crates v type =
      orInvalid ((parseJsonI64Opt v).map .integer) "expected integer" := by
  simp only [signedTypes, timeTypes, List.mem_cons, List.not_mem_nil, or_false] at h
  rcases h with (rfl | rfl | rfl) | rfl | rfl | rfl
  · rfl
  · rfl
  · exact absurd rfl hi64
  all_goals rfl

theorem encodeValueForType_bytes {type : String} (h : type ∈ bytesTypes) (v : JsonValue) :
    encodeValueForType crates v type = (parseBytesValue crates v).map .binary := by
  simp only [bytesTypes, List.mem_cons, List.not_mem_nil, or_false] at h
  rcases h with rfl | rfl <;> rfl

/-- A type that the encoder does not know. -/
theorem encodeValueForType_plain {type : String} (hstring : type ≠ "string")
    (hbool : type ≠ "bool") (hunsigned : type ∉ unsignedTypes)
    (hsigned : type ∉ ["int64", "int32"]) (htime : type ∉ timeTypes)
    (hbytes : type ∉ bytesTypes) (v : JsonValue) :
    encodeValueForType crates v type = .ok (jsonToMsgpackValue v) := by
  simp only [unsignedTypes, timeTypes, bytesTypes, List.mem_cons, List.not_mem_nil, or_false,
    not_or] at hunsigned hsigned htime hbytes
  rw [encodeValueForType] <;> simp_all

/-- A number that is not negative is the integer itself. -/
theorem jsonToMsgpackValue_of_parseI64 {v : JsonValue} {n : ℤ} (h : parseJsonI64Opt v = some n)
    (hv : ∀ s, v ≠ .string s) : jsonToMsgpackValue v = .integer n := by
  rw [jsonToMsgpackValue.eq_def]
  cases v with
  | number m =>
      cases m with
      | posInt m =>
          simp only [parseJsonI64Opt, JsonNumber.asI64, JsonNumber.asU64] at h
          by_cases hm : m.toNat < 2 ^ 63
          · simp only [hm, if_true] at h
            rw [← Option.some.inj h]
            rfl
          · simp only [hm, if_false, Option.bind_some] at h
            cases h
      | negInt m =>
          rw [← Option.some.inj h]
          rfl
      | float bits => cases h
  | string s => exact absurd rfl (hv s)
  | null | bool | array | object => cases h

/-- **A value of a type is stored as what it is.** -/
theorem encodeValueForType_scalar {type : String} {v : JsonValue} {x : Scalar}
    (h : readScalar crates type v = some x) (hi64 : type = "i64" → ∀ s, v ≠ .string s) :
    encodeValueForType crates v type = .ok x.toMsgpack := by
  rw [readScalar] at h
  split_ifs at h with hstring hbool hunsigned hsigned hbytes harray
  · obtain ⟨s, hs, rfl⟩ := Option.map_eq_some_iff.mp h
    rw [hstring, encodeValueForType, hs]
    rfl
  · obtain ⟨b, hb, rfl⟩ := Option.map_eq_some_iff.mp h
    rw [hbool, encodeValueForType, hb]
    rfl
  · obtain ⟨n, hn, rfl⟩ := Option.map_eq_some_iff.mp h
    rw [encodeValueForType_unsigned hunsigned, hn]
    rfl
  · obtain ⟨n, hn, rfl⟩ := Option.map_eq_some_iff.mp h
    by_cases htype : type = "i64"
    · subst htype
      rw [encodeValueForType_plain (by decide) (by decide) (by decide) (by decide) (by decide)
        (by decide), jsonToMsgpackValue_of_parseI64 hn (hi64 rfl)]
      rfl
    · rw [encodeValueForType_signed hsigned htype, hn]
      rfl
  · obtain ⟨bytes, hb, rfl⟩ := Option.map_eq_some_iff.mp h
    rw [encodeValueForType_bytes hbytes]
    cases hparse : parseBytesValue crates v with
    | error e =>
        rw [hparse] at hb
        cases hb
    | ok parsed =>
        rw [hparse] at hb
        rw [Option.some.inj hb]
        rfl
  · rw [encodeValueForType_plain hstring hbool hunsigned
      (fun hmem => hsigned (.inl (by simp_all [signedTypes]))) (fun hmem => hsigned (.inr hmem))
      hbytes, jsonToMsgpackValue_scalar h]
/-! ### Showing -/

/-- The type that the value of a field refers to. -/
def FieldSpec.target (field : FieldSpec) : Option String :=
  if field.fieldType = "ref" ∨ field.fieldType = "map" then field.typeRef else none

theorem renderEnum_none {field : FieldSpec} (henum : field.enumRef = none)
    (value : MsgpackValue) : renderEnum options registry value field = none := by
  rw [renderEnum, henum]
  rfl

/-- A field without an enum or a reference is shown as its type says. -/
theorem renderFieldValue_eq {field : FieldSpec}
    {value : MsgpackValue} (henum : renderEnum options registry value field = none)
    (htarget : field.target = none) :
    renderFieldValue crates options registry order value field =
      match field.fieldType with
      | "u64" | "uint64" | "i64" | "int64" => renderU64 options value
      | "u32" | "uint32" | "u8" | "uint8" | "int32" => renderInt value
      | "string" => renderString value
      | "bool" => renderBool value
      | "bytes" | "typed_blob" => renderBytes crates options value
      | "array" => renderArray crates options registry order value field.items
      | "unix_ms" | "time_ms" | "timestamp_ms" => renderTime crates options value
      | _ => renderValue crates options value := by
  rw [renderFieldValue, henum]
  dsimp only
  split
  · next typeRef href htype =>
    rw [FieldSpec.target, if_pos (of_decide_eq_true htype), href] at htarget
    cases htarget
  · rfl

theorem parseI64_range {s : String} {n : ℤ} (h : Decimal.parseI64 s = some n) :
    -2 ^ 63 ≤ n ∧ n < 2 ^ 63 := by
  rw [Decimal.parseI64] at h
  split at h
  · next digits _ =>
    split at h
    · next hdigits =>
      obtain rfl := Option.some.inj h
      have := hdigits.2.2
      omega
    · cases h
  · obtain ⟨m, hm, rfl⟩ := Option.map_eq_some_iff.mp h
    have := Decimal.parseUint_lt hm
    simp only [Int.ofNat_eq_natCast]
    omega

theorem parseJsonI64Opt_range {v : JsonValue} {n : ℤ} (h : parseJsonI64Opt v = some n) :
    -2 ^ 63 ≤ n ∧ n < 2 ^ 63 := by
  cases v with
  | string s => exact parseI64_range h
  | number m =>
      cases m with
      | posInt m =>
          simp only [parseJsonI64Opt, JsonNumber.asI64, JsonNumber.asU64] at h
          by_cases hm : m.toNat < 2 ^ 63
          · simp only [hm, if_true] at h
            obtain rfl := Option.some.inj h
            omega
          · simp only [hm, if_false, Option.bind_some] at h
            cases h
      | negInt m =>
          obtain rfl := Option.some.inj h
          have := m.2
          omega
      | float bits => cases h
  | null | bool | array | object => cases h

theorem ofInt_toNat (n : UInt64) : JsonNumber.ofInt n.toNat = .posInt n := by
  rw [JsonNumber.ofInt, dif_neg (by omega), Int.toNat_natCast, UInt64.ofNat_toNat]

theorem showInteger_toNat (n : UInt64) : showInteger options n.toNat = renderU64Raw options n := by
  rw [showInteger, if_neg (by omega), renderU64Raw]
  cases options.u64Format with
  | string => rw [Int.toNat_natCast]
  | number => rw [ofInt_toNat]

theorem showScalar_long {type : String} (htime : type ∉ timeTypes) (hshort : type ∉ shortTypes)
    (n : ℤ) : showScalar crates options type (.integer n) = some (showInteger options n) := by
  rw [showScalar, if_neg htime, if_neg hshort]

theorem showScalar_short {type : String} (hshort : type ∈ shortTypes) (n : ℤ) :
    showScalar crates options type (.integer n) = some (.number (.ofInt n)) := by
  have htime : type ∉ timeTypes := by
    simp only [shortTypes, List.mem_cons, List.not_mem_nil, or_false] at hshort
    rcases hshort with rfl | rfl | rfl | rfl | rfl <;> decide
  rw [showScalar, if_neg htime, if_pos hshort]

/-- A long integer that is not negative is read back. -/
theorem renderU64_integer {n : ℤ} (h0 : 0 ≤ n) (h : n < 2 ^ 64) :
    renderU64 options (.integer n) = showInteger options n := by
  obtain ⟨m, rfl⟩ : ∃ m : UInt64, n = m.toNat :=
    ⟨UInt64.ofNat n.toNat, by rw [UInt64.toNat_ofNat_of_lt' (by simp [UInt64.size]; omega)]; omega⟩
  rw [renderU64, valueToU64, integerAsU64_toNat, showInteger_toNat]

theorem renderInt_integer {n : ℤ} (h : -2 ^ 63 ≤ n ∧ n < 2 ^ 63) :
    renderInt (.integer n) = .number (.ofInt n) := by
  rw [renderInt, valueToI64, integerAsI64_eq h.1 h.2]

theorem renderTime_integer {n : ℤ} (h : -2 ^ 63 ≤ n ∧ n < 2 ^ 63) {type : String}
    (htype : type ∈ timeTypes) {out : JsonValue}
    (hshow : showScalar crates options type (.integer n) = some out) :
    renderTime crates options (.integer n) = out := by
  rw [renderTime, valueToI64, integerAsI64_eq h.1 h.2]
  simp only [showScalar, htype, if_true] at hshow
  cases hoption : options.timeRender with
  | unixMs =>
      rw [hoption] at hshow
      exact Option.some.inj hshow
  | iso =>
      rw [hoption] at hshow
      obtain ⟨text, htext, rfl⟩ := Option.map_eq_some_iff.mp hshow
      simp only [htext]

theorem renderValue_of_asU64 {n : ℤ} {u : UInt64} (h : integerAsU64 n = some u) :
    renderValue crates options (.integer n) = renderU64Raw options u := by
  rw [renderValue, h]

theorem renderValue_of_asI64 {n i : ℤ} (h : integerAsU64 n = none) (hi : integerAsI64 n = some i) :
    renderValue crates options (.integer n) = .number (.ofInt i) := by
  rw [renderValue, h, hi]

/-- A value without a type is shown as it is. -/
theorem renderValue_scalar {v : JsonValue} {x : Scalar} (hv : v.scalar = some x) {type : String}
    (htime : type ∉ timeTypes) (hshort : type ∉ shortTypes) {out : JsonValue}
    (hshow : showScalar crates options type x = some out) :
    renderValue crates options x.toMsgpack = out := by
  cases v with
  | null | bool | string =>
      obtain rfl := Option.some.inj hv
      rw [Scalar.toMsgpack, renderValue]
      exact Option.some.inj hshow
  | number n =>
      cases n with
      | posInt n =>
          obtain rfl := Option.some.inj hv
          rw [showScalar_long htime hshort] at hshow
          rw [Scalar.toMsgpack, renderValue_of_asU64 (integerAsU64_toNat n),
            ← Option.some.inj hshow, showInteger_toNat]
      | negInt n =>
          obtain rfl := Option.some.inj hv
          rw [showScalar_long htime hshort] at hshow
          have hn := n.2
          rw [Scalar.toMsgpack, renderValue_of_asI64 (if_neg (by omega))
            (integerAsI64_eq (by omega) (by omega)), ← Option.some.inj hshow, showInteger,
            if_pos hn.2]
      | float bits =>
          rw [JsonValue.scalar] at hv
          split at hv
          · next hfinite =>
            obtain rfl := Option.some.inj hv
            rw [Scalar.toMsgpack, renderValue, hfinite]
            exact Option.some.inj hshow
          · cases hv
  | array | object => cases hv

/-- **What a value is is shown**, when it is one that the projector keeps. -/
theorem renderFieldValue_scalar {field : FieldSpec} {v : JsonValue} {x : Scalar}
    {out : JsonValue} (henum : field.enumRef = none) (htarget : field.target = none)
    (hread : readScalar crates field.fieldType v = some x)
    (hkept : ScalarKept crates options field.fieldType v)
    (hshow : showScalar crates options field.fieldType x = some out) :
    renderFieldValue crates options registry order x.toMsgpack field = out := by
  rw [renderFieldValue_eq (renderEnum_none henum _) htarget]
  have hnonneg := hkept.nonneg
  have hshort := hkept.short
  rw [hread] at hnonneg hshort
  generalize field.fieldType = type at *
  rw [readScalar] at hread
  split_ifs at hread with hstring hbool hunsigned hsigned hbytes harray
  · obtain ⟨s, -, rfl⟩ := Option.map_eq_some_iff.mp hread
    subst hstring
    exact Option.some.inj hshow
  · obtain ⟨b, -, rfl⟩ := Option.map_eq_some_iff.mp hread
    subst hbool
    exact Option.some.inj hshow
  · -- the kernel must not compute with a cast number, which it would take down to zero
    obtain ⟨m, -, rfl⟩ := Option.map_eq_some_iff.mp hread
    obtain ⟨n, hn⟩ : ∃ n : ℤ, n = m.toNat := ⟨_, rfl⟩
    have hm := m.toNat_lt
    rw [← hn] at hshow hshort ⊢
    simp only [unsignedTypes, List.mem_cons, List.not_mem_nil, or_false] at hunsigned
    have hlong : type ∉ shortTypes → type ∈ ["u64", "uint64"] := by
      simp only [shortTypes, List.mem_cons, List.not_mem_nil, or_false]
      tauto
    by_cases hmem : type ∈ shortTypes
    · have hlt := hshort hmem _ rfl
      rw [showScalar_short hmem] at hshow
      rcases hunsigned with rfl | rfl | rfl | rfl | rfl | rfl
      · exact absurd hmem (by decide)
      · exact absurd hmem (by decide)
      all_goals exact (renderInt_integer ⟨by omega, hlt⟩).trans (Option.some.inj hshow)
    · have htype := hlong hmem
      simp only [List.mem_cons, List.not_mem_nil, or_false] at htype
      rw [showScalar_long (by rcases htype with rfl | rfl <;> decide) hmem] at hshow
      rcases htype with rfl | rfl <;>
        exact (renderU64_integer (by omega) (by omega)).trans (Option.some.inj hshow)
  · obtain ⟨n, hn, rfl⟩ := Option.map_eq_some_iff.mp hread
    have hrange := parseJsonI64Opt_range hn
    rcases hsigned with hsigned | htime
    · simp only [signedTypes, List.mem_cons, List.not_mem_nil, or_false] at hsigned
      rcases hsigned with rfl | rfl | rfl
      · rw [showScalar_long (by decide) (by decide)] at hshow
        exact (renderU64_integer (hnonneg (by decide) n rfl) (by omega)).trans
          (Option.some.inj hshow)
      · rw [showScalar_short (by decide)] at hshow
        exact (renderInt_integer hrange).trans (Option.some.inj hshow)
      · rw [showScalar_long (by decide) (by decide)] at hshow
        exact (renderU64_integer (hnonneg (by decide) n rfl) (by omega)).trans
          (Option.some.inj hshow)
    · have hrender := renderTime_integer hrange htime hshow
      simp only [timeTypes, List.mem_cons, List.not_mem_nil, or_false] at htime
      rcases htime with rfl | rfl | rfl <;> exact hrender
  · obtain ⟨bytes, -, rfl⟩ := Option.map_eq_some_iff.mp hread
    simp only [bytesTypes, List.mem_cons, List.not_mem_nil, or_false] at hbytes
    rcases hbytes with rfl | rfl <;> exact Option.some.inj hshow
  · have hrender := renderValue_scalar hread (fun h => hsigned (.inr h))
      (fun h => (by
        simp only [shortTypes, List.mem_cons, List.not_mem_nil, or_false] at h
        rcases h with rfl | rfl | rfl | rfl | rfl <;> simp_all [unsignedTypes, signedTypes])) hshow
    split <;> simp_all [unsignedTypes, signedTypes, timeTypes, bytesTypes]

/-! ### Enums -/

/-- The values of an enum are its labels and its numbers. -/
def IsEnumValue (enumMap : EnumMapping) (v : JsonValue) : Prop :=
  (∃ key label, v = .string label ∧ enumMap.lookup key = some label) ∨
    ∃ n label, parseJsonU64Opt v = some n ∧ enumMap.lookup (Decimal.print n.toNat) = some label

/-- A number and its label, one of which is the value. -/
def Labels (enumMap : EnumMapping) (v : JsonValue) (n : UInt64) (label : String) : Prop :=
  enumMap.lookup (Decimal.print n.toNat) = some label ∧
    (v = .string label ∨ parseJsonU64Opt v = some n)

/-- **The labels and numbers that are kept.** The number that a label is stored as is looked up
again under its shortest spelling; and a label that spells a number is stored as this. -/
structure EnumKept (enumMap : EnumMapping) (v : JsonValue) : Prop where
  spelled : ∀ key label, v = .string label → parseJsonU64Opt v = none →
    enumMap.lookup key = some label →
      ∃ n, Decimal.parseU64 key = some n ∧ enumMap.lookup (Decimal.print n.toNat) = some label
  listed : ∀ n, parseJsonU64Opt v = some n → Decimal.print n.toNat ∈ enumMap

theorem encodeEnum_none {v : JsonValue} (hnum : parseJsonU64Opt v = none)
    (hlabel : v.asStr = none) (field : FieldSpec) :
    encodeEnum registry order v field = none := by
  rw [encodeEnum]
  cases field.enumRef with
  | none => rfl
  | some enumRef => rw [hnum, hlabel]

@[simp] theorem encodeEnum_object (obj : List (String × JsonValue)) (field : FieldSpec) :
    encodeEnum registry order (.object obj) field = none := encodeEnum_none rfl rfl field

@[simp] theorem encodeEnum_array (items : List JsonValue) (field : FieldSpec) :
    encodeEnum registry order (.array items) field = none := encodeEnum_none rfl rfl field

/-- **A label or a number of an enum** is stored as a number with a label. -/
theorem encodeEnum_label {field : FieldSpec} {enumRef : String} {enumMap : EnumMapping}
    {v : JsonValue} (href : field.enumRef = some enumRef)
    (hmap : registry.getEnum enumRef = some enumMap) (hv : IsEnumValue enumMap v)
    (hkept : EnumKept enumMap v) :
    ∃ n label, encodeEnum registry order v field = some (.ok (.integer n.toNat)) ∧
      Labels enumMap v n label := by
  cases hnum : parseJsonU64Opt v with
  | some n =>
      obtain ⟨label, hlabel⟩ := Finmap.mem_iff.mp (hkept.listed n hnum)
      exact ⟨n, label, by rw [encodeEnum, href, hnum], hlabel, .inr hnum⟩
  | none =>
      rcases hv with ⟨key, label, rfl, hkey⟩ | ⟨n, label, hn, -⟩
      · -- some entry has the label, whichever comes first
        have hlists := order.strings_list [enumRef] enumMap.keys
        obtain ⟨entry, hentry⟩ : ∃ entry, (entriesIn enumMap
            (order.strings [enumRef] enumMap.keys)).find? (fun e => decide (e.2 = label)) =
              some entry := by
          rw [← Option.isSome_iff_exists, List.find?_isSome]
          exact ⟨(key, label), (mem_entriesIn hlists).mpr hkey, decide_eq_true rfl⟩
        have hmem := (mem_entriesIn hlists).mp (List.mem_of_find?_eq_some hentry)
        have heq : entry.2 = label := by simpa using List.find?_some hentry
        rw [heq] at hmem
        obtain ⟨n, hn, hlabel⟩ := hkept.spelled entry.1 label rfl hnum hmem
        refine ⟨n, label, ?_, hlabel, .inl rfl⟩
        rw [encodeEnum, href, hnum]
        simp only [JsonValue.asStr, hmap, Option.bind_some, hentry, hn]
      · rw [hn] at hnum
        cases hnum

variable (options) in
/-- A number with a label is shown as the options say. -/
theorem renderEnum_label {field : FieldSpec} {enumRef : String} {enumMap : EnumMapping}
    {n : UInt64} {label : String} (href : field.enumRef = some enumRef)
    (hmap : registry.getEnum enumRef = some enumMap)
    (hlabel : enumMap.lookup (Decimal.print n.toNat) = some label) :
    renderEnum options registry (.integer n.toNat) field = some (renderLabel options n label) := by
  rw [renderEnum, href]
  simp only [valueToU64, integerAsU64_toNat, hmap, hlabel, Option.bind_eq_bind, Option.bind_some]

end Cxdb
