import Cxdb.PayloadRoundTrip

/-!
# Integer Fields

An integer that the encoder accepts for a field is stored under the tag of the field and read
back from there. The encoder accepts a signed integer for a signed type, and any unsigned one
for a short unsigned type; the projector reads every long type as an unsigned integer and
every short one as a signed integer, and shows what it cannot read as null.

## Main results

* `integer_round_trip`: the integer is shown exactly when it is in the range that it is read
  in, and nothing else stands under the tag of its field.
* `negative_int64_lost`: a negative integer comes back as null.
-/

open ByteFormat IterationOrder

namespace Cxdb

open Projection

/-- The types whose values are integers. -/
def integerTypes : List String := unsignedTypes ++ signedTypes ++ timeTypes

/-- The types whose values are shown in the format of long integers. -/
def longTypes : List String := ["u64", "uint64", "i64", "int64"]

/-- An integer, unless the number is a float. -/
def JsonNumber.integer : JsonNumber → Option ℤ
  | .posInt n => some n.toNat
  | .negInt n => some n
  | .float _ => none

/-- An integer of a type, in the format of the options. -/
def shownInteger (options : RenderOptions) (type : String) (n : ℤ) : JsonValue :=
  if type ∈ longTypes ∧ options.u64Format = .string then .string (Decimal.printInt n)
  else .number (.ofInt n)

/-- **The integers that are kept.** A long signed type is read as an unsigned one, a short
unsigned type as a signed one. -/
structure IntegerKept (type : String) (n : ℤ) : Prop where
  nonneg : type ∈ ["i64", "int64"] → 0 ≤ n
  short : type ∈ ["u32", "uint32", "u8", "uint8"] → n < 2 ^ 63

/-- What an object has beside its fields that is stored under a number, under this. -/
def numberedExtras (obj : JsonFields) (desc : TypeVersionSpec) : List (UInt64 × JsonValue) :=
  (extraFields obj desc).filterMap fun entry => (Decimal.parseU64 entry.1).map (·, entry.2)

/-- The last thing that an object has beside its fields under a tag. -/
def lastExtra (obj : JsonFields) (desc : TypeVersionSpec) (tag : UInt64) : Option JsonValue :=
  (numberedExtras obj desc).reverse.lookup tag

/-- The field has its number to itself. -/
def TagFree (obj : JsonFields) (desc : TypeVersionSpec) (tag : UInt64) (m : JsonNumber) : Prop :=
  ∀ v, lastExtra obj desc tag = some v → v = .number m

variable {crates : PayloadCrates} {options : RenderOptions} {registry : Registry}
  {order order' : HashOrder}

/-! ### Integers of 64 bits -/

/-- The integers that a number of JSON can be. -/
theorem integer_range {m : JsonNumber} {n : ℤ} (h : m.integer = some n) :
    -2 ^ 63 ≤ n ∧ n < 2 ^ 64 := by
  cases m with
  | posInt u =>
      obtain rfl := Option.some.inj h
      have hu := u.toNat_lt
      omega
  | negInt i =>
      obtain rfl := Option.some.inj h
      have hi := i.2
      omega
  | float bits => cases h

theorem integer_injective {m m' : JsonNumber} {n : ℤ} (h : m.integer = some n)
    (h' : m'.integer = some n) : m' = m := by
  cases m with
  | posInt u =>
      obtain rfl := Option.some.inj h
      cases m' with
      | posInt u' =>
          have hu : (u'.toNat : ℤ) = u.toNat := Option.some.inj h'
          rw [UInt64.toNat_inj.mp (Int.ofNat.inj hu)]
      | negInt i =>
          have hi : (i : ℤ) = u.toNat := Option.some.inj h'
          have hneg := i.2
          omega
      | float bits => cases h'
  | negInt i =>
      obtain rfl := Option.some.inj h
      cases m' with
      | posInt u =>
          have hi : (u.toNat : ℤ) = i := Option.some.inj h'
          have hneg := i.2
          omega
      | negInt i' => rw [Subtype.ext (Option.some.inj h' : (i' : ℤ) = i)]
      | float bits => cases h'
  | float bits => cases h

theorem integer_ofInt {n : ℤ} (h : -2 ^ 63 ≤ n ∧ n < 2 ^ 64) :
    (JsonNumber.ofInt n).integer = some n := by
  rw [JsonNumber.ofInt]
  split
  · rfl
  · next hn =>
    have hlt : n.toNat < 2 ^ 64 := by omega
    rw [JsonNumber.integer, UInt64.toNat_ofNat_of_lt' hlt, Int.toNat_of_nonneg (by omega)]

theorem ofInt_injective {n n' : ℤ} (h : -2 ^ 63 ≤ n ∧ n < 2 ^ 64) (h' : -2 ^ 63 ≤ n' ∧ n' < 2 ^ 64)
    (heq : JsonNumber.ofInt n = JsonNumber.ofInt n') : n = n' := by
  have hn := integer_ofInt h
  rw [heq, integer_ofInt h'] at hn
  exact (Option.some.inj hn).symm

theorem integerAsU64_eq_some {n : ℤ} {u : UInt64} (h : integerAsU64 n = some u) :
    n = u.toNat := by
  rw [integerAsU64] at h
  split_ifs at h with hn
  rw [← Option.some.inj h, UInt64.toNat_ofNat_of_lt' (by simp [UInt64.size]; omega)]
  omega

theorem integerAsI64_eq_some {n i : ℤ} (h : integerAsI64 n = some i) :
    n = i ∧ -2 ^ 63 ≤ n ∧ n < 2 ^ 63 := by
  rw [integerAsI64] at h
  split_ifs at h with hn
  exact ⟨Option.some.inj h, hn⟩

theorem parseJsonU64Opt_integer {m : JsonNumber} {n : ℤ} (h : m.integer = some n) {u : UInt64}
    (hu : parseJsonU64Opt (.number m) = some u) : n = u.toNat := by
  cases m with
  | posInt p =>
      obtain rfl : p = u := Option.some.inj hu
      exact (Option.some.inj h).symm
  | negInt i =>
      have hneg := i.2
      change (if 0 ≤ (i : ℤ) then some (UInt64.ofNat (i : ℤ).toNat) else none) = some u at hu
      rw [if_neg (not_le.mpr hneg.2)] at hu
      cases hu
  | float bits => cases h

theorem parseJsonI64Opt_integer {m : JsonNumber} {n : ℤ} (h : m.integer = some n) {i : ℤ}
    (hi : parseJsonI64Opt (.number m) = some i) : n = i := by
  cases m with
  | posInt p =>
      obtain rfl := Option.some.inj h
      simp only [parseJsonI64Opt, JsonNumber.asI64, JsonNumber.asU64] at hi
      by_cases hp : p.toNat < 2 ^ 63
      · simp only [hp, if_true] at hi
        exact Option.some.inj hi
      · simp only [hp, if_false, Option.bind_some] at hi
        cases hi
  | negInt j =>
      obtain rfl := Option.some.inj h
      exact Option.some.inj hi
  | float bits => cases h

/-! ### Storing an integer -/

theorem orInvalid_map_ok {α : Type} {value : Option α} {f : α → MsgpackValue} {message : String}
    {w : MsgpackValue} (h : orInvalid (value.map f) message = .ok w) :
    ∃ a, value = some a ∧ f a = w := by
  cases value with
  | none => cases h
  | some a => exact ⟨a, rfl, Except.ok.inj h⟩

/-- What stands for itself as a number. -/
theorem jsonToMsgpackValue_integer {v : JsonValue} {m : JsonNumber} {n : ℤ}
    (hm : m.integer = some n) : jsonToMsgpackValue v = .integer n ↔ v = .number m := by
  constructor
  · intro h
    rw [jsonToMsgpackValue.eq_def] at h
    cases v with
    | number m' =>
        have hm' : m'.integer = some n := by
          cases m' with
          | posInt | negInt => exact congrArg some (MsgpackValue.integer.inj h)
          | float bits => cases h
        rw [integer_injective hm hm']
    | null | bool | string | array | object => cases h
  · rintro rfl
    rw [jsonToMsgpackValue.eq_def]
    cases m with
    | posInt | negInt => exact congrArg MsgpackValue.integer (Option.some.inj hm)
    | float bits => cases hm

/-- **An integer that is accepted is stored as it is.** One of an unsigned type is not
negative. -/
theorem encodeFieldValue_integer {field : FieldSpec} (henum : field.enumRef = none)
    (htype : field.fieldType ∈ integerTypes) {m : JsonNumber} {n : ℤ} (hm : m.integer = some n)
    {w : MsgpackValue} (h : encodeFieldValue crates registry order (.number m) field = .ok w) :
    w = .integer n ∧ (field.fieldType ∈ ["u64", "uint64"] → 0 ≤ n) ∧
      (field.fieldType ∈ "int32" :: timeTypes → n < 2 ^ 63) := by
  have hnoenum : encodeEnum registry order (.number m) field = none := by rw [encodeEnum, henum]
  have hunsigned : ∀ message, orInvalid ((parseJsonU64Opt (.number m)).map
      (MsgpackValue.integer ·.toNat)) message = .ok w → w = .integer n ∧ 0 ≤ n := by
    intro message h
    obtain ⟨u, hu, rfl⟩ := orInvalid_map_ok h
    obtain rfl := parseJsonU64Opt_integer hm hu
    exact ⟨rfl, by omega⟩
  have hsigned : ∀ message, orInvalid ((parseJsonI64Opt (.number m)).map .integer) message =
      .ok w → w = .integer n ∧ n < 2 ^ 63 := by
    intro message h
    obtain ⟨i, hi, rfl⟩ := orInvalid_map_ok h
    obtain rfl := parseJsonI64Opt_integer hm hi
    exact ⟨rfl, (parseJsonI64Opt_range hi).2⟩
  rw [encodeFieldValue.eq_def] at h
  simp only [hnoenum] at h
  generalize field.fieldType = type at *
  simp only [integerTypes, unsignedTypes, signedTypes, timeTypes, List.mem_append, List.mem_cons,
    List.not_mem_nil, or_false] at htype
  rcases htype with ((rfl | rfl | rfl | rfl | rfl | rfl) | rfl | rfl | rfl) | rfl | rfl | rfl
  case inl.inr.inr.inr =>
    -- the encoder does not know this type
    rw [← Except.ok.inj h]
    exact ⟨(jsonToMsgpackValue_integer hm).mpr rfl, fun hmem => absurd hmem (by decide),
      fun hmem => absurd hmem (by decide)⟩
  all_goals
    first
    | exact ⟨(hunsigned _ h).1, fun _ => (hunsigned _ h).2, fun hmem => absurd hmem (by decide)⟩
    | exact ⟨(hsigned _ h).1, fun hmem => absurd hmem (by decide), fun _ => (hsigned _ h).2⟩

/-! ### Showing an integer -/

theorem shownInteger_ne_null (options : RenderOptions) (type : String) (n : ℤ) :
    shownInteger options type n ≠ .null := by
  rw [shownInteger]
  split <;> nofun

/-- **A long integer** is shown if it is not negative. -/
theorem renderU64_iff {type : String} (htype : type ∈ longTypes) {n : ℤ}
    (hn : -2 ^ 63 ≤ n ∧ n < 2 ^ 64) (w : MsgpackValue) :
    renderU64 options w = shownInteger options type n ↔ w = .integer n ∧ 0 ≤ n := by
  have hraw : ∀ u : UInt64, renderU64Raw options u = shownInteger options type n ↔
      n = u.toNat := by
    intro u
    have hu := u.toNat_lt
    rw [renderU64Raw, shownInteger]
    cases options.u64Format with
    | string =>
        rw [if_pos ⟨htype, rfl⟩, JsonValue.string.injEq, eq_comm]
        exact Decimal.printInt_eq_print
    | number =>
        rw [if_neg (by simp), ← ofInt_toNat, JsonValue.number.injEq]
        exact ⟨fun h => (ofInt_injective ⟨by omega, by omega⟩ hn h).symm, fun h => by rw [h]⟩
  have hnull := (shownInteger_ne_null options type n).symm
  rw [renderU64]
  cases w with
  | integer k =>
      rw [valueToU64, MsgpackValue.integer.injEq]
      cases hk : integerAsU64 k with
      | some u =>
          have hku := integerAsU64_eq_some hk
          change renderU64Raw options u = shownInteger options type n ↔ k = n ∧ 0 ≤ n
          rw [hraw]
          omega
      | none =>
          refine ⟨fun h => absurd h hnull, ?_⟩
          rintro ⟨hkn, h0⟩
          rw [integerAsU64, if_pos (by omega)] at hk
          cases hk
  | nil | boolean | f32 | f64 | string | binary | array | map | ext =>
      exact ⟨fun h => absurd h hnull, by simp⟩

/-- **A short integer** is shown if it is in the range of signed integers. -/
theorem renderInt_iff {n : ℤ} (hn : -2 ^ 63 ≤ n ∧ n < 2 ^ 64) (w : MsgpackValue) :
    renderInt w = .number (.ofInt n) ↔ w = .integer n ∧ n < 2 ^ 63 := by
  rw [renderInt]
  cases w with
  | integer k =>
      rw [valueToI64, MsgpackValue.integer.injEq]
      cases hk : integerAsI64 k with
      | some i =>
          obtain ⟨rfl, hrange⟩ := integerAsI64_eq_some hk
          refine ⟨fun h => ?_, fun h => by rw [h.1]⟩
          have hkn := ofInt_injective ⟨hrange.1, by omega⟩ hn (JsonValue.number.inj h)
          exact ⟨hkn, hkn ▸ hrange.2⟩
      | none =>
          refine ⟨by rintro ⟨⟩, ?_⟩
          rintro ⟨hkn, hlt⟩
          rw [integerAsI64_eq (by omega) (by omega)] at hk
          cases hk
  | nil | boolean | f32 | f64 | string | binary | array | map | ext =>
      exact ⟨by rintro ⟨⟩, by simp⟩

variable (crates) in
theorem renderTime_eq_renderInt (h : options.timeRender = .unixMs) (w : MsgpackValue) :
    renderTime crates options w = renderInt w := by
  rw [renderTime, renderInt, h]
  cases valueToI64 w <;> rfl

/-- **What is shown as an integer** is this integer, in the range that its type is read in. -/
theorem renderFieldValue_integer {field : FieldSpec} (henum : field.enumRef = none)
    (htype : field.fieldType ∈ integerTypes)
    (htime : field.fieldType ∈ timeTypes → options.timeRender = .unixMs) {n : ℤ}
    (hn : -2 ^ 63 ≤ n ∧ n < 2 ^ 64) (w : MsgpackValue) :
    renderFieldValue crates options registry order w field =
        shownInteger options field.fieldType n ↔
      w = .integer n ∧ if field.fieldType ∈ longTypes then 0 ≤ n else n < 2 ^ 63 := by
  have htarget : field.target = none := by
    rw [FieldSpec.target, if_neg]
    rintro (h | h) <;> rw [h] at htype <;> exact absurd htype (by decide)
  rw [renderFieldValue_eq (renderEnum_none henum w) htarget]
  generalize field.fieldType = type at *
  by_cases hlong : type ∈ longTypes
  · rw [if_pos hlong, ← renderU64_iff hlong hn]
    simp only [longTypes, List.mem_cons, List.not_mem_nil, or_false] at hlong
    rcases hlong with rfl | rfl | rfl | rfl <;> rfl
  · rw [if_neg hlong, ← renderInt_iff hn, shownInteger, if_neg fun h => hlong h.1]
    simp only [integerTypes, unsignedTypes, signedTypes, timeTypes, List.mem_append,
      List.mem_cons, List.not_mem_nil, or_false] at htype
    rcases htype with ((rfl | rfl | rfl | rfl | rfl | rfl) | rfl | rfl | rfl) | rfl | rfl | rfl
    all_goals
      first
      | exact absurd (by decide) hlong
      | rfl
      | rw [← renderTime_eq_renderInt crates (htime (by decide))]
        rfl

/-! ### What stands under a tag -/

theorem lookup_map_snd {α β : Type} (f : α → β) (bs : List (UInt64 × α)) (tag : UInt64) :
    (bs.map fun b => (b.1, f b.2)).lookup tag = (bs.lookup tag).map f := by
  induction bs with
  | nil => rfl
  | cons b bs ih =>
      rw [List.map_cons, List.lookup_cons, List.lookup_cons]
      split
      · rfl
      · exact ih

theorem tagged_encodeExtra (obj : JsonFields) (desc : TypeVersionSpec) :
    (encodeExtra obj desc).filterMap taggedEntry =
      (numberedExtras obj desc).map fun entry => (entry.1, jsonToMsgpackValue entry.2) := by
  rw [encodeExtra, numberedExtras, List.filterMap_map, List.map_filterMap]
  refine List.filterMap_congr fun entry _ => ?_
  rw [Function.comp_apply, taggedEntry, keyToTag_plainKey, Option.map_map]
  rfl

/-- **What is read under a tag**: what the object has beside its fields goes before the field. -/
theorem lookup_tagMap_encoded {desc : TypeVersionSpec} {obj : JsonFields}
    {rs : List (Option (MsgpackValue × MsgpackValue))}
    (hrs : List.Forall₂ (fun entry r => encodeTagged crates registry order obj entry = .ok r)
      desc.taggedFields rs) {tag : UInt64} {field : FieldSpec}
    (hfield : desc.fields.lookup tag = some field) {v : JsonValue}
    (hv : obj.lookup field.name = some v) :
    ∃ w, encodeFieldValue crates registry order v field = .ok w ∧
      (tagMap (rs.reduceOption ++ encodeExtra obj desc)).lookup tag =
        some (((lastExtra obj desc tag).map jsonToMsgpackValue).getD w) := by
  obtain ⟨w, hw, hmem⟩ := mem_declared hrs (mem_taggedFields.mpr hfield) hv
  refine ⟨w, hw, ?_⟩
  have htagged : (tag, w) ∈ rs.reduceOption.filterMap taggedEntry :=
    List.mem_filterMap.mpr ⟨_, hmem, by rw [taggedEntry, keyToTag_integer]; rfl⟩
  -- the fields of the type have distinct tags
  have hdeclared : (tagMap rs.reduceOption).lookup tag = some w := by
    refine LastWrite.lookup_insertAll_of_unique (b := (tag, w)) htagged fun c hc heq => ?_
    obtain ⟨entry, hentry, hc⟩ := List.mem_filterMap.mp hc
    obtain ⟨tag', htag', rfl⟩ := Option.map_eq_some_iff.mp hc
    obtain rfl : tag' = tag := heq
    rw [List.inj_on_of_nodup_map (nodup_declared hrs) hentry hmem
      (declared_tag hrs hentry htag').1]
  rw [tagMap, LastWrite.lookup_insertAll_pairs] at hdeclared ⊢
  rw [List.filterMap_append, List.reverse_append, List.lookup_append, tagged_encodeExtra,
    ← List.map_reverse, lookup_map_snd, hdeclared, lastExtra]
  cases (numberedExtras obj desc).reverse.lookup tag <;> rfl

/-! ### There and back -/

theorem integerKept_iff {type : String} {n : ℤ} (htype : type ∈ integerTypes)
    (hunsigned : type ∈ ["u64", "uint64"] → 0 ≤ n)
    (hsigned : type ∈ "int32" :: timeTypes → n < 2 ^ 63) :
    (if type ∈ longTypes then 0 ≤ n else n < 2 ^ 63) ↔ IntegerKept type n := by
  have hcases : type ∈ longTypes ∧ type ∉ ["u32", "uint32", "u8", "uint8"] ∧
        (type ∈ ["u64", "uint64"] ∨ type ∈ ["i64", "int64"]) ∨
      type ∉ longTypes ∧ type ∉ ["i64", "int64"] ∧
        (type ∈ "int32" :: timeTypes ∨ type ∈ ["u32", "uint32", "u8", "uint8"]) := by
    simp only [integerTypes, unsignedTypes, signedTypes, timeTypes, List.mem_append,
      List.mem_cons, List.not_mem_nil, or_false] at htype
    rcases htype with ((rfl | rfl | rfl | rfl | rfl | rfl) | rfl | rfl | rfl) | rfl | rfl | rfl
    all_goals decide
  rcases hcases with ⟨hlong, hshort, hsign⟩ | ⟨hlong, hsign, hshort⟩
  · rw [if_pos hlong]
    refine ⟨fun h => ⟨fun _ => h, fun hmem => absurd hmem hshort⟩, fun h => ?_⟩
    rcases hsign with hsign | hsign
    · exact hunsigned hsign
    · exact h.nonneg hsign
  · rw [if_neg hlong]
    refine ⟨fun h => ⟨fun hmem => absurd hmem hsign, fun _ => h⟩, fun h => ?_⟩
    rcases hshort with hshort | hshort
    · exact hsigned hshort
    · exact h.short hshort

/-- **Integers there and back.** A payload is encoded that has an integer in a field of an
integer type, and is projected with its own type. The integer is shown exactly when it is one
that is kept and its field has its tag to itself. -/
theorem integer_round_trip {typeId : String} {typeVersion : UInt32} {desc : TypeVersionSpec}
    {obj : JsonFields} {tag : UInt64} {field : FieldSpec} {m : JsonNumber} {n : ℤ}
    {payload : Bytes} (hdesc : registry.getTypeVersion typeId typeVersion = some desc)
    (hfield : desc.fields.lookup tag = some field)
    (hname : ∀ tag' field', desc.fields.lookup tag' = some field' →
      field'.name = field.name → tag' = tag)
    (henum : field.enumRef = none) (htype : field.fieldType ∈ integerTypes)
    (htime : field.fieldType ∈ timeTypes → options.timeRender = .unixMs)
    (hm : m.integer = some n) (hv : obj.lookup field.name = some (.number m))
    (hencode : encodeHttpPayload crates registry order (.object obj) typeId typeVersion =
      .ok payload)
    (hcrate : ∀ value, encodeObjectWithDescriptor crates registry order obj desc = .ok value →
      crates.ReadsBack value) :
    ∃ result, projectMsgpack crates options registry order' payload desc = .ok result ∧
      (result.data.get field.name = some (shownInteger options field.fieldType n) ↔
        IntegerKept field.fieldType n ∧ TagFree obj desc tag m) := by
  obtain ⟨value, hvalue, hread⟩ : ∃ value,
      encodeObjectWithDescriptor crates registry order obj desc = .ok value ∧
        crates.readValue payload = .ok value := by
    simp only [encodeHttpPayload, hdesc, bind, Except.bind] at hencode
    split at hencode
    · cases hencode
    · next value hvalue =>
      obtain ⟨bytes, hwrite, hread⟩ := hcrate value hvalue
      rw [hwrite] at hencode
      obtain rfl := Except.ok.inj hencode
      exact ⟨value, hvalue, hread⟩
  obtain ⟨rs, hrs, rfl⟩ := encodeObject_entries hvalue
  refine ⟨_, projectMsgpack_eq hread, ?_⟩
  obtain ⟨w, hw, hlookup⟩ := lookup_tagMap_encoded hrs hfield hv
  obtain ⟨rfl, hunsigned, hsigned⟩ := encodeFieldValue_integer henum htype hm hw
  obtain ⟨tag', field', w', hfield', hlookup', hsame, hshown⟩ :=
    exists_lookup_projected crates options registry order' [] hfield hlookup
  -- no other field of the type has this name
  obtain rfl := hname tag' field' hfield' hsame
  obtain rfl := Option.some.inj (hfield'.symm.trans hfield)
  obtain rfl := Option.some.inj (hlookup'.symm.trans hlookup)
  rw [projection, JsonValue.get, hshown, Option.some_inj,
    renderFieldValue_integer henum htype htime (integer_range hm),
    integerKept_iff htype hunsigned hsigned, and_comm]
  refine and_congr_right fun _ => ?_
  rw [TagFree]
  cases lastExtra obj desc tag' with
  | none => exact ⟨fun _ => by simp, fun _ => rfl⟩
  | some v =>
      exact (jsonToMsgpackValue_integer hm).trans
        ⟨fun h v' hv' => (Option.some.inj hv').symm.trans h, fun h => h v rfl⟩

/-! ### A signed counter -/

def countField : FieldSpec where
  name := "count"
  fieldType := "int64"
  enumRef := none
  typeRef := none
  optional := false
  items := none

def counterType : TypeVersionSpec where
  version := 1
  fields := Finmap.singleton 1 countField
  renderer := none

def counterRegistry : Registry :=
  { Registry.empty with
    types := Finmap.singleton "test:Counter"
      { TypeSpec.empty with versions := Finmap.singleton 1 counterType } }

/-- A counter that stands at a number. -/
def counterPayload (m : JsonNumber) : JsonFields := [("count", .number m)]

def counterValue (n : ℤ) : MsgpackValue := .map [(.integer 1, .integer n)]

theorem lookup_countField : counterType.fields.lookup 1 = some countField :=
  Finmap.lookup_singleton_eq

theorem counterRegistry_type :
    counterRegistry.getTypeVersion "test:Counter" 1 = some counterType := by
  rw [Registry.getTypeVersion, counterRegistry, Finmap.lookup_singleton_eq, Option.bind_some,
    Finmap.lookup_singleton_eq]

theorem encode_counterPayload {m : JsonNumber} {n : ℤ}
    (hm : readScalar crates "int64" (.number m) = some (.integer n)) :
    encodeObjectWithDescriptor crates counterRegistry order (counterPayload m) counterType =
      .ok (counterValue n) := by
  have htagged : counterType.taggedFields = [(1, countField)] := by decide
  have hfield : encodeFieldValue crates counterRegistry order (.number m) countField =
      .ok (.integer n) :=
    encodeFieldValue_scalar (x := .integer n) rfl rfl nofun hm fun _ _ => nofun
  have hextra : encodeExtra (counterPayload m) counterType = [] := by
    rw [encodeExtra, extraFields, htagged]
    rfl
  have hentry : encodeTagged crates counterRegistry order (counterPayload m) (1, countField) =
      .ok (some (.integer 1, .integer n)) := by
    rw [encodeTagged]
    exact congrArg (Except.map _) hfield
  rw [encodeObject_eq, htagged, hextra, List.mapM_cons, hentry]
  rfl

/-- The crates as they are on the map of a counter. -/
def counterCrates (n : ℤ) (digit : UInt8) : PayloadCrates :=
  cratesFor (counterValue n) [0x81, 0x01, digit]

theorem encodeHttp_counterPayload {m : JsonNumber} {n : ℤ} {digit : UInt8}
    (hm : readScalar (counterCrates n digit) "int64" (.number m) = some (.integer n)) :
    encodeHttpPayload (counterCrates n digit) counterRegistry order
      (.object (counterPayload m)) "test:Counter" 1 = .ok [0x81, 0x01, digit] := by
  simp only [encodeHttpPayload, counterRegistry_type, bind, Except.bind,
    encode_counterPayload hm]
  rfl

/-- A counter that stands at five is shown. -/
theorem integer_round_trip_counter :
    ∃ result, projectMsgpack (counterCrates 5 0x05) defaultOptions counterRegistry .sorted
        [0x81, 0x01, 0x05] counterType = .ok result ∧
      (result.data.get "count" = some (shownInteger defaultOptions "int64" 5) ↔
        IntegerKept "int64" 5 ∧
          TagFree (counterPayload (.posInt 5)) counterType 1 (.posInt 5)) := by
  have hencode : encodeHttpPayload (counterCrates 5 0x05) counterRegistry .sorted
      (.object (counterPayload (.posInt 5))) "test:Counter" 1 = .ok [0x81, 0x01, 0x05] :=
    encodeHttp_counterPayload rfl
  refine integer_round_trip counterRegistry_type lookup_countField
    (fun tag' field' hfield' _ => (of_lookup_singleton hfield').1) rfl (by decide)
    (fun htime => absurd htime (by decide)) rfl rfl hencode fun value hvalue => ?_
  rw [encode_counterPayload (n := 5) rfl] at hvalue
  obtain rfl := Except.ok.inj hvalue
  exact ⟨_, rfl, rfl⟩

/-- The number minus one. -/
def minusOne : JsonNumber := .negInt ⟨-1, by decide⟩

/-- **A negative integer is lost.** The encoder accepts minus one for a signed type, and the
projector shows null. -/
theorem negative_int64_lost :
    encodeHttpPayload (counterCrates (-1) 0xff) counterRegistry .sorted
        (.object (counterPayload minusOne)) "test:Counter" 1 = .ok [0x81, 0x01, 0xff] ∧
      ∃ result, projectMsgpack (counterCrates (-1) 0xff) defaultOptions counterRegistry .sorted
          [0x81, 0x01, 0xff] counterType = .ok result ∧
        result.data.get "count" = some .null ∧
        result.data.get "count" ≠ some (shownInteger defaultOptions "int64" (-1)) := by
  refine ⟨encodeHttp_counterPayload rfl, _, projectMsgpack_eq rfl, ?_⟩
  have hvalue : (tagMap [(.integer 1, .integer (-1))]).lookup 1 = some (.integer (-1)) := rfl
  obtain ⟨tag, field, w, hfield, hlookup, -, hshown⟩ :=
    exists_lookup_projected (counterCrates (-1) 0xff) defaultOptions counterRegistry .sorted []
      lookup_countField hvalue
  obtain ⟨rfl, rfl⟩ := of_lookup_singleton hfield
  obtain rfl : .integer (-1) = w := Option.some.inj hlookup
  rw [renderFieldValue_eq (renderEnum_none rfl _) rfl] at hshown
  have hnull : (projection (counterCrates (-1) 0xff) defaultOptions counterRegistry .sorted
      counterType (tagMap [(.integer 1, .integer (-1))])).data.get "count" = some .null := hshown
  refine ⟨hnull, fun h => ?_⟩
  rw [hnull] at h
  exact shownInteger_ne_null _ _ _ (Option.some.inj h).symm

end Cxdb
