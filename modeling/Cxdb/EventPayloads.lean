import Cxdb.ProviderJson

/-!
# Fields of Event Payloads

How the clients read a field of an event: `clients/go/sse_decode.go` and
`clients/rust/src/sse_decode.rs`, and what `encoding/json` and `serde` do for the types of the
fields. The JSON text is read already. A number keeps its sign and its digits, on which the two
sides differ: in Go it is a 64-bit integer or none, while `serde_json` makes an unsigned or a
negative integer of it, or, where neither fits and for `-0`, a float.

A Go field is read in place, so it has what was there before when a value says nothing.

## Main results

* `goRead_eq_none_iff`, `rustRead_eq_none_iff`: what either side refuses, by the form of the value.
* `goRead_eq_rustRead`: what neither refuses is read as the same.
-/

open F64 (digitsValue)

namespace Cxdb

namespace Sse

/-- A JSON value. -/
inductive Json where
  | null
  | bool (b : Bool)
  /-- A number without fraction and exponent. -/
  | integer (negative : Bool) (magnitude : ℕ)
  /-- A number with a fraction or an exponent. -/
  | fraction
  | string (s : String)
  | array (items : List Json)
  | object (members : List (String × Json))

/-- The types of the fields; a version may be missing, and a type name may be null. -/
inductive FieldType where
  | uint64
  | uint32
  | int64
  | version
  | string
  | typeName
  | bool
  | strings
  deriving DecidableEq

/-- What a field holds. -/
abbrev FieldType.Carrier : FieldType → Type
  | .uint64 => UInt64
  | .uint32 => UInt32
  | .int64 => ℤ
  | .version => Option UInt32
  | .string | .typeName => String
  | .bool => Bool
  | .strings => List String

/-- The value of a field that is missing. -/
def FieldType.default : (t : FieldType) → t.Carrier
  | .uint64 => (0 : UInt64)
  | .uint32 => (0 : UInt32)
  | .int64 => (0 : ℤ)
  | .version => (none : Option UInt32)
  | .string | .typeName => ""
  | .bool => false
  | .strings => ([] : List String)

/-! ### The Rust client -/

/-- `Number` of `serde_json`. -/
inductive SerdeNumber where
  | posInt (n : UInt64)
  | negInt (n : ℤ)
  | float

/-- The number of a literal. -/
def serdeNumber (negative : Bool) (magnitude : ℕ) : SerdeNumber :=
  if negative then
    if 0 < magnitude ∧ magnitude ≤ 2 ^ 63 then .negInt (-magnitude) else .float
  else if magnitude < 2 ^ 64 then .posInt (UInt64.ofNat magnitude)
  else .float

namespace Rust

/-- `parse_u64_str`. -/
def parseU64Str (s : String) : Option UInt64 :=
  let trimmed := trim s
  if trimmed = "" then some 0 else Decimal.parseU64 trimmed

/-- `parse_i64_str`. -/
def parseI64Str (s : String) : Option ℤ :=
  let trimmed := trim s
  if trimmed = "" then some 0 else Decimal.parseI64 trimmed

/-- `SseUint64Visitor`. -/
def sseUint64 : Json → Option UInt64
  | .integer negative magnitude =>
    match serdeNumber negative magnitude with
    | .posInt n => some n
    | .negInt n => if n < 0 then none else some (UInt64.ofNat n.toNat)
    | .float => none
  | .string s => parseU64Str s
  | .null => some 0
  | _ => none

/-- `visit_u64` of `SseUint32Visitor`. -/
def visitU64 (n : UInt64) : Option UInt32 :=
  if 2 ^ 32 ≤ n.toNat then none else some (UInt32.ofNat n.toNat)

/-- `SseUint32Visitor`. -/
def sseUint32 : Json → Option UInt32
  | .integer negative magnitude =>
    match serdeNumber negative magnitude with
    | .posInt n => visitU64 n
    | .negInt n => if n < 0 then none else visitU64 (UInt64.ofNat n.toNat)
    | .float => none
  | .string s => (parseU64Str s).bind visitU64
  | .null => some 0
  | _ => none

/-- `SseInt64Visitor`. -/
def sseInt64 : Json → Option ℤ
  | .integer negative magnitude =>
    match serdeNumber negative magnitude with
    | .posInt n => if 2 ^ 63 ≤ n.toNat then none else some n.toNat
    | .negInt n => some n
    | .float => none
  | .string s => parseI64Str s
  | .null => some 0
  | _ => none

/-- `String`. -/
def readString : Json → Option String
  | .string s => some s
  | _ => none

/-- A field as `serde` reads it. -/
def read : (t : FieldType) → Json → Option t.Carrier
  | .uint64, v => sseUint64 v
  | .uint32, v => sseUint32 v
  | .int64, v => sseInt64 v
  | .version, .null => some none
  | .version, v => (sseUint32 v).map some
  | .string, v => readString v
  | .typeName, .null => some ""
  | .typeName, v => readString v
  | .bool, .bool b => some b
  | .bool, _ => none
  | .strings, .array items => items.mapM readString
  | .strings, _ => none

end Rust

/-! ### The Go client -/

/-- `Int64` of `json.Number`. -/
def int64 (negative : Bool) (magnitude : ℕ) : Option ℤ :=
  if negative then if magnitude ≤ 2 ^ 63 then some (-magnitude) else none
  else if magnitude < 2 ^ 63 then some magnitude
  else none

namespace Go

/-- `strconv.ParseUint` for 64 bits: digits, without a sign. -/
def parseUint (s : String) : Option UInt64 :=
  let digits := s.toList
  if digits ≠ [] ∧ digits.all Char.isDigit = true ∧ digitsValue digits < 2 ^ 64 then
    some (UInt64.ofNat (digitsValue digits))
  else none

/-- `decodeUint64`: what `dest` holds then. -/
def decodeUint64 (dest : UInt64) : Json → Option UInt64
  | .null => some dest
  | .string s =>
    let s := trim s
    if s = "" then some dest else parseUint s
  | .integer negative magnitude =>
    (int64 negative magnitude).bind fun v =>
      if v < 0 then none else some (UInt64.ofNat v.toNat)
  | _ => none

/-- `decodeInt64`: what `dest` holds then. -/
def decodeInt64 (dest : ℤ) : Json → Option ℤ
  | .null => some dest
  | .string s =>
    let s := trim s
    if s = "" then some dest else Decimal.parseI64 s
  | .integer negative magnitude => int64 negative magnitude
  | _ => none

/-- `UnmarshalJSON` of `sseUint32`, which starts from 0. -/
def sseUint32 (v : Json) : Option UInt32 :=
  (decodeUint64 0 v).bind fun n =>
    if 2 ^ 32 ≤ n.toNat then none else some (UInt32.ofNat n.toNat)

/-- A string that is read in place. -/
def readString (old : String) : Json → Option String
  | .string s => some s
  | .null => some old
  | _ => none

/-- What a field holds between members: a slice has elements behind its length that are read in
place when it grows again. -/
abbrev State : FieldType → Type
  | .strings => List String × List String
  | t => t.Carrier

/-- The field before any member. -/
def init : (t : FieldType) → State t
  | .uint64 => FieldType.default .uint64
  | .uint32 => FieldType.default .uint32
  | .int64 => FieldType.default .int64
  | .version => FieldType.default .version
  | .string => FieldType.default .string
  | .typeName => FieldType.default .typeName
  | .bool => FieldType.default .bool
  | .strings => ([], [])

/-- What the event has of a field. -/
def value : (t : FieldType) → State t → t.Carrier
  | .uint64, st => st
  | .uint32, st => st
  | .int64, st => st
  | .version, st => st
  | .string, st => st
  | .typeName, st => st
  | .bool, st => st
  | .strings, st => st.1

/-- The elements of an array, each over the one that was there. -/
def readStrings : List String → List Json → Option (List String)
  | _, [] => some []
  | old, v :: vs => do
    let s ← readString (old.headD "") v
    let ss ← readStrings old.tail vs
    return s :: ss

/-- A slice of strings. -/
def readSlice (st : List String × List String) : Json → Option (List String × List String)
  | .null => some ([], [])
  | .array [] => some ([], [])
  | .array items =>
    (readStrings (st.1 ++ st.2) items).map fun ss => (ss, (st.1 ++ st.2).drop ss.length)
  | _ => none

/-- A field as `encoding/json` reads it. -/
def read : (t : FieldType) → State t → Json → Option (State t)
  | .uint64, st, v => decodeUint64 st v
  | .uint32, _, v => sseUint32 v
  | .int64, st, v => decodeInt64 st v
  | .version, _, .null => some none
  | .version, _, v => (sseUint32 v).map some
  | .string, st, v => readString st v
  | .typeName, st, v => readString st v
  | .bool, _, .bool b => some b
  | .bool, st, .null => some st
  | .bool, _, _ => none
  | .strings, st, v => readSlice st v

end Go

/-! ### The forms of values -/

/-- Which side accepts a value. -/
inductive Verdict where
  | both
  | goOnly
  | rustOnly
  | neither
  deriving DecidableEq

/-- Digits of a number of `bits` bits. -/
def isUint (bits : ℕ) (cs : List Char) : Bool :=
  cs ≠ [] ∧ cs.all Char.isDigit = true ∧ digitsValue cs < 2 ^ bits

/-- The text of an unsigned number; only Rust reads a plus sign. -/
def textVerdict (bits : ℕ) (s : String) : Verdict :=
  match (trim s).toList with
  | [] => .both
  | '+' :: digits => if isUint bits digits then .rustOnly else .neither
  | digits => if isUint bits digits then .both else .neither

/-- An unsigned number: only Go reads `-0`, and only Rust a number of 64 bits. -/
def uintVerdict (bits : ℕ) : Json → Verdict
  | .null => .both
  | .integer true magnitude => if magnitude = 0 then .goOnly else .neither
  | .integer false magnitude =>
    if 2 ^ bits ≤ magnitude then .neither
    else if 2 ^ 63 ≤ magnitude then .rustOnly
    else .both
  | .string s => textVerdict bits s
  | _ => .neither

/-- A signed number: only Go reads `-0`. -/
def intVerdict : Json → Verdict
  | .null => .both
  | .integer true magnitude =>
    if magnitude = 0 then .goOnly else if magnitude ≤ 2 ^ 63 then .both else .neither
  | .integer false magnitude => if magnitude < 2 ^ 63 then .both else .neither
  | .string s =>
    if trim s = "" ∨ (Decimal.parseI64 (trim s)).isSome then .both else .neither
  | _ => .neither

/-- An array of strings; only Go takes a null among them. -/
def stringsVerdict : List Json → Verdict
  | [] => .both
  | .string _ :: vs => stringsVerdict vs
  | .null :: vs => if stringsVerdict vs = .neither then .neither else .goOnly
  | _ :: _ => .neither

/-- Which side accepts a value for a field. -/
def verdict : FieldType → Json → Verdict
  | .uint64, v => uintVerdict 64 v
  | .uint32, v | .version, v => uintVerdict 32 v
  | .int64, v => intVerdict v
  | .string, .string _ | .typeName, .string _ | .typeName, .null | .bool, .bool _ => .both
  | .string, .null | .bool, .null | .strings, .null => .goOnly
  | .strings, .array items => stringsVerdict items
  | _, _ => .neither

/-- Go refuses what it does not accept. -/
def Verdict.goRefuses (r : Verdict) : Bool := r = .rustOnly || r = .neither

/-- Rust refuses what it does not accept. -/
def Verdict.rustRefuses (r : Verdict) : Bool := r = .goOnly || r = .neither

theorem Verdict.eq_both {r : Verdict} (hgo : ¬ r.goRefuses = true)
    (hrust : ¬ r.rustRefuses = true) : r = .both := by
  cases r with
  | both => rfl
  | goOnly | neither => exact absurd rfl hrust
  | rustOnly => exact absurd rfl hgo

/-! ### Texts of numbers -/

/-- The number of some digits, if it fits. -/
def uintOf (digits : List Char) : Option UInt64 :=
  if isUint 64 digits then some (UInt64.ofNat (digitsValue digits)) else none

theorem isUint_iff {bits : ℕ} {cs : List Char} : isUint bits cs = true ↔
    cs ≠ [] ∧ cs.all Char.isDigit = true ∧ digitsValue cs < 2 ^ bits := by
  rw [isUint, decide_eq_true_eq]

theorem Go.parseUint_eq (s : String) : Go.parseUint s = uintOf s.toList := by
  rw [Go.parseUint, uintOf]
  simp only [isUint_iff]

theorem uintOf_plus (digits : List Char) : uintOf ('+' :: digits) = none := by
  refine if_neg fun h => ?_
  have hall := (isUint_iff.mp h).2.1
  rw [List.all_cons, Bool.and_eq_true] at hall
  exact absurd hall.1 (by decide)

theorem parseU64_of_plus {s : String} {digits : List Char} (h : s.toList = '+' :: digits) :
    Decimal.parseU64 s = uintOf digits := by
  rw [Decimal.parseU64, Decimal.parseUint, h, uintOf]
  simp only [isUint_iff]
  split <;> rfl

theorem parseU64_of_ne_plus {s : String} (h : ∀ digits, s.toList ≠ '+' :: digits) :
    Decimal.parseU64 s = uintOf s.toList := by
  rw [Decimal.parseU64, Decimal.parseUint, uintOf]
  -- The branch for a plus sign is ruled out by `h`.
  simp only [isUint_iff]
  split <;> rfl

/-- The forms of a text, with what either side reads. -/
theorem text_cases (s : String) :
    (trim s = "" ∧ Rust.parseU64Str s = some 0 ∧ (∀ d, Go.decodeUint64 d (.string s) = some d) ∧
        ∀ bits, textVerdict bits s = .both) ∨
      (∃ digits, Rust.parseU64Str s = uintOf digits ∧ (∀ d, Go.decodeUint64 d (.string s) = none) ∧
        ∀ bits, textVerdict bits s = if isUint bits digits then .rustOnly else .neither) ∨
      ∃ digits, Rust.parseU64Str s = uintOf digits ∧
        (∀ d, Go.decodeUint64 d (.string s) = uintOf digits) ∧
        ∀ bits, textVerdict bits s = if isUint bits digits then .both else .neither := by
  by_cases hempty : trim s = ""
  · refine Or.inl ⟨hempty, ?_, fun d => ?_, fun bits => ?_⟩
    · rw [Rust.parseU64Str, if_pos hempty]
    · rw [Go.decodeUint64, if_pos hempty]
    · rw [textVerdict, hempty]
      rfl
  have hrust : Rust.parseU64Str s = Decimal.parseU64 (trim s) := by
    rw [Rust.parseU64Str, if_neg hempty]
  have hgo : ∀ d, Go.decodeUint64 d (.string s) = uintOf (trim s).toList := by
    intro d
    rw [Go.decodeUint64, if_neg hempty, Go.parseUint_eq]
  refine Or.inr ?_
  by_cases hplus : ∃ digits, (trim s).toList = '+' :: digits
  · obtain ⟨digits, hdigits⟩ := hplus
    refine Or.inl ⟨digits, hrust.trans (parseU64_of_plus hdigits), fun d => ?_, fun bits => ?_⟩
    · rw [hgo, hdigits, uintOf_plus]
    · rw [textVerdict, hdigits]
      rfl
  · have hne : ∀ digits, (trim s).toList ≠ '+' :: digits := fun digits h => hplus ⟨digits, h⟩
    refine Or.inr ⟨(trim s).toList, hrust.trans (parseU64_of_ne_plus hne), hgo, fun bits => ?_⟩
    rw [textVerdict]
    split
    next heq => exact absurd (String.toList_eq_nil_iff.mp heq) hempty
    next digits heq => exact absurd heq (hne digits)
    · rfl

/-- The numbers of 32 bits among those of 64. -/
theorem uintOf_bind_visitU64 (digits : List Char) :
    (uintOf digits).bind Rust.visitU64 =
      if isUint 32 digits then some (UInt32.ofNat (digitsValue digits)) else none := by
  rw [uintOf]
  by_cases h64 : isUint 64 digits = true
  · have h := isUint_iff.mp h64
    have hnat : (UInt64.ofNat (digitsValue digits)).toNat = digitsValue digits :=
      UInt64.toNat_ofNat_of_lt' h.2.2
    rw [if_pos h64, Option.bind_some, Rust.visitU64, hnat]
    by_cases hlt : digitsValue digits < 2 ^ 32
    · rw [if_neg (by omega), if_pos (isUint_iff.mpr ⟨h.1, h.2.1, hlt⟩)]
    · rw [if_pos (by omega), if_neg fun h32 => hlt (isUint_iff.mp h32).2.2]
  · rw [if_neg h64, Option.bind_none, if_neg]
    intro h32
    obtain ⟨hne, hall, hlt⟩ := isUint_iff.mp h32
    exact h64 (isUint_iff.mpr ⟨hne, hall, hlt.trans (by norm_num)⟩)

/-! ### Unsigned numbers -/

/-- A number without sign. -/
theorem uint64_nonneg (d : UInt64) (m : ℕ) :
    Go.decodeUint64 d (.integer false m) =
        (if m < 2 ^ 63 then some (UInt64.ofNat m) else none) ∧
      Rust.sseUint64 (.integer false m) =
        (if m < 2 ^ 64 then some (UInt64.ofNat m) else none) := by
  constructor
  · rw [Go.decodeUint64, int64, if_neg (by decide)]
    split
    · rw [Option.bind_some, if_neg (by omega), Int.toNat_natCast]
    · rfl
  · rw [Rust.sseUint64, serdeNumber, if_neg (by decide)]
    by_cases h : m < 2 ^ 64
    · rw [if_pos h, if_pos h]
    · rw [if_neg h, if_neg h]

/-- A number with a sign. -/
theorem uint64_neg (d : UInt64) (m : ℕ) :
    Go.decodeUint64 d (.integer true m) = (if m = 0 then some 0 else none) ∧
      Rust.sseUint64 (.integer true m) = none := by
  constructor
  · rw [Go.decodeUint64, int64, if_pos rfl]
    by_cases h0 : m = 0
    · subst h0
      rfl
    · rw [if_neg h0]
      split
      · rw [Option.bind_some, if_pos (by omega)]
      · rfl
  · rw [Rust.sseUint64, serdeNumber, if_pos rfl]
    by_cases h : 0 < m ∧ m ≤ 2 ^ 63
    · rw [if_pos h]
      exact if_pos (by omega)
    · rw [if_neg h]

/-- **Identifiers**: what is refused, and what is read of the rest. -/
theorem uint64_spec (v : Json) :
    (∀ d, Go.decodeUint64 d v = none ↔ (uintVerdict 64 v).goRefuses = true) ∧
      (Rust.sseUint64 v = none ↔ (uintVerdict 64 v).rustRefuses = true) ∧
      (uintVerdict 64 v = .both → Go.decodeUint64 0 v = Rust.sseUint64 v) := by
  cases v with
  | null => exact ⟨fun d => by simp [Go.decodeUint64, uintVerdict, Verdict.goRefuses],
      by simp [Rust.sseUint64, uintVerdict, Verdict.rustRefuses], fun _ => rfl⟩
  | bool | fraction | array | object =>
      exact ⟨fun d => by simp [Go.decodeUint64, uintVerdict, Verdict.goRefuses],
        by simp [Rust.sseUint64, uintVerdict, Verdict.rustRefuses], nofun⟩
  | integer negative m =>
      cases negative with
      | false =>
          have hspec := fun d => uint64_nonneg d m
          simp only [(hspec _).1, (hspec 0).2, uintVerdict]
          by_cases h64 : 2 ^ 64 ≤ m
          · simp only [if_pos h64, if_neg (show ¬ m < 2 ^ 63 by omega), if_neg h64.not_gt]
            exact ⟨fun _ => by decide, by decide, nofun⟩
          · by_cases h63 : 2 ^ 63 ≤ m
            · simp only [if_neg h64, if_pos h63, if_neg h63.not_gt, if_pos (not_le.mp h64)]
              exact ⟨fun _ => by decide, by simp [Verdict.rustRefuses], nofun⟩
            · simp only [if_neg h64, if_neg h63, if_pos (not_le.mp h63), if_pos (not_le.mp h64)]
              exact ⟨fun _ => by simp [Verdict.goRefuses], by simp [Verdict.rustRefuses],
                fun _ => trivial⟩
      | true =>
          have hspec := fun d => uint64_neg d m
          simp only [(hspec _).1, (hspec 0).2, uintVerdict]
          by_cases h0 : m = 0 <;> simp [h0, Verdict.goRefuses, Verdict.rustRefuses]
  | string s =>
      rcases text_cases s with ⟨-, hrust, hgo, hform⟩ | ⟨digits, hrust, hgo, hform⟩ |
        ⟨digits, hrust, hgo, hform⟩
      · simp [Rust.sseUint64, uintVerdict, hrust, hgo, hform, Verdict.goRefuses,
          Verdict.rustRefuses]
      · simp only [Rust.sseUint64, uintVerdict, hrust, hgo, hform, uintOf]
        by_cases h : isUint 64 digits = true <;> simp [h, Verdict.goRefuses, Verdict.rustRefuses]
      · simp only [Rust.sseUint64, uintVerdict, hrust, hgo, hform, uintOf]
        by_cases h : isUint 64 digits = true <;> simp [h, Verdict.goRefuses, Verdict.rustRefuses]

theorem Go.sseUint32_eq (v : Json) :
    Go.sseUint32 v = (Go.decodeUint64 0 v).bind Rust.visitU64 := rfl

theorem Rust.sseUint32_eq (v : Json) :
    Rust.sseUint32 v = (Rust.sseUint64 v).bind Rust.visitU64 := by
  cases v with
  | integer negative m =>
      rw [Rust.sseUint32, Rust.sseUint64]
      cases serdeNumber negative m with
      | posInt n => rfl
      | negInt n =>
          dsimp only
          split <;> rfl
      | float => rfl
  | null | bool | fraction | string | array | object => rfl

/-- A number of 64 bits that is cut down. -/
theorem visitU64_ofNat {m : ℕ} (h : m < 2 ^ 64) :
    Rust.visitU64 (UInt64.ofNat m) = if m < 2 ^ 32 then some (UInt32.ofNat m) else none := by
  rw [Rust.visitU64, UInt64.toNat_ofNat_of_lt' h]
  by_cases h32 : m < 2 ^ 32
  · rw [if_neg (by omega), if_pos h32]
  · rw [if_pos (by omega), if_neg h32]

/-- **Depths and versions**: what is refused, and what is read of the rest. -/
theorem uint32_spec (v : Json) :
    (Go.sseUint32 v = none ↔ (uintVerdict 32 v).goRefuses = true) ∧
      (Rust.sseUint32 v = none ↔ (uintVerdict 32 v).rustRefuses = true) ∧
      (uintVerdict 32 v = .both → Go.sseUint32 v = Rust.sseUint32 v) := by
  rw [Go.sseUint32_eq, Rust.sseUint32_eq]
  cases v with
  | null => exact ⟨by decide, by decide, fun _ => rfl⟩
  | bool | fraction | array | object =>
      exact ⟨by simp [Go.decodeUint64, uintVerdict, Verdict.goRefuses],
        by simp [Rust.sseUint64, uintVerdict, Verdict.rustRefuses], nofun⟩
  | integer negative m =>
      cases negative with
      | false =>
          rw [(uint64_nonneg 0 m).1, (uint64_nonneg 0 m).2, uintVerdict]
          by_cases h32 : 2 ^ 32 ≤ m
          · have hcut : ∀ b, m < b → b ≤ 2 ^ 64 → Rust.visitU64 (UInt64.ofNat m) = none :=
              fun b hb hle => by rw [visitU64_ofNat (hb.trans_le hle), if_neg h32.not_gt]
            have hgo : (if m < 2 ^ 63 then some (UInt64.ofNat m) else none).bind
                Rust.visitU64 = none := by
              split
              next h => exact hcut _ h (by norm_num)
              · rfl
            have hrust : (if m < 2 ^ 64 then some (UInt64.ofNat m) else none).bind
                Rust.visitU64 = none := by
              split
              next h => exact hcut _ h le_rfl
              · rfl
            rw [hgo, hrust, if_pos h32]
            exact ⟨by decide, by decide, nofun⟩
          · have hlt : m < 2 ^ 32 := not_le.mp h32
            rw [if_neg h32, if_pos (show m < 2 ^ 63 by omega), if_pos (show m < 2 ^ 64 by omega),
              if_neg (show ¬ 2 ^ 63 ≤ m by omega), Option.bind_some, visitU64_ofNat (by omega),
              if_pos hlt]
            exact ⟨by simp [Verdict.goRefuses], by simp [Verdict.rustRefuses], fun _ => rfl⟩
      | true =>
          rw [(uint64_neg 0 m).1, (uint64_neg 0 m).2, uintVerdict]
          by_cases h0 : m = 0
          · rw [if_pos h0, if_pos h0]
            exact ⟨by decide, by decide, nofun⟩
          · rw [if_neg h0, if_neg h0]
            exact ⟨by decide, by decide, nofun⟩
  | string s =>
      rw [Rust.sseUint64, uintVerdict]
      rcases text_cases s with ⟨-, hrust, hgo, hform⟩ | ⟨digits, hrust, hgo, hform⟩ |
        ⟨digits, hrust, hgo, hform⟩
      · rw [hrust, hgo, hform]
        exact ⟨by decide, by decide, fun _ => rfl⟩
      · rw [hrust, hgo, hform, uintOf_bind_visitU64]
        by_cases h : isUint 32 digits = true <;> simp [h, Verdict.goRefuses, Verdict.rustRefuses]
      · rw [hrust, hgo, hform, uintOf_bind_visitU64]
        by_cases h : isUint 32 digits = true <;> simp [h, Verdict.goRefuses, Verdict.rustRefuses]

/-! ### Signed numbers -/

theorem Rust.sseInt64_nonneg (m : ℕ) :
    Rust.sseInt64 (.integer false m) = if m < 2 ^ 63 then some (m : ℤ) else none := by
  rw [Rust.sseInt64, serdeNumber, if_neg (by decide)]
  by_cases h64 : m < 2 ^ 64
  · rw [if_pos h64]
    dsimp only
    rw [UInt64.toNat_ofNat_of_lt' h64]
    by_cases h63 : m < 2 ^ 63
    · rw [if_neg h63.not_ge, if_pos h63]
    · rw [if_pos (not_lt.mp h63), if_neg h63]
  · rw [if_neg h64, if_neg (by omega)]

/-- **Times**: what is refused, and what is read of the rest. -/
theorem int64_spec (v : Json) :
    (∀ d, Go.decodeInt64 d v = none ↔ (intVerdict v).goRefuses = true) ∧
      (Rust.sseInt64 v = none ↔ (intVerdict v).rustRefuses = true) ∧
      (intVerdict v = .both → Go.decodeInt64 0 v = Rust.sseInt64 v) := by
  cases v with
  | null => exact ⟨fun d => by simp [Go.decodeInt64, intVerdict, Verdict.goRefuses],
      by simp [Rust.sseInt64, intVerdict, Verdict.rustRefuses], fun _ => rfl⟩
  | bool | fraction | array | object =>
      exact ⟨fun d => by simp [Go.decodeInt64, intVerdict, Verdict.goRefuses],
        by simp [Rust.sseInt64, intVerdict, Verdict.rustRefuses], nofun⟩
  | integer negative m =>
      cases negative with
      | false =>
          rw [Rust.sseInt64_nonneg, intVerdict]
          simp only [Go.decodeInt64, int64, if_neg (show ¬ false = true by decide)]
          by_cases h63 : m < 2 ^ 63
          · simp only [if_pos h63]
            exact ⟨fun _ => by simp [Verdict.goRefuses], by simp [Verdict.rustRefuses],
              fun _ => trivial⟩
          · simp only [if_neg h63]
            exact ⟨fun _ => by decide, by decide, nofun⟩
      | true =>
          have hrust : Rust.sseInt64 (.integer true m) =
              if 0 < m ∧ m ≤ 2 ^ 63 then some (-m : ℤ) else none := by
            rw [Rust.sseInt64, serdeNumber, if_pos rfl]
            by_cases h : 0 < m ∧ m ≤ 2 ^ 63
            · rw [if_pos h, if_pos h]
            · rw [if_neg h, if_neg h]
          rw [hrust, intVerdict]
          simp only [Go.decodeInt64, int64, if_true]
          by_cases h0 : m = 0
          · subst h0
            exact ⟨fun _ => by decide, by decide, nofun⟩
          · by_cases h63 : m ≤ 2 ^ 63
            · simp only [if_neg h0, if_pos h63, if_pos (And.intro (Nat.pos_of_ne_zero h0) h63)]
              exact ⟨fun _ => by simp [Verdict.goRefuses], by simp [Verdict.rustRefuses],
                fun _ => trivial⟩
            · simp only [if_neg h0, if_neg h63, if_neg fun h : 0 < m ∧ m ≤ 2 ^ 63 => h63 h.2]
              exact ⟨fun _ => by decide, by decide, nofun⟩
  | string s =>
      simp only [Go.decodeInt64, Rust.sseInt64, Rust.parseI64Str, intVerdict]
      by_cases hempty : trim s = ""
      · simp [hempty, Verdict.goRefuses, Verdict.rustRefuses]
      · cases Decimal.parseI64 (trim s) <;>
          simp [hempty, Verdict.goRefuses, Verdict.rustRefuses]

/-! ### Lists of strings -/

theorem stringsVerdict_ne_rustOnly (items : List Json) : stringsVerdict items ≠ .rustOnly := by
  induction items with
  | nil => decide
  | cons v vs ih =>
      cases v with
      | string s => exact ih
      | null =>
          rw [stringsVerdict]
          split <;> decide
      | bool | integer | fraction | array | object => simp [stringsVerdict]

theorem Go.readStrings_eq_none_iff (old : List String) (items : List Json) :
    Go.readStrings old items = none ↔ stringsVerdict items = .neither := by
  induction items generalizing old with
  | nil => simp [Go.readStrings, stringsVerdict]
  | cons v vs ih =>
      have ih' := ih old.tail
      rw [Go.readStrings]
      cases v with
      | string s =>
          rw [stringsVerdict, ← ih']
          cases Go.readStrings old.tail vs <;> simp [Go.readString]
      | null =>
          rw [stringsVerdict]
          cases hrun : Go.readStrings old.tail vs with
          | none =>
              rw [if_pos (ih'.mp hrun)]
              simp [Go.readString]
          | some ss =>
              have hne : stringsVerdict vs ≠ .neither := fun h => by
                rw [ih'.mpr h] at hrun
                cases hrun
              rw [if_neg hne]
              simp [Go.readString]
      | bool | integer | fraction | array | object => simp [Go.readString, stringsVerdict]

/-- Rust reads an array of strings, and nothing else. -/
theorem Rust.mapM_readString_eq_none_iff (items : List Json) :
    items.mapM Rust.readString = none ↔ stringsVerdict items ≠ .both := by
  induction items with
  | nil => simp [stringsVerdict]
  | cons v vs ih =>
      rw [List.mapM_cons]
      cases v with
      | string s =>
          rw [stringsVerdict, ← ih]
          cases vs.mapM Rust.readString <;> simp [Rust.readString]
      | null =>
          rw [stringsVerdict]
          refine ⟨fun _ => ?_, fun _ => rfl⟩
          split <;> decide
      | bool | integer | fraction | array | object => simp [Rust.readString, stringsVerdict]

/-- Strings, and nothing else among them. -/
theorem stringsVerdict_map (ss : List String) : stringsVerdict (ss.map .string) = .both := by
  induction ss with
  | nil => rfl
  | cons s ss ih => exact ih

theorem Rust.mapM_readString_map (ss : List String) :
    (ss.map Json.string).mapM Rust.readString = some ss := by
  induction ss with
  | nil => rfl
  | cons s ss ih =>
      rw [List.map_cons, List.mapM_cons, ih]
      rfl

/-- Strings are read in place as they are. -/
theorem Go.readStrings_eq_mapM {items : List Json} (h : stringsVerdict items = .both)
    (old : List String) : Go.readStrings old items = items.mapM Rust.readString := by
  induction items generalizing old with
  | nil => rfl
  | cons v vs ih =>
      rw [Go.readStrings, List.mapM_cons]
      cases v with
      | string s => rw [ih h old.tail, Go.readString, Rust.readString]
      | null =>
          rw [stringsVerdict] at h
          split at h <;> cases h
      | bool | integer | fraction | array | object => cases h

/-! ### Fields -/

/-- **What Go refuses**, whatever the field held before. -/
theorem Go.read_eq_none_iff (t : FieldType) (st : Go.State t) (v : Json) :
    Go.read t st v = none ↔ (verdict t v).goRefuses = true := by
  cases t with
  | uint64 => exact (uint64_spec v).1 st
  | uint32 => exact (uint32_spec v).1
  | int64 => exact (int64_spec v).1 st
  | version =>
      have hspec := (uint32_spec v).1
      cases v with
      | null => simp [Go.read, verdict, uintVerdict, Verdict.goRefuses]
      | bool | integer | fraction | string | array | object =>
          rw [Go.read, Option.map_eq_none_iff, hspec]
          · rfl
          · simp
  | string | typeName | bool =>
      cases v <;> simp [Go.read, Go.readString, verdict, Verdict.goRefuses]
  | strings =>
      cases v with
      | array items =>
          have hne := stringsVerdict_ne_rustOnly items
          cases items with
          | nil => simp [Go.read, Go.readSlice, verdict, stringsVerdict, Verdict.goRefuses]
          | cons v vs =>
              rw [Go.read, Go.readSlice, Option.map_eq_none_iff, Go.readStrings_eq_none_iff,
                verdict, Verdict.goRefuses]
              · simp [hne]
              · simp
      | null | bool | integer | fraction | string | object =>
          simp [Go.read, Go.readSlice, verdict, Verdict.goRefuses]

/-- **What Rust refuses.** -/
theorem Rust.read_eq_none_iff (t : FieldType) (v : Json) :
    Rust.read t v = none ↔ (verdict t v).rustRefuses = true := by
  cases t with
  | uint64 => exact (uint64_spec v).2.1
  | uint32 => exact (uint32_spec v).2.1
  | int64 => exact (int64_spec v).2.1
  | version =>
      have hspec := (uint32_spec v).2.1
      cases v with
      | null => simp [Rust.read, verdict, uintVerdict, Verdict.rustRefuses]
      | bool | integer | fraction | string | array | object =>
          rw [Rust.read, Option.map_eq_none_iff, hspec]
          · rfl
          · simp
  | string | typeName | bool =>
      cases v <;> simp [Rust.read, Rust.readString, verdict, Verdict.rustRefuses]
  | strings =>
      cases v with
      | array items =>
          have hne := stringsVerdict_ne_rustOnly items
          rw [Rust.read, Rust.mapM_readString_eq_none_iff, verdict, Verdict.rustRefuses]
          cases h : stringsVerdict items <;> simp [h] at hne ⊢
      | null | bool | integer | fraction | string | object =>
          simp [Rust.read, verdict, Verdict.rustRefuses]

/-- **What neither refuses** is read as the same, into a field that holds nothing. -/
theorem goRead_eq_rustRead {t : FieldType} {v : Json} (h : verdict t v = .both) :
    (Go.read t (Go.init t) v).map (Go.value t) = Rust.read t v := by
  cases t with
  | uint64 => exact Option.map_id'.trans ((uint64_spec v).2.2 h)
  | uint32 => exact Option.map_id'.trans ((uint32_spec v).2.2 h)
  | int64 => exact Option.map_id'.trans ((int64_spec v).2.2 h)
  | version =>
      have hspec := (uint32_spec v).2.2 h
      cases v with
      | null => rfl
      | bool | integer | fraction | string | array | object =>
          rw [Go.read, Rust.read, hspec]
          · exact Option.map_id'
          all_goals simp
  | string | typeName | bool =>
      cases v <;> first | rfl | cases h
  | strings =>
      cases v with
      | array items =>
          rw [verdict] at h
          cases items with
          | nil => rfl
          | cons v vs =>
              have hread := Go.readStrings_eq_mapM h []
              rw [Go.read, Go.readSlice, Rust.read, Option.map_map]
              · exact (congrArg _ hread).trans Option.map_id'
              · simp
      | null | bool | integer | fraction | string | object => cases h

end Sse

end Cxdb
