import Cxdb.Binary64
import Cxdb.Unicode

/-!
# The Syntax Tree of the Query Language

`cql/ast.rs`. A comparison keeps the name of its field as the query had it; the names are
looked up again when the query is executed.

## Main results

* `FieldName.fromStr_asStr`: the name of a field is read back.
-/

namespace Cxdb

/-- Comparison operators. -/
inductive Operator where
  | eq
  | neq
  | starts
  | eqCi
  | startsCi
  | gt
  | gte
  | lt
  | lte
  | inList
  deriving DecidableEq

/-- Values in comparisons. -/
inductive Value where
  | string (value : String)
  | number (value : F64)
  | date (value : String) (relative : Bool)
  | list (values : List Value)

/-- Expressions. -/
inductive Expression where
  | and (left right : Expression)
  | or (left right : Expression)
  | not (inner : Expression)
  | comparison (field : String) (operator : Operator) (value : Value)

/-- `Value::as_string`: dates are strings too. -/
def Value.asString : Value → Option String
  | string value => some value
  | date value _ => some value
  | number _ | list _ => none

/-- `Value::as_number`. -/
def Value.asNumber : Value → Option F64
  | number value => some value
  | string _ | date _ _ | list _ => none

/-- `Value::as_u64`. -/
def Value.asU64 (v : Value) : Option UInt64 := v.asNumber.map F64.toU64

/-- `Value::as_list`. -/
def Value.asList : Value → Option (List Value)
  | list values => some values
  | string _ | number _ | date _ _ => none

/-- Field names. -/
inductive FieldName where
  | id
  | tag
  | title
  | label
  | user
  | service
  | host
  | traceId
  | parent
  | root
  | created
  | depth
  | isLive
  deriving DecidableEq

/-- `FieldName::from_str`. -/
def FieldName.fromStr : String → Option FieldName
  | "id" => some id
  | "tag" => some tag
  | "title" => some title
  | "label" => some label
  | "user" => some user
  | "service" => some service
  | "host" => some host
  | "trace_id" => some traceId
  | "parent" => some parent
  | "root" => some root
  | "created" => some created
  | "depth" => some depth
  | "is_live" => some isLive
  | _ => none

/-- `FieldName::as_str`. -/
def FieldName.asStr : FieldName → String
  | id => "id"
  | tag => "tag"
  | title => "title"
  | label => "label"
  | user => "user"
  | service => "service"
  | host => "host"
  | traceId => "trace_id"
  | parent => "parent"
  | root => "root"
  | created => "created"
  | depth => "depth"
  | isLive => "is_live"

/-- `FieldName::all`. -/
def FieldName.all : List FieldName :=
  [id, tag, title, label, user, service, host, traceId, parent, root, created, depth, isLive]

/-- The name of a field is read back. -/
theorem FieldName.fromStr_asStr (f : FieldName) : fromStr f.asStr = some f := by
  cases f <;> decide

/-- Only the name of a field is read as that field. -/
theorem FieldName.asStr_of_fromStr {s : String} {f : FieldName} (h : fromStr s = some f) :
    s = f.asStr := by
  unfold fromStr at h
  split at h <;> cases h <;> rfl

/-- The captures of the pattern `^-(\d+)([hdm])$`: digits and a unit. -/
def relativePattern (U : UnicodeTables) (s : String) : Option (List Char × Char) :=
  match s.toList with
  | '-' :: rest =>
    match rest.getLast? with
    | some unit =>
      if unit ∈ ['h', 'd', 'm'] ∧ rest.dropLast ≠ [] ∧ rest.dropLast.all U.isDecimal then
        some (rest.dropLast, unit)
      else none
    | none => none
  | _ => none

inductive CqlErrorType where
  | syntaxError
  | unknownField
  | invalidOperator
  | invalidValue
  deriving DecidableEq

structure Position where
  line : ℕ
  column : ℕ
  offset : ℕ
  deriving DecidableEq

structure CqlError where
  errorType : CqlErrorType
  message : String
  position : Option Position
  field : Option String
  deriving DecidableEq

end Cxdb
