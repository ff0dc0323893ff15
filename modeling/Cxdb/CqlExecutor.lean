import Cxdb.CqlIndexes

/-!
# Executing Queries

`cql/executor.rs`: an expression is evaluated to a set of contexts by looking its
comparisons up in the secondary indexes. The clock and what the `chrono` crate reads as a
date are parameters (`DateReader`); the arithmetic of relative dates wraps as in a release
build.
-/

namespace Cxdb

/-- The clock, and the dates that `chrono` reads, as `timestamp_millis`. -/
structure DateReader where
  now : UInt64
  parseFromRfc3339 : String → Option Int64
  /-- Midnight of a date in the format `%Y-%m-%d`. -/
  parseDate : String → Option Int64

/-- A set of contexts, or why there is none. -/
abbrev QueryResult := Except CqlError (Finset UInt64)

/-- An error of the executor: it has no position and no field. -/
def execError (errorType : CqlErrorType) (message : String) : CqlError :=
  { errorType, message, position := none, field := none }

/-- `{:?}` of an operator. -/
def Operator.debug : Operator → String
  | eq => "Eq"
  | neq => "Neq"
  | starts => "Starts"
  | eqCi => "EqCi"
  | startsCi => "StartsCi"
  | gt => "Gt"
  | gte => "Gte"
  | lt => "Lt"
  | lte => "Lte"
  | inList => "In"

/-- The error of an operator that a field does not have. -/
def unsupported (operator : Operator) (fields : String) : CqlError :=
  execError .invalidOperator s!"Operator {operator.debug} not supported for {fields}"

/-! ### Operands -/

def expectString (value : Value) : Except CqlError String :=
  match value.asString with
  | some s => .ok s
  | none => .error (execError .invalidValue "Expected string value")

def expectList (value : Value) : Except CqlError (List Value) :=
  match value.asList with
  | some values => .ok values
  | none => .error (execError .invalidValue "Expected list value for IN operator")

def expectU64 (field : String) (value : Value) : Except CqlError UInt64 :=
  match value.asU64 with
  | some n => .ok n
  | none => .error (execError .invalidValue s!"Expected numeric value for {field}")

/-- `str::parse::<u64>` of digits: ASCII digits only, and no overflow. -/
def parseU64 (ds : List Char) : Option UInt64 :=
  if ds ≠ [] ∧ ds.all Char.isDigit ∧ F64.digitsValue ds < 2 ^ 64 then
    some (UInt64.ofNat (F64.digitsValue ds))
  else none

variable (U : UnicodeTables) (D : DateReader)

def parseRelativeDate (value : String) : Except CqlError UInt64 :=
  match relativePattern U value with
  | none => .error (execError .invalidValue s!"Invalid relative date format: {value}")
  | some (digits, unit) =>
    match parseU64 digits with
    | none => .error (execError .invalidValue s!"Invalid number in relative date: {value}")
    | some amount =>
      if unit = 'h' then .ok (D.now - amount * 60 * 60 * 1000)
      else if unit = 'd' then .ok (D.now - amount * 24 * 60 * 60 * 1000)
      else .ok (D.now - amount * 60 * 1000)

def parseAbsoluteDate (value : String) : Except CqlError UInt64 :=
  match D.parseFromRfc3339 value with
  | some t => .ok t.toUInt64
  | none =>
    match D.parseDate value with
    | some t => .ok t.toUInt64
    | none => .error (execError .invalidValue s!"Invalid date format: {value}")

def parseDateValue (value : Value) : Except CqlError UInt64 :=
  match value with
  | .date value relative =>
      if relative then parseRelativeDate U D value else parseAbsoluteDate D value
  | .string value =>
    match parseRelativeDate U D value with
    | .ok t => .ok t
    | .error _ => parseAbsoluteDate D value
  | .number n => .ok n.toU64
  | .list _ => .error (execError .invalidValue "Expected date value")

/-! ### Comparisons -/

inductive StringField where
  | tag
  | title
  | user
  | service
  | host

namespace SecondaryIndexes

variable (ix : SecondaryIndexes) (s : String)

/-! The lookups of a string field. There is no case-insensitive index of hosts. -/

def lookupFieldExact : StringField → Finset UInt64
  | .tag => ix.lookupTagExact s
  | .title => ix.lookupTitleExact s
  | .user => ix.lookupUserExact s
  | .service => ix.lookupServiceExact s
  | .host => ix.lookupHostExact s

def lookupFieldExactCi : StringField → Finset UInt64
  | .tag => ix.lookupTagExactCi U s
  | .title => ix.lookupTitleExactCi U s
  | .user => ix.lookupUserExactCi U s
  | .service => ix.lookupServiceExactCi U s
  | .host => ix.lookupHostExact s

def lookupFieldPrefix : StringField → Finset UInt64
  | .tag => ix.lookupTagPrefix s
  | .title => ix.lookupTitlePrefix s
  | .user => ix.lookupUserPrefix s
  | .service => ix.lookupServicePrefix s
  | .host => ix.lookupHostPrefix s

def lookupFieldPrefixCi : StringField → Finset UInt64
  | .tag => ix.lookupTagPrefixCi U s
  | .title => ix.lookupTitlePrefixCi U s
  | .user => ix.lookupUserPrefixCi U s
  | .service => ix.lookupServicePrefixCi U s
  | .host => ix.lookupHostPrefix s

end SecondaryIndexes

/-- The contexts that are not in a set of matches. -/
def SecondaryIndexes.others (ix : SecondaryIndexes) (ids : Finset UInt64) : Finset UInt64 :=
  ix.allContextIds \ ids

/-- The loop of the `IN` arms: the lookups of those values of the list that can be read. -/
def lookupEach {κ : Type} (read : Value → Option κ) (lookup : κ → Finset UInt64)
    (values : List Value) : Finset UInt64 :=
  values.foldl (fun result v =>
    match read v with
    | some k => result ∪ lookup k
    | none => result) ∅

def executeStringField (operator : Operator) (value : Value) (ix : SecondaryIndexes)
    (field : StringField) : QueryResult :=
  match operator with
  | .eq => do
    let s ← expectString value
    return ix.lookupFieldExact s field
  | .eqCi => do
    let s ← expectString value
    return ix.lookupFieldExactCi U s field
  | .starts => do
    let s ← expectString value
    return ix.lookupFieldPrefix s field
  | .startsCi => do
    let s ← expectString value
    return ix.lookupFieldPrefixCi U s field
  | .neq => do
    let s ← expectString value
    return ix.others (ix.lookupFieldExact s field)
  | .inList => do
    let values ← expectList value
    return lookupEach Value.asString (ix.lookupFieldExact · field) values
  | .gt | .gte | .lt | .lte => .error (unsupported operator "string fields")

def executeId (operator : Operator) (value : Value) (ix : SecondaryIndexes) : QueryResult :=
  match operator with
  | .eq => do
    let id ← expectU64 "id" value
    return if id ∈ ix.allContextIds then {id} else ∅
  | .neq => do
    let id ← expectU64 "id" value
    return ix.allContextIds.erase id
  | .inList => do
    let values ← expectList value
    return lookupEach Value.asU64 (fun id => if id ∈ ix.allContextIds then {id} else ∅) values
  | .starts | .eqCi | .startsCi | .gt | .gte | .lt | .lte =>
      .error (unsupported operator "id field")

def executeLabel (operator : Operator) (value : Value) (ix : SecondaryIndexes) : QueryResult :=
  match operator with
  | .eq => do
    let s ← expectString value
    return ix.lookupLabelExact s
  | .neq => do
    let s ← expectString value
    return ix.others (ix.lookupLabelExact s)
  | .inList => do
    let values ← expectList value
    return lookupEach Value.asString ix.lookupLabelExact values
  | .starts | .eqCi | .startsCi | .gt | .gte | .lt | .lte =>
      .error (unsupported operator "label field")

def executeTraceId (operator : Operator) (value : Value) (ix : SecondaryIndexes) :
    QueryResult :=
  match operator with
  | .eq => do
    let s ← expectString value
    return ix.lookupTraceIdExact s
  | .neq => do
    let s ← expectString value
    return ix.others (ix.lookupTraceIdExact s)
  | .inList | .starts | .eqCi | .startsCi | .gt | .gte | .lt | .lte =>
      .error (unsupported operator "trace_id field")

/-- What `execute_parent` and `execute_root` do, with the name and the lookup of the field. -/
def executeReference (field : String) (lookup : UInt64 → Finset UInt64) (operator : Operator)
    (value : Value) (ix : SecondaryIndexes) : QueryResult :=
  match operator with
  | .eq => do
    let id ← expectU64 field value
    return lookup id
  | .neq => do
    let id ← expectU64 field value
    return ix.others (lookup id)
  | .inList => do
    let values ← expectList value
    return lookupEach Value.asU64 lookup values
  | .starts | .eqCi | .startsCi | .gt | .gte | .lt | .lte =>
      .error (unsupported operator s!"{field} field")

def executeParent (operator : Operator) (value : Value) (ix : SecondaryIndexes) : QueryResult :=
  executeReference "parent" ix.lookupParentExact operator value ix

def executeRoot (operator : Operator) (value : Value) (ix : SecondaryIndexes) : QueryResult :=
  executeReference "root" ix.lookupRootExact operator value ix

def executeCreated (operator : Operator) (value : Value) (ix : SecondaryIndexes) :
    QueryResult := do
  let timestamp ← parseDateValue U D value
  match operator with
  | .eq => return ix.lookupCreatedEq timestamp
  | .neq => return ix.others (ix.lookupCreatedEq timestamp)
  | .gt => return ix.lookupCreatedGt timestamp
  | .gte => return ix.lookupCreatedGte timestamp
  | .lt => return ix.lookupCreatedLt timestamp
  | .lte => return ix.lookupCreatedLte timestamp
  | .starts | .eqCi | .startsCi | .inList => .error (unsupported operator "created field")

def executeDepth (operator : Operator) (value : Value) (ix : SecondaryIndexes) :
    QueryResult := do
  let n ← expectU64 "depth" value
  let depth := n.toUInt32
  match operator with
  | .eq => return ix.lookupDepthEq depth
  | .neq => return ix.others (ix.lookupDepthEq depth)
  | .gt => return ix.lookupDepthGt depth
  | .gte => return ix.lookupDepthGte depth
  | .lt => return ix.lookupDepthLt depth
  | .lte => return ix.lookupDepthLte depth
  | .starts | .eqCi | .startsCi | .inList => .error (unsupported operator "depth field")

def executeIsLive (operator : Operator) (value : Value) (liveContexts : Finset UInt64)
    (ix : SecondaryIndexes) : QueryResult := do
  let isLive ← match value with
    | .string value => .ok (value = "true" : Bool)
    | .number _ | .date _ _ | .list _ =>
        .error (execError .invalidValue "Expected boolean value for is_live")
  match operator with
  | .eq => return if isLive then liveContexts else ix.others liveContexts
  | .neq | .starts | .eqCi | .startsCi | .gt | .gte | .lt | .lte | .inList =>
      .error (unsupported operator "is_live field")

def executeComparison (field : String) (operator : Operator) (value : Value)
    (ix : SecondaryIndexes) (liveContexts : Finset UInt64) : QueryResult :=
  match FieldName.fromStr field with
  | none =>
      .error
        { errorType := .unknownField, message := s!"Unknown field: {field}",
          position := none, field := some field }
  | some .id => executeId operator value ix
  | some .tag => executeStringField U operator value ix .tag
  | some .title => executeStringField U operator value ix .title
  | some .label => executeLabel operator value ix
  | some .user => executeStringField U operator value ix .user
  | some .service => executeStringField U operator value ix .service
  | some .host => executeStringField U operator value ix .host
  | some .traceId => executeTraceId operator value ix
  | some .parent => executeParent operator value ix
  | some .root => executeRoot operator value ix
  | some .created => executeCreated U D operator value ix
  | some .depth => executeDepth operator value ix
  | some .isLive => executeIsLive operator value liveContexts ix

def execute (e : Expression) (ix : SecondaryIndexes) (liveContexts : Finset UInt64) :
    QueryResult :=
  match e with
  | .and left right => do
    let leftResult ← execute left ix liveContexts
    let rightResult ← execute right ix liveContexts
    return leftResult ∩ rightResult
  | .or left right => do
    let leftResult ← execute left ix liveContexts
    let rightResult ← execute right ix liveContexts
    return leftResult ∪ rightResult
  | .not inner => do
    let innerResult ← execute inner ix liveContexts
    return ix.allContextIds \ innerResult
  | .comparison field operator value => executeComparison U D field operator value ix liveContexts

end Cxdb
