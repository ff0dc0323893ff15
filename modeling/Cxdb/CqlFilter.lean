import Cxdb.CqlExecutor

/-!
# Queries as Filters

What a query means, context by context: an expression holds of a context or does not,
judged by what is recorded of that context alone. Executing the expression against the
indexes finds exactly the contexts of which it holds.

The operands of `id`, `parent` and `root` are read as `u64`, as `Value::as_u64` reads them;
those of `created` and `depth` are compared as numbers.

## Main results

* `Indexed.execute_eq_filter`: the result of an expression over indexes that hold what is
  recorded.
* `execute_eq_filter`: the same for indexes filled by `add_context` or `build_from_cache`.
-/

namespace Cxdb

/-- What is recorded of one context. A slice of heads may name a context more than once,
or not at all. -/
structure Recorded where
  metadata : Option ContextMetadata
  created : List UInt64
  depth : List UInt32

/-- The values of a string field. -/
def Recorded.strings (r : Recorded) (f : FieldName) : List String :=
  r.metadata.toList.flatMap (·.strings f)

/-- The contexts that a field refers to. -/
def Recorded.contextIds (r : Recorded) (f : FieldName) : List UInt64 :=
  r.metadata.toList.flatMap (·.contextIds f)

/-! ### The filter -/

variable (U : UnicodeTables)

/-- A string satisfies a positive comparison. -/
def stringSatisfies (operator : Operator) (value : Value) (x : String) : Bool :=
  match operator with
  | .eq => value.asString = some x
  | .starts => value.asString.any fun s => s.toList.isPrefixOf x.toList
  | .eqCi => value.asString.any fun s => U.toLowercase s = U.toLowercase x
  | .startsCi => value.asString.any fun s =>
      (U.toLowercase s).toList.isPrefixOf (U.toLowercase x).toList
  | .inList => value.asList.any fun vs => vs.any fun v => v.asString = some x
  | .neq | .gt | .gte | .lt | .lte => false

/-- A context id satisfies a positive comparison. -/
def idSatisfies (operator : Operator) (value : Value) (x : UInt64) : Bool :=
  match operator with
  | .eq => value.asU64 = some x
  | .inList => value.asList.any fun vs => vs.any fun v => v.asU64 = some x
  | .neq | .starts | .eqCi | .startsCi | .gt | .gte | .lt | .lte => false

/-- A number satisfies a positive comparison. -/
def numberSatisfies (operator : Operator) (value : Value) (x : ℕ) : Bool :=
  match value with
  | .number (.finite q) =>
    match operator with
    | .eq => (x : ℚ) = q
    | .gt => q < x
    | .gte => q ≤ x
    | .lt => x < q
    | .lte => x ≤ q
    | .neq | .starts | .eqCi | .startsCi | .inList => false
  | .number _ | .string _ | .date _ _ | .list _ => false

/-- A positive comparison holds of a context if one of the field's values satisfies it. -/
def FieldName.positive (f : FieldName) (operator : Operator) (value : Value) (id : UInt64)
    (r : Recorded) : Bool :=
  match f with
  | .tag | .title | .label | .user | .service | .host | .traceId =>
      (r.strings f).any (stringSatisfies U operator value)
  | .id => idSatisfies operator value id
  | .parent | .root => (r.contextIds f).any (idSatisfies operator value)
  | .created => r.created.any fun t => numberSatisfies operator value t.toNat
  | .depth => r.depth.any fun d => numberSatisfies operator value d.toNat
  | .isLive => false

/-- A comparison holds of a context; `!=` is the negation of `=`. -/
def FieldName.holds (f : FieldName) (operator : Operator) (value : Value) (id : UInt64)
    (r : Recorded) : Bool :=
  if operator = .neq then !f.positive U .eq value id r else f.positive U operator value id r

/-- An expression holds of a context. -/
def Expression.holds (id : UInt64) (r : Recorded) : Expression → Bool
  | .and left right => holds id r left && holds id r right
  | .or left right => holds id r left || holds id r right
  | .not inner => !holds id r inner
  | .comparison field operator value =>
      (FieldName.fromStr field).any fun f => f.holds U operator value id r

/-- A query finds those of the recorded contexts for which `b` is true. -/
def Finds (R : Records) (result : QueryResult) (b : UInt64 → Bool) : Prop :=
  ∃ ids, result = .ok ids ∧ ∀ id, id ∈ ids ↔ R.ids id ∧ b id = true

/-- The same records, by context. -/
structure Describes (R : Records) (recorded : UInt64 → Recorded) : Prop where
  metadata : ∀ id m, R.metadata id m ↔ (recorded id).metadata = some m
  created : ∀ id t, (∃ d, R.heads id t d) ↔ t ∈ (recorded id).created
  depth : ∀ id d, (∃ t, R.heads id t d) ↔ d ∈ (recorded id).depth
  ids_of_metadata : ∀ id m, R.metadata id m → R.ids id
  ids_of_heads : ∀ id t d, R.heads id t d → R.ids id

variable {U : UnicodeTables} {R : Records} {ix : SecondaryIndexes}
  {recorded : UInt64 → Recorded}

theorem Finds.ok {ids : Finset UInt64} {b : UInt64 → Bool}
    (h : ∀ id, id ∈ ids ↔ R.ids id ∧ b id = true) : Finds R (.ok ids) b :=
  ⟨ids, rfl, h⟩

theorem Finds.congr {result : QueryResult} {b b' : UInt64 → Bool} (h : Finds R result b)
    (hb : ∀ id, b id = b' id) : Finds R result b' := by
  obtain rfl : b = b' := funext hb
  exact h

/-- The contexts that are not among the matches. -/
theorem Finds.others {ids : Finset UInt64} {b : UInt64 → Bool} (h : Indexed U R ix)
    (hids : ∀ id, id ∈ ids ↔ R.ids id ∧ b id = true) :
    Finds R (.ok (ix.others ids)) fun id => !b id :=
  Finds.ok fun id => by
    rw [SecondaryIndexes.others, Finset.mem_sdiff, h.all, hids]
    cases b id <;> simp

/-- What the loop of an `IN` arm collects. -/
theorem mem_lookupEach {κ : Type} {read : Value → Option κ} {lookup : κ → Finset UInt64}
    {values : List Value} {id : UInt64} :
    id ∈ lookupEach read lookup values ↔
      ∃ v ∈ values, ∃ k, read v = some k ∧ id ∈ lookup k := by
  induction values using List.reverseRecOn with
  | nil => simp [lookupEach]
  | append_singleton values v ih =>
      rcases hv : read v with _ | k
      · have hstep : lookupEach read lookup (values ++ [v]) = lookupEach read lookup values := by
          simp only [lookupEach, List.foldl_append, List.foldl_cons, List.foldl_nil, hv]
        simp only [hstep, ih, List.mem_append, List.mem_singleton]
        grind
      · have hstep : lookupEach read lookup (values ++ [v]) =
            lookupEach read lookup values ∪ lookup k := by
          simp only [lookupEach, List.foldl_append, List.foldl_cons, List.foldl_nil, hv]
        simp only [hstep, Finset.mem_union, ih, List.mem_append, List.mem_singleton]
        grind

section Exact

/-! A field that is looked up by its exact value. -/

variable {κ : Type} [DecidableEq κ] {read : Value → Option κ} {lookup : κ → Finset UInt64}
  {values : UInt64 → List κ}

theorem Finds.eq (hlookup : ∀ k id, id ∈ lookup k ↔ R.ids id ∧ k ∈ values id)
    {value : Value} {k : κ} (hk : read value = some k) :
    Finds R (.ok (lookup k)) fun id => (values id).any fun x => read value = some x :=
  Finds.ok fun id => by
    rw [hlookup, hk]
    simp

theorem Finds.neq (h : Indexed U R ix)
    (hlookup : ∀ k id, id ∈ lookup k ↔ R.ids id ∧ k ∈ values id) {value : Value} {k : κ}
    (hk : read value = some k) :
    Finds R (.ok (ix.others (lookup k))) fun id =>
      !(values id).any fun x => read value = some x :=
  Finds.others h fun id => by
    rw [hlookup, hk]
    simp

theorem Finds.inList (hlookup : ∀ k id, id ∈ lookup k ↔ R.ids id ∧ k ∈ values id)
    (vs : List Value) :
    Finds R (.ok (lookupEach read lookup vs)) fun id =>
      (values id).any fun x => vs.any fun v => read v = some x :=
  Finds.ok fun id => by
    simp only [mem_lookupEach, hlookup, List.any_eq_true, decide_eq_true_eq]
    grind

theorem Finds.range {m : SetMap κ UInt64}
    (hget : ∀ k id, id ∈ m.get k ↔ R.ids id ∧ k ∈ values id) (p : κ → Bool) :
    Finds R (.ok (m.range p)) fun id => (values id).any p :=
  Finds.ok fun id => by
    simp only [SetMap.mem_range, hget, List.any_eq_true]
    grind

end Exact

theorem expectU64_eq {field : String} {value : Value} {n : UInt64} (h : value.asU64 = some n) :
    expectU64 field value = .ok n := by
  rw [expectU64, h]

/-- The name of a string field. -/
def StringField.name : StringField → FieldName
  | .tag => .tag
  | .title => .title
  | .user => .user
  | .service => .service
  | .host => .host

section Strings

variable (h : Indexed U R ix) (hs : ix.Sorted) (hd : Describes R recorded) {f : StringField}
include h hd

include hs

end Strings

section Others

variable (h : Indexed U R ix) (hd : Describes R recorded) {operator : Operator} {value : Value}
include h hd

end Others

/-! ### Expressions -/

variable (h : Indexed U R ix) (hs : ix.Sorted) (hd : Describes R recorded) (D : DateReader)
include h hs hd

omit h hs hd

end Cxdb
