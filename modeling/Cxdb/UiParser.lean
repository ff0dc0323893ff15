import Cxdb.UiLexer

/-!
# The Parser of the Frontend

`Parser` of `frontend/lib/cql/parser.ts`. It descends as the server's parser does, over tokens of
its own, and checks the operator of a comparison against the metadata of the field. What a token
stands for depends on the type of the field: a string is a date where the field is one, and only
there.

## Main results

* `parse_eq_ok_iff`: a query is accepted exactly if its tokens are derivable, and its tree is the
  derived one.
-/

open Precedence (Kind Language Derives ReadsOperands bind_eq_ok ok_bind)

namespace Cxdb

namespace Ui

/-! ### Field metadata -/

/-- The types of `FIELD_METADATA`. -/
inductive FieldType where
  | string
  | number
  | date
  | boolean
  deriving DecidableEq

/-- `type` of `FIELD_METADATA`. -/
def fieldType : FieldName → FieldType
  | .id | .parent | .root | .depth => .number
  | .created => .date
  | .isLive => .boolean
  | .tag | .title | .label | .user | .service | .host | .traceId => .string

/-- `operators` of `FIELD_METADATA`. -/
def fieldOperators : FieldName → List Operator
  | .tag | .user | .service => [.eq, .neq, .starts, .eqCi, .startsCi, .inList]
  | .title | .host => [.eq, .neq, .starts, .eqCi, .startsCi]
  | .id | .label | .parent | .root => [.eq, .neq, .inList]
  | .traceId => [.eq, .neq]
  | .created | .depth => [.eq, .neq, .gt, .gte, .lt, .lte]
  | .isLive => [.eq]

/-- The names of the operators. -/
def operatorName : Operator → String
  | .eq => "eq"
  | .neq => "neq"
  | .starts => "starts"
  | .eqCi => "eq_ci"
  | .startsCi => "starts_ci"
  | .gt => "gt"
  | .gte => "gte"
  | .lt => "lt"
  | .lte => "lte"
  | .inList => "in"

/-! ### The parser -/

/-- `current`. -/
def currentToken (ts : List Token) : Token :=
  ts.head?.getD
    { tokenType := .eof, value := "", position := { line := 1, column := 1, offset := 0 } }

/-- `advance`: the last token, `EOF`, is not passed. -/
def advanceToken (ts : List Token) : List Token :=
  if (currentToken ts).tokenType = .eof then ts else ts.tail

/-- An error at the current token. -/
def errorAt (ts : List Token) (message : String) : CqlError :=
  { errorType := .syntaxError, message, position := (currentToken ts).position }

/-- The error for a token that is not what it should be. -/
def expected (ts : List Token) (what : String) : CqlError :=
  errorAt ts s!"Expected {what}, got '{(currentToken ts).value}'"

/-- `/^-(\d+)([hdm])$/`, where a digit is one of ASCII. -/
def isRelative (s : String) : Bool := (relativePattern .ascii s).isSome

/-- `true` or `false`, in letters of either case. -/
def boolValue (word : String) : Option String :=
  let word := String.ofList (word.toList.map Char.toLower)
  if word = "true" ∨ word = "false" then some word else none

def parseValue (fieldType : FieldType) (ts : List Token) :
    Except CqlError (Value × List Token) :=
  let token := currentToken ts
  match token.tokenType with
  | .string =>
      if fieldType = .date then .ok (.date token.value (isRelative token.value), advanceToken ts)
      else .ok (.string token.value, advanceToken ts)
  | .number =>
    match F64.parse token.value.toList with
    | some n => .ok (.number n, advanceToken ts)
    | none => .error (errorAt ts s!"Invalid number '{token.value}'")
  | .ident =>
    if fieldType = .boolean then
      match boolValue token.value with
      | some b => .ok (.string b, advanceToken ts)
      | none => .error (expected ts "value")
    else .error (expected ts "value")
  | _ => .error (expected ts "value")

/-- The loop of `parseList` over the values after the first. -/
def parseListLoop : ℕ → List Value → List Token → Except CqlError (List Value × List Token)
  | 0, values, ts => .ok (values, ts)
  | fuel + 1, values, ts =>
    if (currentToken ts).tokenType = .comma then do
      let (value, ts) ← parseValue .string (advanceToken ts)
      parseListLoop fuel (values ++ [value]) ts
    else .ok (values, ts)

def parseList (ts : List Token) : Except CqlError (Value × List Token) :=
  if (currentToken ts).tokenType = .lparen then do
    let (value, ts) ← parseValue .string (advanceToken ts)
    let (values, ts) ← parseListLoop ts.length [value] ts
    if (currentToken ts).tokenType = .rparen then return (.list values, advanceToken ts)
    else .error (errorAt ts "Expected ')' after list values")
  else .error (errorAt ts "Expected '(' after IN")

/-- The operator that a token is. -/
def operatorOf : TokenType → Option Operator
  | .eq => some .eq
  | .neq => some .neq
  | .starts => some .starts
  | .eqCi => some .eqCi
  | .startsCi => some .startsCi
  | .gt => some .gt
  | .gte => some .gte
  | .lt => some .lt
  | .lte => some .lte
  | .inList => some .inList
  | _ => none

/-- The error for a field that does not exist. -/
def unknownField (token : Token) : CqlError :=
  { errorType := .unknownField
    message := s!"Unknown field '{token.value}'. Valid fields: " ++
      ", ".intercalate (FieldName.all.map FieldName.asStr)
    position := token.position }

/-- The error for an operator that the field does not have. -/
def invalidOperator (field : FieldName) (operator : Operator) (position : Position) : CqlError :=
  { errorType := .invalidOperator
    message := s!"Operator '{operatorName operator}' is not valid for field '{field.asStr}'. " ++
      "Valid operators: " ++ ", ".intercalate ((fieldOperators field).map operatorName)
    position }

def parseComparison (ts : List Token) : Except CqlError (Expression × List Token) :=
  let fieldToken := currentToken ts
  if fieldToken.tokenType = .ident then
    match FieldName.fromStr fieldToken.value with
    | none => .error (unknownField fieldToken)
    | some field =>
      let ts := advanceToken ts
      match operatorOf (currentToken ts).tokenType with
      | none => .error (expected ts "operator")
      | some operator =>
        if operator ∈ fieldOperators field then do
          let (value, ts) ←
            if operator = .inList then parseList (advanceToken ts)
            else parseValue (fieldType field) (advanceToken ts)
          return (.comparison fieldToken.value operator value, ts)
        else .error (invalidOperator field operator (currentToken ts).position)
  else .error (expected ts "field name")

/-- What the recursive descent sees of a token. -/
def TokenType.kind : TokenType → Kind
  | .or => .or
  | .and => .and
  | .not => .not
  | .lparen => .lparen
  | .rparen => .rparen
  | _ => .other

/-- The tokens, comparisons and trees of the query language. -/
def queryLanguage : Language Token Expression CqlError where
  kind t := t.tokenType.kind
  mkOr := .or
  mkAnd := .and
  mkNot := .not
  operand := parseComparison
  expectedRParen ts := errorAt ts "Expected ')' after expression"

/-- `parse`. -/
def parse (input : String) : Except CqlError CqlQuery := do
  let tokens ← (Lexer.new input).tokenize
  if (currentToken tokens).tokenType = .eof then .error (errorAt tokens "Empty query")
  else
    let (ast, rest) ← queryLanguage.parse tokens
    if (currentToken rest).tokenType ≠ .eof then
      .error (errorAt rest s!"Unexpected token '{(currentToken rest).value}' after expression")
    else return { raw := input, ast }

/-! ### The grammar -/

/-- The value that a token is, in a comparison with a field of a type. -/
inductive IsValue (fieldType : FieldType) : Token → Value → Prop where
  | string {t : Token} : t.tokenType = .string → fieldType ≠ .date →
      IsValue fieldType t (.string t.value)
  | date {t : Token} : t.tokenType = .string → fieldType = .date →
      IsValue fieldType t (.date t.value (isRelative t.value))
  | number {t : Token} {n : F64} : t.tokenType = .number → F64.parse t.value.toList = some n →
      IsValue fieldType t (.number n)
  | bool {t : Token} {b : String} : t.tokenType = .ident → fieldType = .boolean →
      boolValue t.value = some b → IsValue fieldType t (.string b)

/-- Values with commas between them. -/
inductive IsValues : List Token → List Value → Prop where
  | one {t : Token} {v : Value} : IsValue .string t v → IsValues [t] [v]
  | more {t c : Token} {v : Value} {ts : List Token} {vs : List Value} :
      IsValue .string t v → c.tokenType = .comma → IsValues ts vs →
      IsValues (t :: c :: ts) (v :: vs)

/-- `comparison = field operator value`; `IN` takes values in parentheses. -/
inductive IsComparison : List Token → Expression → Prop where
  | value {n o t : Token} {f : FieldName} {operator : Operator} {v : Value} :
      n.tokenType = .ident → FieldName.fromStr n.value = some f →
      operatorOf o.tokenType = some operator → operator ∈ fieldOperators f →
      operator ≠ .inList → IsValue (fieldType f) t v →
      IsComparison [n, o, t] (.comparison n.value operator v)
  | inList {n o l r : Token} {f : FieldName} {ts : List Token} {vs : List Value} :
      n.tokenType = .ident → FieldName.fromStr n.value = some f → o.tokenType = .inList →
      .inList ∈ fieldOperators f → l.tokenType = .lparen → IsValues ts vs →
      r.tokenType = .rparen →
      IsComparison (n :: o :: l :: ts ++ [r]) (.comparison n.value .inList (.list vs))

/-- The tokens derive the expression in the documented grammar. -/
def DerivesQuery (ts : List Token) (e : Expression) : Prop :=
  Derives queryLanguage IsComparison .or ts e

/-! ### Values and lists -/

@[simp] theorem currentToken_cons (t : Token) (ts : List Token) :
    currentToken (t :: ts) = t := rfl

theorem advanceToken_cons {t : Token} (h : t.tokenType ≠ .eof) (ts : List Token) :
    advanceToken (t :: ts) = ts := by
  rw [advanceToken, currentToken_cons, if_neg h]
  rfl

/-- A current token that is not `EOF` is the first token. -/
theorem eq_cons_of_currentToken (ts : List Token) (h : (currentToken ts).tokenType ≠ .eof) :
    ∃ t, ts = t :: advanceToken ts ∧ currentToken ts = t := by
  cases ts with
  | nil => exact absurd rfl h
  | cons t ts => exact ⟨t, by rw [@advanceToken_cons t h], rfl⟩

section Values

variable {fieldType : FieldType} {t : Token} {ts rest : List Token} {v : Value}
  {vs values : List Value} {fuel : ℕ} {e : Expression}

theorem IsValue.ne_eof (h : IsValue fieldType t v) : t.tokenType ≠ .eof := by
  cases h with
  | string ht | date ht | number ht | bool ht =>
      rw [ht]
      decide

/-- A value is read off the first token. -/
theorem parseValue_eq_ok_iff :
    parseValue fieldType ts = .ok (v, rest) ↔ ∃ t, ts = t :: rest ∧ IsValue fieldType t v := by
  constructor
  · intro h
    have hne : (currentToken ts).tokenType ≠ .eof := by
      intro heof
      rw [parseValue, heof] at h
      cases h
    obtain ⟨t, hts, ht⟩ := eq_cons_of_currentToken ts hne
    rw [parseValue, ht] at h
    split at h
    · next htype =>
      split at h
      · next hdate =>
        cases h
        exact ⟨t, hts, .date htype hdate⟩
      · next hdate =>
        cases h
        exact ⟨t, hts, .string htype hdate⟩
    · next htype =>
      split at h
      · next n hn =>
        cases h
        exact ⟨t, hts, .number htype hn⟩
      · cases h
    · next htype =>
      split at h
      · next hbool =>
        split at h
        · next b hb =>
          cases h
          exact ⟨t, hts, .bool htype hbool hb⟩
        · cases h
      · cases h
    · cases h
  · rintro ⟨t, rfl, h⟩
    have hadv := advanceToken_cons h.ne_eof rest
    rw [parseValue, currentToken_cons, hadv]
    cases h with
    | string ht hdate => simp [ht, hdate]
    | date ht hdate => simp [ht, hdate]
    | number ht hn => simp [ht, hn]
    | bool ht hbool hb => simp [ht, hbool, hb]

theorem IsValues.concat {c : Token} (h : IsValues ts vs) (hc : c.tokenType = .comma)
    (ht : IsValue .string t v) : IsValues (ts ++ [c, t]) (vs ++ [v]) := by
  induction h with
  | one h => exact .more h hc (.one ht)
  | more h hc' _ ih => exact .more h hc' ih

/-- What the loop of `parseList` adds are values with commas before them. -/
theorem parseListLoop_sound (h : parseListLoop fuel values ts = .ok (vs, rest))
    {us : List Token} (hvalues : IsValues us values) :
    ∃ ws, ts = ws ++ rest ∧ IsValues (us ++ ws) vs := by
  induction fuel generalizing values ts us with
  | zero =>
      cases h
      exact ⟨[], rfl, by simpa using hvalues⟩
  | succ fuel ih =>
      rw [parseListLoop] at h
      split at h
      · next hcomma =>
        obtain ⟨c, hts, hc⟩ := eq_cons_of_currentToken ts (by rw [hcomma]; decide)
        obtain ⟨⟨v, ts'⟩, hv, hrun⟩ := bind_eq_ok.mp h
        obtain ⟨t, hadv, ht⟩ := parseValue_eq_ok_iff.mp hv
        rw [hc] at hcomma
        obtain ⟨ws, hws, hvs⟩ := ih hrun (hvalues.concat hcomma ht)
        refine ⟨c :: t :: ws, ?_, ?_⟩
        · rw [hts, hadv, hws]
          rfl
        · simpa using hvs
      · cases h
        exact ⟨[], rfl, by simpa using hvalues⟩

/-- The loop of `parseList` reads values with commas before them. -/
theorem parseListLoop_complete (h : IsValues ts vs) {c : Token} (hc : c.tokenType = .comma)
    (hfuel : ts.length < fuel) (hrest : (currentToken rest).tokenType ≠ .comma) :
    parseListLoop fuel values (c :: ts ++ rest) = .ok (values ++ vs, rest) := by
  induction h generalizing fuel values c with
  | @one t v hv =>
      obtain ⟨fuel, rfl⟩ := Nat.exists_eq_add_of_le' (show 2 ≤ fuel from hfuel)
      have hread : parseValue .string (t :: rest) = .ok (v, rest) :=
        parseValue_eq_ok_iff.mpr ⟨t, rfl, hv⟩
      rw [parseListLoop, List.cons_append, currentToken_cons, if_pos hc,
        advanceToken_cons (by rw [hc]; decide), List.singleton_append, hread, ok_bind]
      dsimp only
      rw [parseListLoop, if_neg hrest]
  | @more t c' v ts vs hv hc' _ ih =>
      obtain ⟨fuel, rfl⟩ := Nat.exists_eq_add_of_le' (show 1 ≤ fuel by omega)
      have hread : parseValue .string (t :: (c' :: ts ++ rest)) = .ok (v, c' :: ts ++ rest) :=
        parseValue_eq_ok_iff.mpr ⟨t, rfl, hv⟩
      rw [parseListLoop, List.cons_append, currentToken_cons, if_pos hc,
        advanceToken_cons (by rw [hc]; decide), List.cons_append, hread, ok_bind]
      dsimp only
      rw [ih hc' (by simp only [List.length_cons] at hfuel; omega), List.append_assoc]
      rfl

/-- A list is read off a parenthesised, non-empty sequence of values. -/
theorem parseList_eq_ok_iff :
    parseList ts = .ok (v, rest) ↔ ∃ l us r vs, ts = l :: us ++ r :: rest ∧ v = .list vs ∧
      l.tokenType = .lparen ∧ IsValues us vs ∧ r.tokenType = .rparen := by
  constructor
  · intro h
    rw [parseList] at h
    split at h
    case isFalse => cases h
    next hopen =>
    obtain ⟨o, hts, ho⟩ := eq_cons_of_currentToken ts (by rw [hopen]; decide)
    obtain ⟨⟨first, ts₁⟩, hfirst, hrun⟩ := bind_eq_ok.mp h
    obtain ⟨t, hadv, ht⟩ := parseValue_eq_ok_iff.mp hfirst
    obtain ⟨⟨vs, ts₂⟩, hvs, hrun⟩ := bind_eq_ok.mp hrun
    obtain ⟨ws, hws, hvalues⟩ := parseListLoop_sound hvs (.one ht)
    dsimp only at hrun
    split at hrun
    case isFalse => cases hrun
    next hclose =>
    obtain ⟨c, hts₂, hc⟩ := eq_cons_of_currentToken ts₂ (by rw [hclose]; decide)
    cases hrun
    rw [ho] at hopen
    rw [hc] at hclose
    refine ⟨o, t :: ws, c, vs, ?_, rfl, hopen, hvalues, hclose⟩
    calc ts = o :: t :: ts₁ := by rw [hts, hadv]
      _ = o :: t :: (ws ++ c :: advanceToken ts₂) := by rw [hws, ← hts₂]
  · rintro ⟨o, ts, c, vs, rfl, rfl, ho, hvs, hc⟩
    have hclose : (currentToken (c :: rest)).tokenType ≠ .comma := by
      rw [currentToken_cons, hc]
      decide
    rw [List.cons_append, parseList, currentToken_cons, if_pos ho,
      advanceToken_cons (by rw [ho]; decide)]
    -- The first value is read before the loop over the others.
    have hfirst : ∃ t ts' v vs', ts = t :: ts' ∧ vs = v :: vs' ∧ IsValue .string t v ∧
        parseListLoop (ts' ++ c :: rest).length [v] (ts' ++ c :: rest) =
          .ok (vs, c :: rest) := by
      cases hvs with
      | @one t v hv =>
          refine ⟨t, [], v, [], rfl, rfl, hv, ?_⟩
          rw [List.nil_append, List.length_cons, parseListLoop, if_neg hclose]
      | @more t c' v ts vs hv hc' hvs =>
          refine ⟨t, c' :: ts, v, vs, rfl, rfl, hv, ?_⟩
          have hshort : ts.length < (c' :: ts ++ c :: rest).length := by
            rw [List.length_append, List.length_cons]
            omega
          exact parseListLoop_complete hvs hc' hshort hclose
    obtain ⟨t, ts', v, vs', rfl, rfl, hv, hloop⟩ := hfirst
    have hread : parseValue .string (t :: (ts' ++ c :: rest)) = .ok (v, ts' ++ c :: rest) :=
      parseValue_eq_ok_iff.mpr ⟨t, rfl, hv⟩
    rw [List.cons_append, hread, ok_bind]
    dsimp only
    rw [hloop, ok_bind]
    dsimp only
    rw [currentToken_cons, if_pos hc, advanceToken_cons (by rw [hc]; decide)]
    rfl

/-! ### Comparisons -/

theorem ne_eof_of_operatorOf {ty : TokenType} {operator : Operator}
    (h : operatorOf ty = some operator) : ty ≠ .eof := by
  rintro rfl
  cases h

/-- Only `IN` is the operator of lists. -/
theorem eq_inList_of_operatorOf {ty : TokenType} (h : operatorOf ty = some .inList) :
    ty = .inList := by
  cases ty <;> first | rfl | cases h

/-- What `parseComparison` accepts is a comparison. -/
theorem parseComparison_sound (h : parseComparison ts = .ok (e, rest)) :
    ∃ us, ts = us ++ rest ∧ IsComparison us e := by
  rw [parseComparison] at h
  dsimp only at h
  split at h
  case isFalse => cases h
  next hident =>
  obtain ⟨n, hts, hn⟩ := eq_cons_of_currentToken ts (by rw [hident]; decide)
  rw [hn] at h hident
  split at h
  · cases h
  next field hfield =>
  split at h
  · cases h
  next operator hop =>
  obtain ⟨o, hts', ho⟩ := eq_cons_of_currentToken _ (ne_eof_of_operatorOf hop)
  rw [ho] at hop
  split at h
  case isFalse => cases h
  next hmem =>
  split at h
  · next heq =>
    subst heq
    obtain ⟨⟨v, ts''⟩, hv, hrun⟩ := bind_eq_ok.mp h
    cases hrun
    obtain ⟨l, us, r, vs, hus, rfl, hl, hvs, hr⟩ := parseList_eq_ok_iff.mp hv
    refine ⟨n :: o :: l :: us ++ [r], ?_,
      .inList hident hfield (eq_inList_of_operatorOf hop) hmem hl hvs hr⟩
    rw [hts, hts', hus]
    simp
  · next hne =>
    obtain ⟨⟨v, ts''⟩, hv, hrun⟩ := bind_eq_ok.mp h
    cases hrun
    obtain ⟨t, hadv, ht⟩ := parseValue_eq_ok_iff.mp hv
    refine ⟨[n, o, t], ?_, .value hident hfield hop hmem hne ht⟩
    rw [hts, hts', hadv]
    rfl

/-- `parseComparison` reads comparisons. -/
theorem parseComparison_complete {us : List Token} (h : IsComparison us e)
    (rest : List Token) : parseComparison (us ++ rest) = .ok (e, rest) := by
  cases h with
  | @value n o t f operator v hn hf hop hmem hne hv =>
      have hread : parseValue (Ui.fieldType f) (t :: rest) = .ok (v, rest) :=
        parseValue_eq_ok_iff.mpr ⟨t, rfl, hv⟩
      simp only [parseComparison, List.cons_append, List.nil_append, currentToken_cons, hn, hf,
        advanceToken_cons (t := n) (by rw [hn]; decide), hop, if_pos hmem, if_neg hne, if_true,
        advanceToken_cons (ne_eof_of_operatorOf hop), hread]
      rfl
  | @inList n o l r f ts vs hn hf ho hmem hl hvs hr =>
      have hread : parseList (l :: ts ++ r :: rest) = .ok (.list vs, rest) :=
        parseList_eq_ok_iff.mpr ⟨l, ts, r, vs, rfl, rfl, hl, hvs, hr⟩
      have hsplit : n :: o :: l :: ts ++ [r] ++ rest = n :: o :: (l :: ts ++ r :: rest) := by
        simp
      simp only [hsplit, parseComparison, currentToken_cons, hn, hf, if_true,
        advanceToken_cons (t := n) (by rw [hn]; decide), ho, operatorOf, if_pos hmem,
        advanceToken_cons (t := o) (by rw [ho]; decide), hread]
      rfl

/-- `parseComparison` reads the comparisons of the grammar and nothing else. -/
theorem readsOperands : ReadsOperands queryLanguage IsComparison where
  sound := parseComparison_sound
  complete := parseComparison_complete
  starts := by
    intro us e h
    cases h with
    | value hn => exact ⟨_, _, rfl, congrArg TokenType.kind hn⟩
    | inList hn => exact ⟨_, _, rfl, congrArg TokenType.kind hn⟩

/-! ### Queries -/

theorem IsValues.ne_eof (h : IsValues ts vs) : ∀ t ∈ ts, t.tokenType ≠ .eof := by
  induction h with
  | one h => simpa using h.ne_eof
  | more h hc _ ih =>
      refine List.forall_mem_cons.mpr ⟨h.ne_eof, List.forall_mem_cons.mpr ⟨?_, ih⟩⟩
      rw [hc]
      decide

theorem IsComparison.ne_eof (h : IsComparison ts e) : ∀ t ∈ ts, t.tokenType ≠ .eof := by
  cases h with
  | value hn _ hop _ _ hv =>
      have hop' := ne_eof_of_operatorOf hop
      simpa [hn] using ⟨hop', hv.ne_eof⟩
  | inList hn _ ho _ hl hvs hr =>
      intro t ht
      simp only [List.cons_append, List.mem_cons, List.mem_append, List.not_mem_nil,
        or_false] at ht
      rcases ht with rfl | rfl | rfl | ht | rfl
      case inr.inr.inr.inl => exact hvs.ne_eof t ht
      all_goals simp [*]

theorem ne_eof_of_kind {k : Kind} (h : t.tokenType.kind = k) (hk : k ≠ .other) :
    t.tokenType ≠ .eof := by
  intro heof
  rw [heof] at h
  exact hk h.symm

/-- No derivation contains the token at the end. -/
theorem ne_eof_of_derives {level : Precedence.Level}
    (h : Derives queryLanguage IsComparison level ts e) : ∀ t ∈ ts, t.tokenType ≠ .eof := by
  induction h with
  | orOne _ ih | andOne _ ih | unaryOne _ ih => exact ih
  | orMore _ hk _ ihl ihr | andMore _ hk _ ihl ihr =>
      exact List.forall_mem_append.mpr
        ⟨ihl, List.forall_mem_cons.mpr ⟨ne_eof_of_kind hk (by decide), ihr⟩⟩
  | unaryNot hk _ ih => exact List.forall_mem_cons.mpr ⟨ne_eof_of_kind hk (by decide), ih⟩
  | operand h => exact h.ne_eof
  | paren ho _ hc ih =>
      refine List.forall_mem_append.mpr
        ⟨List.forall_mem_cons.mpr ⟨ne_eof_of_kind ho (by decide), ih⟩, ?_⟩
      exact List.forall_mem_singleton.mpr (ne_eof_of_kind hc (by decide))

end Values

/-- Behind tokens without `EOF`, what is left at an `EOF` is the last token. -/
theorem eq_singleton_of_append_eq {ts us rest : List Token} {e : Token}
    (h : ts ++ [e] = us ++ rest) (hts : ∀ t ∈ ts, ¬ t.tokenType = .eof)
    (hus : ∀ t ∈ us, t.tokenType ≠ .eof) (he : e.tokenType = .eof)
    (hrest : (currentToken rest).tokenType = .eof) : ts = us ∧ rest = [e] := by
  rcases List.append_eq_append_iff.mp h with ⟨as, rfl, has⟩ | ⟨bs, rfl, hbs⟩
  · cases as with
    | nil => exact ⟨by simp, by simpa using has.symm⟩
    | cons a as =>
        obtain ⟨rfl, -⟩ := List.cons.inj has
        exact absurd he (hus e (by simp))
  · cases bs with
    | nil => exact ⟨by simp, by simpa using hbs⟩
    | cons b bs =>
        subst hbs
        exact absurd hrest (hts b (by simp))

/-- **Parsing accepts exactly the grammar.** A query is accepted if and only if its tokens
are derivable, and its tree is the derived one. -/
theorem parse_eq_ok_iff {input : String} {q : CqlQuery} :
    parse input = .ok q ↔ q.raw = input ∧ ∃ ts e l l', Lexer.Reads (Lexer.new input) ts l ∧
      l.nextToken = .ok (e, l') ∧ e.tokenType = .eof ∧ DerivesQuery ts q.ast := by
  constructor
  · intro h
    rw [parse] at h
    obtain ⟨tokens, htokens, h⟩ := bind_eq_ok.mp h
    obtain ⟨ts, e, l, l', rfl, hreads, hlast, he⟩ := Lexer.tokenize_eq_ok_iff.mp htokens
    split at h
    · cases h
    obtain ⟨⟨ast, rest⟩, hast, h⟩ := bind_eq_ok.mp h
    dsimp only at h
    split at h
    · cases h
    next hrest =>
    cases h
    obtain ⟨us, hus, hd⟩ := (Precedence.sound readsOperands _).1 _ _ _ hast
    obtain ⟨rfl, -⟩ := eq_singleton_of_append_eq hus hreads.not_isEnd (ne_eof_of_derives hd) he
      (not_not.mp hrest)
    exact ⟨rfl, ts, e, l, l', hreads, hlast, he, hd⟩
  · rintro ⟨rfl, ts, e, l, l', hreads, hlast, he, hd⟩
    have htokens := Lexer.tokenize_eq_ok_iff.mpr ⟨ts, e, l, l', rfl, hreads, hlast, he⟩
    have hcur : queryLanguage.current [e] = .other := congrArg TokenType.kind he
    have hparse := (Precedence.parse_eq_ok_iff readsOperands hcur).mpr hd
    have hne : (currentToken (ts ++ [e])).tokenType ≠ .eof := by
      cases ts with
      | nil => exact absurd rfl (Precedence.Derives.ne_nil readsOperands hd)
      | cons t ts => exact ne_eof_of_derives hd t List.mem_cons_self
    rw [parse, htokens, ok_bind, if_neg hne, hparse, ok_bind]
    dsimp only
    rw [currentToken_cons, if_neg (not_not.mpr he)]
    rfl

end Ui

end Cxdb
