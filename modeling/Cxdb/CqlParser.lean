import Cxdb.CqlLexer
import Cxdb.PrecedenceParser

/-!
# The Parser of the Query Language

`Parser` of `cql/parser.rs`: recursive descent over the tokens, and the grammar that the
source documents. The parser state is the tokens that are left. The functions from
`parse_or_expr` to `parse_primary` are those of `Precedence`, applied to the tokens and the
comparisons of the language.

## Main results

* `parse_eq_ok_iff`: a query is accepted exactly if its tokens are derivable, and its tree
  is the derived one.
-/

open Precedence (Kind Language Derives ReadsOperands bind_eq_ok ok_bind)

namespace Cxdb

structure CqlQuery where
  raw : String
  ast : Expression

/-! ### The parser -/

/-- `current`. -/
def currentToken (ts : List Token) : Token :=
  ts.head?.getD { tokenType := .eof, position := { line := 1, column := 1, offset := 0 } }

/-- `advance`: the last token, `Eof`, is not passed. -/
def advanceToken (ts : List Token) : List Token :=
  if (currentToken ts).tokenType = .eof then ts else ts.tail

/-- An error at the current token. -/
def errorAt (ts : List Token) (message : String) : CqlError :=
  { errorType := .syntaxError, message, position := some (currentToken ts).position,
    field := none }

variable (U : UnicodeTables)

def parseValue (ts : List Token) : Except CqlError (Value × List Token) :=
  match (currentToken ts).tokenType with
  | .string s =>
      if (relativePattern U s).isSome then .ok (.date s true, advanceToken ts)
      else .ok (.string s, advanceToken ts)
  | .number n => .ok (.number n, advanceToken ts)
  | .ident s =>
      if U.toLowercase s = "true" ∨ U.toLowercase s = "false" then
        .ok (.string (U.toLowercase s), advanceToken ts)
      else .error (errorAt ts "Expected value")
  | _ => .error (errorAt ts "Expected value")

/-- The loop of `parse_list` over the values after the first. -/
def parseListLoop : ℕ → List Value → List Token → Except CqlError (List Value × List Token)
  | 0, values, ts => .ok (values, ts)
  | fuel + 1, values, ts =>
    if (currentToken ts).tokenType = .comma then do
      let (value, ts) ← parseValue U (advanceToken ts)
      parseListLoop fuel (values ++ [value]) ts
    else .ok (values, ts)

def parseList (ts : List Token) : Except CqlError (Value × List Token) :=
  if (currentToken ts).tokenType = .lparen then do
    let (value, ts) ← parseValue U (advanceToken ts)
    let (values, ts) ← parseListLoop U ts.length [value] ts
    if (currentToken ts).tokenType = .rparen then return (.list values, advanceToken ts)
    else .error (errorAt ts "Expected ')' after list values")
  else .error (errorAt ts "Expected '(' after IN")

/-- The operator that a token is. -/
def operatorOf : TokenType → Option Operator
  | .eq => some .eq
  | .neq => some .neq
  | .starts => some .starts
  | .eqCi => some .eqCi
  | .startsCi => some .startsCi
  | .gt => some .gt
  | .gte => some .gte
  | .lt => some .lt
  | .lte => some .lte
  | .inList => some .inList
  | _ => none

/-- The error for a field that does not exist. -/
def unknownField (ts : List Token) (name : String) : CqlError :=
  { errorType := .unknownField
    message := s!"Unknown field '{name}'. Valid fields: " ++
      ", ".intercalate (FieldName.all.map FieldName.asStr)
    position := some (currentToken ts).position
    field := some name }

def parseComparison (ts : List Token) : Except CqlError (Expression × List Token) :=
  match (currentToken ts).tokenType with
  | .ident name =>
    if (FieldName.fromStr name).isNone then .error (unknownField ts name)
    else
      let ts := advanceToken ts
      match operatorOf (currentToken ts).tokenType with
      | none => .error (errorAt ts "Expected operator")
      | some operator => do
        let (value, ts) ←
          if operator = .inList then parseList U (advanceToken ts)
          else parseValue U (advanceToken ts)
        return (.comparison name operator value, ts)
  | _ => .error (errorAt ts "Expected field name")

/-- What the recursive descent sees of a token. -/
def TokenType.kind : TokenType → Kind
  | .or => .or
  | .and => .and
  | .not => .not
  | .lparen => .lparen
  | .rparen => .rparen
  | _ => .other

/-- The tokens, comparisons and trees of the query language. -/
def queryLanguage : Language Token Expression CqlError where
  kind t := t.tokenType.kind
  mkOr := .or
  mkAnd := .and
  mkNot := .not
  operand := parseComparison U
  expectedRParen ts := errorAt ts "Expected ')' after expression"

/-- `parse`. -/
def parse (input : String) : Except CqlError CqlQuery := do
  let tokens ← (Lexer.new input).tokenize U
  if (currentToken tokens).tokenType = .eof then .error (errorAt tokens "Empty query")
  else
    let (ast, rest) ← (queryLanguage U).parse tokens
    if (currentToken rest).tokenType ≠ .eof then
      .error (errorAt rest "Unexpected token after expression")
    else return { raw := input, ast }

/-! ### The grammar -/

/-- The value that a token is: a string of the form of a relative date is a date. -/
inductive IsValue : TokenType → Value → Prop where
  | string {s : String} : relativePattern U s = none → IsValue (.string s) (.string s)
  | date {s : String} {r : List Char × Char} : relativePattern U s = some r →
      IsValue (.string s) (.date s true)
  | number {n : F64} : IsValue (.number n) (.number n)
  | bool {s b : String} : U.toLowercase s = b → b = "true" ∨ b = "false" →
      IsValue (.ident s) (.string b)

/-- Values with commas between them. -/
inductive IsValues : List TokenType → List Value → Prop where
  | one {t : TokenType} {v : Value} : IsValue U t v → IsValues [t] [v]
  | more {t : TokenType} {v : Value} {ts : List TokenType} {vs : List Value} :
      IsValue U t v → IsValues ts vs → IsValues (t :: .comma :: ts) (v :: vs)

/-- `comparison = field operator value`; `IN` takes values in parentheses. -/
inductive IsComparison : List TokenType → Expression → Prop where
  | value {name : String} {f : FieldName} {o t : TokenType} {operator : Operator} {v : Value} :
      FieldName.fromStr name = some f → operatorOf o = some operator → operator ≠ .inList →
      IsValue U t v → IsComparison [.ident name, o, t] (.comparison name operator v)
  | inList {name : String} {f : FieldName} {ts : List TokenType} {vs : List Value} :
      FieldName.fromStr name = some f → IsValues U ts vs →
      IsComparison (.ident name :: .inList :: .lparen :: ts ++ [.rparen])
        (.comparison name .inList (.list vs))

/-- The tokens derive the expression in the documented grammar. -/
def DerivesQuery (ts : List Token) (e : Expression) : Prop :=
  Derives (queryLanguage U) (fun ts e => IsComparison U (ts.map (·.tokenType)) e) .or ts e

/-! ### Values and lists -/

variable {U}

@[simp] theorem currentToken_cons (t : Token) (ts : List Token) :
    currentToken (t :: ts) = t := rfl

theorem advanceToken_cons {t : Token} (h : t.tokenType ≠ .eof) (ts : List Token) :
    advanceToken (t :: ts) = ts := by
  rw [advanceToken, currentToken_cons, if_neg h]
  rfl

/-- A current token that is not `Eof` is the first token. -/
theorem eq_cons_of_currentToken (ts : List Token) (h : (currentToken ts).tokenType ≠ .eof) :
    ∃ t, ts = t :: advanceToken ts ∧ currentToken ts = t := by
  cases ts with
  | nil => exact absurd rfl h
  | cons t ts => exact ⟨t, by rw [advanceToken_cons (t := t) h], rfl⟩

theorem IsValue.ne_eof {t : TokenType} {v : Value} (h : IsValue U t v) : t ≠ .eof := by
  cases h <;> simp

/-- A value is read off the first token. -/
theorem parseValue_eq_ok_iff {ts rest : List Token} {v : Value} :
    parseValue U ts = .ok (v, rest) ↔ ∃ t, ts = t :: rest ∧ IsValue U t.tokenType v := by
  constructor
  · intro h
    have hne : (currentToken ts).tokenType ≠ .eof := by
      intro heof
      rw [parseValue, heof] at h
      cases h
    obtain ⟨t, hts, ht⟩ := eq_cons_of_currentToken ts hne
    rw [ht] at hne
    unfold parseValue at h
    rw [ht] at h
    split at h
    · next s hs =>
      rcases hp : relativePattern U s with _ | r
      · rw [hp] at h
        cases h
        exact ⟨t, hts, hs ▸ .string hp⟩
      · rw [hp] at h
        cases h
        exact ⟨t, hts, hs ▸ .date hp⟩
    · next n hn =>
      cases h
      exact ⟨t, hts, hn ▸ .number⟩
    · next s hs =>
      split at h
      · next hb =>
        cases h
        exact ⟨t, hts, hs ▸ .bool rfl hb⟩
      · cases h
    · cases h
  · rintro ⟨t, rfl, h⟩
    have hadv := advanceToken_cons h.ne_eof rest
    unfold parseValue
    rw [currentToken_cons, hadv]
    generalize t.tokenType = ty at h
    cases h with
    | string hp => simp [hp]
    | date hp => simp [hp]
    | number => rfl
    | bool hs hb => simp [hs, hb]

theorem IsValues.concat {ts : List TokenType} {vs : List Value} {t : TokenType} {v : Value}
    (h : IsValues U ts vs) (ht : IsValue U t v) :
    IsValues U (ts ++ [.comma, t]) (vs ++ [v]) := by
  induction h with
  | one h => exact .more h (.one ht)
  | more h _ ih => exact .more h ih

/-- What the loop of `parse_list` adds are values with commas before them. -/
theorem parseListLoop_sound {fuel : ℕ} {values vs : List Value} {ts rest : List Token}
    (h : parseListLoop U fuel values ts = .ok (vs, rest)) {us : List TokenType}
    (hvalues : IsValues U us values) :
    ∃ ws, ts = ws ++ rest ∧ IsValues U (us ++ ws.map (·.tokenType)) vs := by
  induction fuel generalizing values ts us with
  | zero =>
      cases h
      exact ⟨[], rfl, by simpa using hvalues⟩
  | succ fuel ih =>
      rw [parseListLoop] at h
      split at h
      · next hcomma =>
        obtain ⟨c, hts, hc⟩ := eq_cons_of_currentToken ts (by rw [hcomma]; decide)
        obtain ⟨⟨v, ts'⟩, hv, hrun⟩ := bind_eq_ok.mp h
        obtain ⟨t, hadv, ht⟩ := parseValue_eq_ok_iff.mp hv
        obtain ⟨ws, hws, hvs⟩ := ih hrun (hvalues.concat ht)
        refine ⟨c :: t :: ws, ?_, ?_⟩
        · rw [hts, hadv, hws]
          rfl
        · rw [hc] at hcomma
          simpa [hcomma] using hvs
      · cases h
        exact ⟨[], rfl, by simpa using hvalues⟩

/-- The loop of `parse_list` reads values with commas before them. -/
theorem parseListLoop_complete {tys : List TokenType} {vs : List Value}
    (h : IsValues U tys vs) {fuel : ℕ} {values : List Value} {c : Token} {ts rest : List Token}
    (hts : ts.map (·.tokenType) = tys) (hc : c.tokenType = .comma) (hfuel : ts.length < fuel)
    (hrest : (currentToken rest).tokenType ≠ .comma) :
    parseListLoop U fuel values (c :: ts ++ rest) = .ok (values ++ vs, rest) := by
  induction h generalizing fuel values c ts with
  | @one ty v hv =>
      obtain ⟨t, rfl, rfl⟩ := List.map_eq_singleton_iff.mp hts
      obtain ⟨fuel, rfl⟩ := Nat.exists_eq_add_of_le' (show 2 ≤ fuel from hfuel)
      have hread : parseValue U (t :: rest) = .ok (v, rest) :=
        parseValue_eq_ok_iff.mpr ⟨t, rfl, hv⟩
      rw [parseListLoop, List.cons_append, currentToken_cons, if_pos hc, advanceToken_cons (by rw [hc]; decide),
        List.singleton_append, hread, ok_bind]
      dsimp only
      rw [parseListLoop, if_neg hrest]
  | @more ty v tys vs hv _ ih =>
      obtain ⟨t, ts₁, rfl, rfl, hts₁⟩ := List.map_eq_cons_iff.mp hts
      obtain ⟨c', ts, rfl, hc', hts₂⟩ := List.map_eq_cons_iff.mp hts₁
      obtain ⟨fuel, rfl⟩ := Nat.exists_eq_add_of_le' (show 1 ≤ fuel by omega)
      have hread : parseValue U (t :: (c' :: ts ++ rest)) = .ok (v, c' :: ts ++ rest) :=
        parseValue_eq_ok_iff.mpr ⟨t, rfl, hv⟩
      rw [parseListLoop, List.cons_append, currentToken_cons, if_pos hc, advanceToken_cons (by rw [hc]; decide),
        List.cons_append, hread, ok_bind]
      dsimp only
      rw [ih hts₂ hc' (by simp only [List.length_cons] at hfuel; omega), List.append_assoc]
      rfl

/-- A list is read off a parenthesised, non-empty sequence of values. -/
theorem parseList_eq_ok_iff {ts rest : List Token} {v : Value} :
    parseList U ts = .ok (v, rest) ↔ ∃ us vs, ts = us ++ rest ∧ v = .list vs ∧
      ∃ tys, us.map (·.tokenType) = .lparen :: tys ++ [.rparen] ∧ IsValues U tys vs := by
  constructor
  · intro h
    unfold parseList at h
    split at h
    · next hopen =>
      obtain ⟨o, hts, ho⟩ := eq_cons_of_currentToken ts (by rw [hopen]; decide)
      obtain ⟨⟨first, ts₁⟩, hfirst, hrun⟩ := bind_eq_ok.mp h
      obtain ⟨t, hadv, ht⟩ := parseValue_eq_ok_iff.mp hfirst
      obtain ⟨⟨vs, ts₂⟩, hvs, hrun⟩ := bind_eq_ok.mp hrun
      obtain ⟨ws, hws, hvalues⟩ := parseListLoop_sound hvs (.one ht)
      dsimp only at hrun
      split at hrun
      · next hclose =>
        obtain ⟨c, hts₂, hc⟩ := eq_cons_of_currentToken ts₂ (by rw [hclose]; decide)
        cases hrun
        rw [ho] at hopen
        rw [hc] at hclose
        refine ⟨o :: t :: ws ++ [c], vs, ?_, rfl, t.tokenType :: ws.map Token.tokenType, ?_,
          hvalues⟩
        · calc ts = o :: t :: ts₁ := by rw [hts, hadv]
            _ = o :: t :: (ws ++ c :: advanceToken ts₂) := by rw [hws, ← hts₂]
            _ = o :: t :: ws ++ [c] ++ advanceToken ts₂ := by simp
        · simp [hopen, hclose]
      · cases hrun
    · cases h
  · rintro ⟨us, vs, rfl, rfl, tys, hus, hvs⟩
    obtain ⟨os, cs, rfl, hos, hcs⟩ := List.map_eq_append_iff.mp hus
    obtain ⟨o, ts, rfl, ho, hts⟩ := List.map_eq_cons_iff.mp hos
    obtain ⟨c, rfl, hc⟩ := List.map_eq_singleton_iff.mp hcs
    have hsplit : o :: ts ++ [c] ++ rest = o :: (ts ++ c :: rest) := by simp
    have hclose : (currentToken (c :: rest)).tokenType ≠ .comma := by
      rw [currentToken_cons, hc]
      decide
    rw [hsplit, parseList, currentToken_cons, if_pos ho,
      advanceToken_cons (by rw [ho]; decide)]
    -- The first value is read before the loop over the others.
    have hfirst : ∃ t ts' v vs', ts = t :: ts' ∧ vs = v :: vs' ∧ IsValue U t.tokenType v ∧
        parseListLoop U (ts' ++ c :: rest).length [v] (ts' ++ c :: rest) =
          .ok (vs, c :: rest) := by
      cases hvs with
      | @one ty v hv =>
          obtain ⟨t, rfl, rfl⟩ := List.map_eq_singleton_iff.mp hts
          refine ⟨t, [], v, [], rfl, rfl, hv, ?_⟩
          rw [List.nil_append, List.length_cons, parseListLoop, if_neg hclose]
      | @more ty v tys vs hv hvs =>
          obtain ⟨t, ts₁, rfl, rfl, hts₁⟩ := List.map_eq_cons_iff.mp hts
          obtain ⟨c', ts, rfl, hc', hts₂⟩ := List.map_eq_cons_iff.mp hts₁
          refine ⟨t, c' :: ts, v, vs, rfl, rfl, hv, ?_⟩
          have hshort : ts.length < (c' :: ts ++ c :: rest).length := by
            rw [List.length_append, List.length_cons]
            omega
          exact parseListLoop_complete hvs hts₂ hc' hshort hclose
    obtain ⟨t, ts', v, vs', rfl, rfl, hv, hloop⟩ := hfirst
    have hread : parseValue U (t :: (ts' ++ c :: rest)) = .ok (v, ts' ++ c :: rest) :=
      parseValue_eq_ok_iff.mpr ⟨t, rfl, hv⟩
    rw [List.cons_append, hread, ok_bind]
    dsimp only
    rw [hloop, ok_bind]
    dsimp only
    rw [currentToken_cons, if_pos hc, advanceToken_cons (by rw [hc]; decide)]
    rfl

/-! ### Comparisons -/

theorem ne_eof_of_operatorOf {t : TokenType} {operator : Operator}
    (h : operatorOf t = some operator) : t ≠ .eof := by
  rintro rfl
  cases h

/-- What `parse_comparison` accepts is a comparison. -/
theorem parseComparison_sound {ts rest : List Token} {e : Expression}
    (h : parseComparison U ts = .ok (e, rest)) :
    ∃ us, ts = us ++ rest ∧ IsComparison U (us.map (·.tokenType)) e := by
  unfold parseComparison at h
  split at h
  case h_2 => cases h
  next name hname =>
  obtain ⟨n, hts, hn⟩ := eq_cons_of_currentToken ts (by rw [hname]; simp)
  rw [hn] at hname
  split at h
  case isTrue => cases h
  next hfield =>
  obtain ⟨f, hf⟩ := Option.ne_none_iff_exists'.mp (by simpa using hfield)
  dsimp only at h
  split at h
  · cases h
  · next operator hop =>
    obtain ⟨o, hts', ho⟩ := eq_cons_of_currentToken _ (ne_eof_of_operatorOf hop)
    rw [ho] at hop
    split at h
    · next heq =>
      obtain ⟨⟨v, ts''⟩, hv, hrun⟩ := bind_eq_ok.mp h
      cases hrun
      obtain ⟨us, vs, hus, rfl, tys, htys, hvs⟩ := parseList_eq_ok_iff.mp hv
      refine ⟨n :: o :: us, by rw [hts, hts', hus]; rfl, ?_⟩
      have ho' : o.tokenType = .inList := by
        subst heq
        revert hop
        cases o.tokenType <;> simp [operatorOf]
      simp only [List.map_cons, hname, ho', htys]
      subst heq
      exact .inList hf hvs
    · next hne =>
      obtain ⟨⟨v, ts''⟩, hv, hrun⟩ := bind_eq_ok.mp h
      cases hrun
      obtain ⟨t, hadv, ht⟩ := parseValue_eq_ok_iff.mp hv
      refine ⟨[n, o, t], by rw [hts, hts', hadv]; rfl, ?_⟩
      simp only [List.map_cons, List.map_nil, hname]
      exact .value hf hop hne ht

/-- `parse_comparison` reads comparisons. -/
theorem parseComparison_complete {us : List Token} {e : Expression}
    (h : IsComparison U (us.map (·.tokenType)) e) (rest : List Token) :
    parseComparison U (us ++ rest) = .ok (e, rest) := by
  generalize htys : us.map (·.tokenType) = tys at h
  cases h with
  | @value name f o t operator v hf hop hne hv =>
      obtain ⟨n, us₁, rfl, hn, hus₁⟩ := List.map_eq_cons_iff.mp htys
      obtain ⟨o, us₂, rfl, rfl, hus₂⟩ := List.map_eq_cons_iff.mp hus₁
      obtain ⟨t, rfl, rfl⟩ := List.map_eq_singleton_iff.mp hus₂
      have hread : parseValue U (t :: rest) = .ok (v, rest) :=
        parseValue_eq_ok_iff.mpr ⟨t, rfl, hv⟩
      simp only [parseComparison, List.cons_append, List.nil_append, currentToken_cons, hn, hf,
        Option.isNone_some, advanceToken_cons (t := n) (by rw [hn]; simp), hop, if_neg hne,
        advanceToken_cons (ne_eof_of_operatorOf hop), hread]
      rfl
  | @inList name f tys vs hf hvs =>
      obtain ⟨n, us₁, rfl, hn, hus₁⟩ := List.map_eq_cons_iff.mp htys
      obtain ⟨o, us₂, rfl, ho, hus₂⟩ := List.map_eq_cons_iff.mp hus₁
      have hread : parseList U (us₂ ++ rest) = .ok (.list vs, rest) :=
        parseList_eq_ok_iff.mpr ⟨us₂, vs, rfl, rfl, tys, hus₂, hvs⟩
      simp only [parseComparison, List.cons_append, currentToken_cons, hn, hf,
        Option.isNone_some, advanceToken_cons (t := n) (by rw [hn]; simp), ho, operatorOf,
        advanceToken_cons (t := o) (by rw [ho]; simp), hread]
      rfl

/-- `parse_comparison` reads the comparisons of the grammar and nothing else. -/
theorem readsOperands :
    ReadsOperands (queryLanguage U) fun ts e => IsComparison U (ts.map (·.tokenType)) e where
  sound := parseComparison_sound
  complete := parseComparison_complete
  starts := by
    intro us e h
    generalize htys : us.map (·.tokenType) = tys at h
    cases h with
    | value =>
        obtain ⟨n, us₁, rfl, hn, -⟩ := List.map_eq_cons_iff.mp htys
        exact ⟨n, us₁, rfl, congrArg TokenType.kind hn⟩
    | inList =>
        obtain ⟨n, us₁, rfl, hn, -⟩ := List.map_eq_cons_iff.mp htys
        exact ⟨n, us₁, rfl, congrArg TokenType.kind hn⟩

/-! ### Queries -/

theorem IsValues.ne_eof {tys : List TokenType} {vs : List Value} (h : IsValues U tys vs) :
    ∀ ty ∈ tys, ty ≠ .eof := by
  induction h with
  | one h => simpa using h.ne_eof
  | more h _ ih => simpa using ⟨h.ne_eof, ih⟩

theorem IsComparison.ne_eof {tys : List TokenType} {e : Expression}
    (h : IsComparison U tys e) : ∀ ty ∈ tys, ty ≠ .eof := by
  cases h with
  | value _ hop _ hv => simpa using ⟨ne_eof_of_operatorOf hop, hv.ne_eof⟩
  | inList _ hvs =>
      simp only [List.cons_append, List.mem_cons, List.mem_append, List.not_mem_nil, or_false]
      rintro ty (rfl | rfl | rfl | hty | rfl)
      case inr.inr.inr.inl => exact hvs.ne_eof ty hty
      all_goals simp

theorem ne_eof_of_kind {t : Token} {k : Kind} (h : t.tokenType.kind = k) (hk : k ≠ .other) :
    t.tokenType ≠ .eof := by
  intro heof
  rw [heof] at h
  exact hk h.symm

/-- No derivation contains the token at the end. -/
theorem ne_eof_of_derives {level : Precedence.Level} {ts : List Token} {e : Expression}
    (h : Derives (queryLanguage U) (fun ts e => IsComparison U (ts.map (·.tokenType)) e)
      level ts e) : ∀ t ∈ ts, t.tokenType ≠ .eof := by
  induction h with
  | orOne _ ih | andOne _ ih | unaryOne _ ih => exact ih
  | orMore _ hk _ ihl ihr | andMore _ hk _ ihl ihr =>
      intro t ht
      rcases List.mem_append.mp ht with ht | ht
      · exact ihl t ht
      · rcases List.mem_cons.mp ht with rfl | ht
        · exact ne_eof_of_kind hk (by decide)
        · exact ihr t ht
  | unaryNot hk _ ih =>
      intro t ht
      rcases List.mem_cons.mp ht with rfl | ht
      · exact ne_eof_of_kind hk (by decide)
      · exact ih t ht
  | operand h => exact fun t ht => h.ne_eof _ (List.mem_map_of_mem ht)
  | paren ho _ hc ih =>
      intro t ht
      simp only [List.cons_append, List.mem_cons, List.mem_append, List.not_mem_nil,
        or_false] at ht
      rcases ht with rfl | ht | rfl
      · exact ne_eof_of_kind ho (by decide)
      · exact ih t ht
      · exact ne_eof_of_kind hc (by decide)

/-- Behind tokens without `Eof`, what is left at an `Eof` is the last token. -/
theorem eq_singleton_of_append_eq {ts us rest : List Token} {e : Token}
    (h : ts ++ [e] = us ++ rest) (hts : ∀ t ∈ ts, t.tokenType ≠ .eof)
    (hus : ∀ t ∈ us, t.tokenType ≠ .eof) (he : e.tokenType = .eof)
    (hrest : (currentToken rest).tokenType = .eof) : ts = us ∧ rest = [e] := by
  rcases List.append_eq_append_iff.mp h with ⟨as, rfl, has⟩ | ⟨bs, rfl, hbs⟩
  · rcases List.eq_nil_or_concat' as with rfl | ⟨as, a, rfl⟩
    · exact ⟨by simp, by simpa using has.symm⟩
    · have hlast : a = e := by
        cases as with
        | nil => simpa using (List.cons.inj has).1.symm
        | cons => simp at has
      exact absurd he (hus e (by simp [hlast]))
  · cases bs with
    | nil => exact ⟨by simp, by simpa using hbs⟩
    | cons b bs =>
        subst hbs
        exact absurd hrest (hts b (by simp))

/-- **Parsing accepts exactly the grammar.** A query is accepted if and only if its tokens
are derivable, and its tree is the derived one. -/
theorem parse_eq_ok_iff {input : String} {q : CqlQuery} :
    parse U input = .ok q ↔ q.raw = input ∧ ∃ ts e, (Lexer.new input).tokenize U = .ok (ts ++ [e]) ∧
      e.tokenType = .eof ∧ DerivesQuery U ts q.ast := by
  constructor
  · intro h
    unfold parse at h
    obtain ⟨tokens, htokens, h⟩ := bind_eq_ok.mp h
    obtain ⟨ts, e, rfl, he, hts⟩ := Lexer.tokenize_ends htokens
    split at h
    · cases h
    obtain ⟨⟨ast, rest⟩, hast, h⟩ := bind_eq_ok.mp h
    dsimp only at h
    split at h
    · cases h
    next hrest =>
    cases h
    obtain ⟨us, hus, hd⟩ := (Precedence.sound readsOperands _).1 _ _ _ hast
    obtain ⟨rfl, -⟩ := eq_singleton_of_append_eq hus hts (ne_eof_of_derives hd) he
      (not_not.mp hrest)
    exact ⟨rfl, ts, e, htokens, he, hd⟩
  · rintro ⟨rfl, ts, e, htokens, he, hd⟩
    have hcur : (queryLanguage U).current [e] = .other := congrArg TokenType.kind he
    have hparse := (Precedence.parse_eq_ok_iff readsOperands hcur).mpr hd
    have hne : (currentToken (ts ++ [e])).tokenType ≠ .eof := by
      obtain ⟨t, ts', rfl⟩ : ∃ t ts', ts = t :: ts' := by
        cases ts with
        | nil => exact absurd rfl (Precedence.Derives.ne_nil readsOperands hd)
        | cons t ts => exact ⟨t, ts, rfl⟩
      exact ne_eof_of_derives hd t (by simp)
    unfold parse
    rw [htokens, ok_bind, if_neg hne, hparse, ok_bind]
    dsimp only
    rw [currentToken_cons, if_neg (not_not.mpr he)]
    rfl

end Cxdb
