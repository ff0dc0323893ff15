import Cxdb.CqlParser
import Cxdb.CqlPositions

/-!
# Panics of the Parser

The parser of `cql/parser.rs` over its vector of tokens and its position: `advance` reads the
token before the new position, and panics if there is none. With the lexer that slices its input,
no query makes it panic, and what comes of a query is what comes of it without positions.

## Main results

* `RawParser.descends`: the functions of the recursive descent, from every position.
* `positions_safe`: neither the lexer nor the parser panics.
-/

open Precedence (Language ok_bind)

namespace Cxdb

/-- A parser with a position that changes; nothing is a panic. -/
abbrev Parsing := StateT ℕ (ExceptT CqlError Option)

namespace RawParser

variable (tokens : List Token)

/-- The current token at a position. -/
def tokenAt (pos : ℕ) : Token :=
  (tokens[pos]?).getD { tokenType := .eof, position := { line := 1, column := 1, offset := 0 } }

/-- `current`. -/
def current : Parsing Token := fun pos => some (.ok (tokenAt tokens pos, pos))

/-- `tokens.get(pos - 1).unwrap()`, which panics if there is no such token. -/
def readBefore : Parsing Unit := fun pos =>
  if pos = 0 then none else (tokens[pos - 1]?).map fun _ => .ok ((), pos)

/-- `advance`. -/
def advance : Parsing Unit := do
  let token ← current tokens
  if token.tokenType ≠ .eof then modify (· + 1)
  readBefore tokens

/-- `match_token`. -/
def matchToken (expected : TokenType) : Parsing Bool := do
  let token ← current tokens
  if token.tokenType = expected then
    advance tokens
    return true
  else return false

/-- An error at the current token. -/
def failAt {α : Type} (message : String) : Parsing α := do
  let token ← current tokens
  throw { errorType := .syntaxError, message, position := some token.position, field := none }

variable (U : UnicodeTables)

def parseValue : Parsing Value := do
  let token ← current tokens
  match token.tokenType with
  | .string s =>
    advance tokens
    if (relativePattern U s).isSome then return .date s true else return .string s
  | .number n =>
    advance tokens
    return .number n
  | .ident s =>
    if U.toLowercase s = "true" ∨ U.toLowercase s = "false" then
      advance tokens
      return .string (U.toLowercase s)
    else failAt tokens "Expected value"
  | _ => failAt tokens "Expected value"

/-- The loop of `parse_list` over the values after the first. -/
def parseListLoop : ℕ → List Value → Parsing (List Value)
  | 0, values => return values
  | fuel + 1, values => do
    if ← matchToken tokens .comma then
      let value ← parseValue tokens U
      parseListLoop fuel (values ++ [value])
    else return values

def parseList : Parsing Value := do
  if ← matchToken tokens .lparen then
    let value ← parseValue tokens U
    let pos ← get
    let values ← parseListLoop tokens U (tokens.length - pos) [value]
    if ← matchToken tokens .rparen then return .list values
    else failAt tokens "Expected ')' after list values"
  else failAt tokens "Expected '(' after IN"

def parseComparison : Parsing Expression := do
  let token ← current tokens
  match token.tokenType with
  | .ident name =>
    advance tokens
    if (FieldName.fromStr name).isNone then
      throw
        { errorType := .unknownField
          message := s!"Unknown field '{name}'. Valid fields: " ++
            ", ".intercalate (FieldName.all.map FieldName.asStr)
          position := some token.position
          field := some name }
    else
      match operatorOf (← current tokens).tokenType with
      | none => failAt tokens "Expected operator"
      | some operator =>
        advance tokens
        let value ← if operator = .inList then parseList tokens U else parseValue tokens U
        return .comparison name operator value
  | _ => failAt tokens "Expected field name"

mutual

def parseOrExpr : ℕ → Parsing Expression
  | 0 => failAt tokens "Expected ')' after expression"
  | fuel + 1 => do
    let left ← parseAndExpr fuel
    parseOrLoop fuel left

/-- The loop of `parse_or_expr`. -/
def parseOrLoop : ℕ → Expression → Parsing Expression
  | 0, _ => failAt tokens "Expected ')' after expression"
  | fuel + 1, left => do
    if ← matchToken tokens .or then
      let right ← parseAndExpr fuel
      parseOrLoop fuel (.or left right)
    else return left

def parseAndExpr : ℕ → Parsing Expression
  | 0 => failAt tokens "Expected ')' after expression"
  | fuel + 1 => do
    let left ← parseUnaryExpr fuel
    parseAndLoop fuel left

/-- The loop of `parse_and_expr`. -/
def parseAndLoop : ℕ → Expression → Parsing Expression
  | 0, _ => failAt tokens "Expected ')' after expression"
  | fuel + 1, left => do
    if ← matchToken tokens .and then
      let right ← parseUnaryExpr fuel
      parseAndLoop fuel (.and left right)
    else return left

def parseUnaryExpr : ℕ → Parsing Expression
  | 0 => failAt tokens "Expected ')' after expression"
  | fuel + 1 => do
    if ← matchToken tokens .not then
      let inner ← parsePrimary fuel
      return .not inner
    else parsePrimary fuel

def parsePrimary : ℕ → Parsing Expression
  | 0 => failAt tokens "Expected ')' after expression"
  | fuel + 1 => do
    if ← matchToken tokens .lparen then
      let e ← parseOrExpr fuel
      if ← matchToken tokens .rparen then return e
      else failAt tokens "Expected ')' after expression"
    else parseComparison tokens U

end

/-- `parse` behind the lexer. -/
def parseTokens (input : String) : Parsing CqlQuery := do
  if (← current tokens).tokenType = .eof then failAt tokens "Empty query"
  else
    let ast ← parseOrExpr tokens U (Language.fuelFor tokens)
    if (← current tokens).tokenType ≠ .eof then
      failAt tokens "Unexpected token after expression"
    else return { raw := input, ast }

/-- `parse`, from the lexer on. -/
def parse (input : String) : Option (Except CqlError CqlQuery) :=
  ((RawLexer.new input).tokenize U).bind fun (tokens, _) =>
    match tokens with
    | .error e => some (.error e)
    | .ok tokens => (parseTokens tokens U input 0).run.map (·.map Prod.fst)

/-! ### Simulation -/

variable {tokens U}

/-- **The same result**, and the position is before the tokens that are left. -/
def Simulates {α : Type} (tokens : List Token) (x : Parsing α) (pos : ℕ)
    (y : Except CqlError (α × List Token)) : Prop :=
  match y with
  | .error e => x pos = some (.error e)
  | .ok (a, rest) => ∃ pos', x pos = some (.ok (a, pos')) ∧ tokens.drop pos' = rest

theorem simulates_pure {α : Type} (a : α) (pos : ℕ) :
    Simulates tokens (pure a) pos (.ok (a, tokens.drop pos)) := ⟨pos, rfl, rfl⟩

theorem bind_error {α β : Type} {x : Parsing α} {pos : ℕ} {e : CqlError}
    (h : x pos = some (.error e)) (f : α → Parsing β) : (x >>= f) pos = some (.error e) := by
  change Option.bind (x pos) _ = _
  rw [h]
  rfl

theorem bind_ok {α β : Type} {x : Parsing α} {pos pos' : ℕ} {a : α}
    (h : x pos = some (.ok (a, pos'))) (f : α → Parsing β) : (x >>= f) pos = f a pos' := by
  change Option.bind (x pos) _ = _
  rw [h]
  rfl

theorem Simulates.congr {α : Type} {x x' : Parsing α} {pos pos' : ℕ}
    {y : Except CqlError (α × List Token)} (h : Simulates tokens x' pos' y)
    (hx : x pos = x' pos') : Simulates tokens x pos y := by
  cases y with
  | error e => exact hx.trans h
  | ok result =>
      obtain ⟨p, hp, hdrop⟩ := h
      exact ⟨p, hx.trans hp, hdrop⟩

/-- One parser after another. -/
theorem Simulates.bind {α β : Type} {x : Parsing α} {pos : ℕ}
    {y : Except CqlError (α × List Token)} {f : α → Parsing β}
    {g : α × List Token → Except CqlError (β × List Token)} (h : Simulates tokens x pos y)
    (hf : ∀ a pos', Simulates tokens (f a) pos' (g (a, tokens.drop pos'))) :
    Simulates tokens (x >>= f) pos (y >>= g) := by
  cases y with
  | error e => exact bind_error h f
  | ok result =>
      obtain ⟨a, rest⟩ := result
      obtain ⟨pos', hx, rfl⟩ := h
      exact (hf a pos').congr (bind_ok hx f)

/-- A parser that is done behind another one. -/
theorem Simulates.of_ok {α β : Type} {x : Parsing α} {pos pos' : ℕ} {a : α} {f : α → Parsing β}
    {y : Except CqlError (β × List Token)} (hx : x pos = some (.ok (a, pos')))
    (h : Simulates tokens (f a) pos' y) : Simulates tokens (x >>= f) pos y :=
  h.congr (bind_ok hx f)

theorem currentToken_drop (pos : ℕ) : currentToken (tokens.drop pos) = tokenAt tokens pos := by
  rw [currentToken, tokenAt, List.head?_drop]

theorem simulates_failAt {α : Type} (pos : ℕ) (message : String) :
    Simulates tokens (failAt tokens message : Parsing α) pos
      (.error (errorAt (tokens.drop pos) message)) := by
  rw [errorAt, currentToken_drop]
  rfl

/-- **No step back**: behind a token that is not the last, there is one before the position. -/
theorem advance_eq {pos : ℕ} (h : (tokenAt tokens pos).tokenType ≠ .eof) :
    advance tokens pos = some (.ok ((), pos + 1)) := by
  have hread : readBefore tokens (pos + 1) = some (.ok ((), pos + 1)) := by
    rw [readBefore, if_neg (Nat.succ_ne_zero pos), Nat.add_sub_cancel]
    cases hget : tokens[pos]? with
    | none =>
        rw [tokenAt, hget] at h
        exact absurd rfl h
    | some t => rfl
  have hcurrent : current tokens pos = some (.ok (tokenAt tokens pos, pos)) := rfl
  have hstep : (modify (· + 1) : Parsing PUnit) pos = some (.ok (⟨⟩, pos + 1)) := rfl
  rw [advance, bind_ok hcurrent, if_pos h, bind_ok hstep]
  exact hread

/-- The tokens behind the current one. -/
theorem advanceToken_drop {pos : ℕ} (h : (tokenAt tokens pos).tokenType ≠ .eof) :
    advanceToken (tokens.drop pos) = tokens.drop (pos + 1) := by
  rw [advanceToken, currentToken_drop, if_neg h, List.tail_drop]

/-- A result behind the current token. -/
theorem simulates_advance {α : Type} {pos : ℕ} (h : (tokenAt tokens pos).tokenType ≠ .eof)
    (a : α) : Simulates tokens (do advance tokens; return a) pos
      (.ok (a, advanceToken (tokens.drop pos))) := by
  refine .of_ok (advance_eq h) ?_
  rw [advanceToken_drop h]
  exact simulates_pure a _

theorem matchToken_of_ne {expected : TokenType} {pos : ℕ}
    (h : (tokenAt tokens pos).tokenType ≠ expected) :
    matchToken tokens expected pos = some (.ok (false, pos)) := by
  have hcurrent : current tokens pos = some (.ok (tokenAt tokens pos, pos)) := rfl
  rw [matchToken, bind_ok hcurrent, if_neg h]
  rfl

theorem matchToken_of_eq {expected : TokenType} {pos : ℕ}
    (h : (tokenAt tokens pos).tokenType = expected) (hne : expected ≠ .eof) :
    matchToken tokens expected pos = some (.ok (true, pos + 1)) := by
  have hcurrent : current tokens pos = some (.ok (tokenAt tokens pos, pos)) := rfl
  rw [matchToken, bind_ok hcurrent, if_pos h, bind_ok (advance_eq (h ▸ hne))]
  rfl

/-- **A token is asked for**, and what follows depends on the answer. -/
theorem simulates_matchToken {α : Type} {expected : TokenType} (hne : expected ≠ .eof) {pos : ℕ}
    {f g : Parsing α} {y z : Except CqlError (α × List Token)}
    (hf : (tokenAt tokens pos).tokenType = expected → Simulates tokens f (pos + 1) y)
    (hg : (tokenAt tokens pos).tokenType ≠ expected → Simulates tokens g pos z) :
    Simulates tokens (do if ← matchToken tokens expected then f else g) pos
      (if (tokenAt tokens pos).tokenType = expected then y else z) := by
  by_cases h : (tokenAt tokens pos).tokenType = expected
  · rw [if_pos h]
    exact .of_ok (matchToken_of_eq h hne) (hf h)
  · rw [if_neg h]
    exact .of_ok (matchToken_of_ne h) (hg h)

/-! ### The functions of the parser -/

theorem simulates_parseValue (pos : ℕ) :
    Simulates tokens (parseValue tokens U) pos (Cxdb.parseValue U (tokens.drop pos)) := by
  refine .of_ok (a := tokenAt tokens pos) rfl ?_
  rw [Cxdb.parseValue, currentToken_drop]
  cases htype : (tokenAt tokens pos).tokenType with
  | string s =>
      have hne : (tokenAt tokens pos).tokenType ≠ .eof := by
        rw [htype]
        exact TokenType.noConfusion
      dsimp only
      split
      · exact simulates_advance hne _
      · exact simulates_advance hne _
  | number n =>
      exact simulates_advance (by rw [htype]; exact TokenType.noConfusion) _
  | ident s =>
      dsimp only
      split
      · exact simulates_advance (by rw [htype]; exact TokenType.noConfusion) _
      · exact simulates_failAt pos _
  | _ => exact simulates_failAt pos _

theorem simulates_parseListLoop (fuel : ℕ) (values : List Value) (pos : ℕ) :
    Simulates tokens (parseListLoop tokens U fuel values) pos
      (Cxdb.parseListLoop U fuel values (tokens.drop pos)) := by
  induction fuel generalizing values pos with
  | zero => exact simulates_pure values pos
  | succ fuel ih =>
      rw [Cxdb.parseListLoop, currentToken_drop]
      refine simulates_matchToken TokenType.noConfusion (fun hcomma => ?_)
        fun _ => simulates_pure values pos
      rw [advanceToken_drop (by rw [hcomma]; exact TokenType.noConfusion)]
      exact (simulates_parseValue (pos + 1)).bind fun value pos' => ih _ pos'

theorem simulates_parseList (pos : ℕ) :
    Simulates tokens (parseList tokens U) pos (Cxdb.parseList U (tokens.drop pos)) := by
  rw [Cxdb.parseList, currentToken_drop]
  refine simulates_matchToken TokenType.noConfusion (fun hopen => ?_)
    fun _ => simulates_failAt pos _
  rw [advanceToken_drop (by rw [hopen]; exact TokenType.noConfusion)]
  refine (simulates_parseValue (pos + 1)).bind fun value pos' => ?_
  have hget : (get : Parsing ℕ) pos' = some (.ok (pos', pos')) := rfl
  refine .of_ok hget ?_
  dsimp only
  rw [List.length_drop]
  refine (simulates_parseListLoop _ _ pos').bind fun values pos'' => ?_
  dsimp only
  rw [currentToken_drop]
  refine simulates_matchToken TokenType.noConfusion (fun hclose => ?_)
    fun _ => simulates_failAt pos'' _
  rw [advanceToken_drop (by rw [hclose]; exact TokenType.noConfusion)]
  exact simulates_pure _ _

theorem simulates_parseComparison (pos : ℕ) :
    Simulates tokens (parseComparison tokens U) pos
      (Cxdb.parseComparison U (tokens.drop pos)) := by
  refine .of_ok (a := tokenAt tokens pos) rfl ?_
  rw [Cxdb.parseComparison, currentToken_drop]
  cases htype : (tokenAt tokens pos).tokenType with
  | ident name =>
      have hne : (tokenAt tokens pos).tokenType ≠ .eof := by
        rw [htype]
        exact TokenType.noConfusion
      dsimp only
      refine .of_ok (advance_eq hne) ?_
      rw [advanceToken_drop hne, unknownField, currentToken_drop]
      split
      · rfl
      have hcurrent : current tokens (pos + 1) =
          some (.ok (tokenAt tokens (pos + 1), pos + 1)) := rfl
      refine .of_ok hcurrent ?_
      rw [currentToken_drop]
      cases hoperator : operatorOf (tokenAt tokens (pos + 1)).tokenType with
      | none => exact simulates_failAt (pos + 1) _
      | some operator =>
          have hne' := ne_eof_of_operatorOf hoperator
          dsimp only
          refine .of_ok (advance_eq hne') ?_
          rw [advanceToken_drop hne']
          split
          · exact (simulates_parseList _).bind fun value pos' => simulates_pure _ pos'
          · exact (simulates_parseValue _).bind fun value pos' => simulates_pure _ pos'
  | _ => exact simulates_failAt pos _

/-! ### The recursive descent -/

/-- The kind of the current token tells the tokens of the grammar. -/
theorem current_drop_eq_iff {k : Precedence.Kind} {expected : TokenType}
    (hk : ∀ t : TokenType, t.kind = k ↔ t = expected) (hne : k ≠ .other) (pos : ℕ) :
    (queryLanguage U).current (tokens.drop pos) = k ↔
      (tokenAt tokens pos).tokenType = expected := by
  rw [← hk, tokenAt, ← List.head?_drop]
  cases tokens.drop pos with
  | nil => exact ⟨fun h => absurd h.symm hne, fun h => absurd h.symm hne⟩
  | cons t ts => exact Iff.rfl

theorem kind_eq_or_iff (t : TokenType) : t.kind = .or ↔ t = .or := by
  cases t <;> simp [TokenType.kind]

theorem kind_eq_and_iff (t : TokenType) : t.kind = .and ↔ t = .and := by
  cases t <;> simp [TokenType.kind]

theorem kind_eq_not_iff (t : TokenType) : t.kind = .not ↔ t = .not := by
  cases t <;> simp [TokenType.kind]

theorem kind_eq_lparen_iff (t : TokenType) : t.kind = .lparen ↔ t = .lparen := by
  cases t <;> simp [TokenType.kind]

theorem kind_eq_rparen_iff (t : TokenType) : t.kind = .rparen ↔ t = .rparen := by
  cases t <;> simp [TokenType.kind]

/-- A token of the grammar is asked for. -/
theorem simulates_ifKind {α : Type} {k : Precedence.Kind} {expected : TokenType}
    (hk : ∀ t : TokenType, t.kind = k ↔ t = expected) (hother : k ≠ .other)
    (hne : expected ≠ .eof) {pos : ℕ} {f g : Parsing α} {y z : Except CqlError (α × List Token)}
    (hf : Simulates tokens f (pos + 1) y) (hg : Simulates tokens g pos z) :
    Simulates tokens (do if ← matchToken tokens expected then f else g) pos
      (if (queryLanguage U).current (tokens.drop pos) = k then y else z) := by
  rw [if_congr (current_drop_eq_iff hk hother pos) rfl rfl]
  exact simulates_matchToken hne (fun _ => hf) fun _ => hg

/-- The six functions, with as much fuel. -/
structure Descends (tokens : List Token) (U : UnicodeTables) (fuel : ℕ) : Prop where
  orExpr (pos : ℕ) : Simulates tokens (parseOrExpr tokens U fuel) pos
    ((queryLanguage U).parseOrExpr fuel (tokens.drop pos))
  orLoop (left : Expression) (pos : ℕ) : Simulates tokens (parseOrLoop tokens U fuel left) pos
    ((queryLanguage U).parseOrLoop fuel left (tokens.drop pos))
  andExpr (pos : ℕ) : Simulates tokens (parseAndExpr tokens U fuel) pos
    ((queryLanguage U).parseAndExpr fuel (tokens.drop pos))
  andLoop (left : Expression) (pos : ℕ) : Simulates tokens (parseAndLoop tokens U fuel left) pos
    ((queryLanguage U).parseAndLoop fuel left (tokens.drop pos))
  unaryExpr (pos : ℕ) : Simulates tokens (parseUnaryExpr tokens U fuel) pos
    ((queryLanguage U).parseUnaryExpr fuel (tokens.drop pos))
  primary (pos : ℕ) : Simulates tokens (parsePrimary tokens U fuel) pos
    ((queryLanguage U).parsePrimary fuel (tokens.drop pos))

/-- **The recursive descent** without a panic, by induction on the fuel. -/
theorem descends (tokens : List Token) (U : UnicodeTables) (fuel : ℕ) :
    Descends tokens U fuel := by
  induction fuel with
  | zero =>
      exact
        { orExpr := fun pos => simulates_failAt pos _
          orLoop := fun _ pos => simulates_failAt pos _
          andExpr := fun pos => simulates_failAt pos _
          andLoop := fun _ pos => simulates_failAt pos _
          unaryExpr := fun pos => simulates_failAt pos _
          primary := fun pos => simulates_failAt pos _ }
  | succ fuel ih =>
      refine ⟨fun pos => ?_, fun left pos => ?_, fun pos => ?_, fun left pos => ?_,
        fun pos => ?_, fun pos => ?_⟩
      · exact (ih.andExpr pos).bind ih.orLoop
      · rw [Language.parseOrLoop, List.tail_drop]
        refine simulates_ifKind kind_eq_or_iff (by decide) TokenType.noConfusion ?_
          (simulates_pure left pos)
        exact (ih.andExpr (pos + 1)).bind fun right pos' => ih.orLoop _ pos'
      · exact (ih.unaryExpr pos).bind ih.andLoop
      · rw [Language.parseAndLoop, List.tail_drop]
        refine simulates_ifKind kind_eq_and_iff (by decide) TokenType.noConfusion ?_
          (simulates_pure left pos)
        exact (ih.unaryExpr (pos + 1)).bind fun right pos' => ih.andLoop _ pos'
      · rw [Language.parseUnaryExpr, List.tail_drop]
        refine simulates_ifKind kind_eq_not_iff (by decide) TokenType.noConfusion ?_
          (ih.primary pos)
        exact (ih.primary (pos + 1)).bind fun inner pos' => simulates_pure _ pos'
      · rw [Language.parsePrimary, List.tail_drop]
        refine simulates_ifKind kind_eq_lparen_iff (by decide) TokenType.noConfusion ?_
          (simulates_parseComparison pos)
        refine (ih.orExpr (pos + 1)).bind fun e pos' => ?_
        dsimp only
        rw [List.tail_drop]
        exact simulates_ifKind kind_eq_rparen_iff (by decide) TokenType.noConfusion
          (simulates_pure e _) (simulates_failAt pos' _)

/-- What `parse` makes of the tokens, with those that are left. -/
def parsedQuery (U : UnicodeTables) (input : String) (tokens : List Token) :
    Except CqlError (CqlQuery × List Token) :=
  if (currentToken tokens).tokenType = .eof then .error (errorAt tokens "Empty query")
  else do
    let (ast, rest) ← (queryLanguage U).parse tokens
    if (currentToken rest).tokenType ≠ .eof then
      .error (errorAt rest "Unexpected token after expression")
    else .ok ({ raw := input, ast }, rest)

theorem parse_eq_parsedQuery {input : String} {ts : List Token}
    (h : (Lexer.new input).tokenize U = .ok ts) :
    Cxdb.parse U input = (parsedQuery U input ts).map Prod.fst := by
  rw [Cxdb.parse, h, ok_bind, parsedQuery]
  split
  · rfl
  · cases (queryLanguage U).parse ts with
    | error e => rfl
    | ok result =>
        dsimp only [ok_bind]
        split <;> rfl

/-- The parser from the first of its tokens. -/
theorem simulates_parseTokens (input : String) :
    Simulates tokens (parseTokens tokens U input) 0 (parsedQuery U input tokens) := by
  have hcurrent (pos : ℕ) : current tokens pos = some (.ok (tokenAt tokens pos, pos)) := rfl
  have hfirst : currentToken tokens = tokenAt tokens 0 := currentToken_drop 0
  refine .of_ok (hcurrent 0) ?_
  rw [parsedQuery, hfirst]
  split
  · exact simulates_failAt 0 _
  · refine ((descends tokens U _).orExpr 0).bind fun ast pos => ?_
    refine .of_ok (hcurrent pos) ?_
    dsimp only
    rw [currentToken_drop]
    split
    · exact simulates_failAt pos _
    · exact simulates_pure _ pos

/-- A simulation is a result. -/
theorem Simulates.result {α : Type} {x : Parsing α} {pos : ℕ}
    {y : Except CqlError (α × List Token)} (h : Simulates tokens x pos y) :
    (x pos).run.map (·.map Prod.fst) = some (y.map Prod.fst) := by
  cases y with
  | error e =>
      have hx : x pos = some (.error e) := h
      rw [hx]
      rfl
  | ok result =>
      obtain ⟨pos', hx, -⟩ := h
      rw [hx]
      rfl

/-- **The query of an input**, without a panic. -/
theorem parse_refines (U : UnicodeTables) (input : String) :
    parse U input = some (Cxdb.parse U input) := by
  obtain ⟨l, hl, -, -⟩ := RawLexer.tokenize_refines U input
  rw [parse, hl, Option.bind_some]
  cases htokens : (Lexer.new input).tokenize U with
  | error e => rw [Cxdb.parse, htokens]; rfl
  | ok ts =>
      rw [parse_eq_parsedQuery htokens]
      exact (simulates_parseTokens input).result

end RawParser

/-- **No query makes the search endpoint panic.** While the input is tokenised, `pos` stands at
the offset of the next character, which is a boundary, and what is sliced is in range and between
boundaries; the parser finds a token before every position that it moves to. -/
theorem positions_safe (U : UnicodeTables) (input : String) :
    ∃ l : RawLexer,
      (RawLexer.new input).tokenize U = some ((Lexer.new input).tokenize U, l) ∧
      (∀ x ∈ l.stands, x.1 = x.2 ∧ IsCharBoundary input.toList x.1) ∧
      (∀ x ∈ l.slices, x.1 ≤ x.2 ∧ x.2 ≤ byteLength input.toList ∧
        IsCharBoundary input.toList x.1 ∧ IsCharBoundary input.toList x.2) ∧
      RawParser.parse U input = some (parse U input) := by
  obtain ⟨l, hl, hsound, hinput⟩ := RawLexer.tokenize_refines U input
  refine ⟨l, hl, ?_, ?_, RawParser.parse_refines U input⟩
  · rw [← hinput]
    exact hsound.stands
  · rw [← hinput]
    exact hsound.slices

end Cxdb
