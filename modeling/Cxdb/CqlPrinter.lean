import Cxdb.CqlParser

/-!
# Printing Queries

An expression is written with strings in double quotes, where quotes, backslashes and line
breaks are escaped, and with parentheses where they are needed, or around every
subexpression, or anything in between (`ParenStyle`). Reading a written expression gives it
back.

## Main results

* `tokenize_spell`: tokens that are written out are read back.
* `derives_tokens`: the tokens of an expression derive it.
* `query_language`: parsing accepts exactly the grammar, and inverts printing.
-/

open Precedence (Level Derives bind_eq_ok ok_bind)

namespace Cxdb

/-! ### Expressions of the grammar -/

variable (U : UnicodeTables)

/-- Values that the grammar has: a string of the form of a relative date is a date, and a
number is what some literal is read as. -/
def Value.InGrammar : Value → Prop
  | .string s => relativePattern U s = none
  | .date s relative => relative = true ∧ (relativePattern U s).isSome
  | .number n => ∃ lit, F64.parse lit = some n
  | .list _ => False

/-- Expressions that the grammar has. -/
def Expression.InGrammar : Expression → Prop
  | .and left right | .or left right => InGrammar left ∧ InGrammar right
  | .not inner => InGrammar inner
  | .comparison field operator value =>
      (FieldName.fromStr field).isSome ∧
        match value with
        | .list vs => operator = .inList ∧ vs ≠ [] ∧ ∀ v ∈ vs, v.InGrammar U
        | v => operator ≠ .inList ∧ v.InGrammar U

/-! ### Tokens of an expression -/

/-- The nonterminal that an expression is an alternative of. -/
def Expression.level : Expression → Level
  | .or _ _ => .or
  | .and _ _ => .and
  | .not _ => .unary
  | .comparison _ _ _ => .primary

/-- Where parentheses are written: at least where they are needed. -/
structure ParenStyle where
  parens : Level → Expression → Bool
  needed : ∀ level e, e.level.rank < level.rank → parens level e = true

namespace ParenStyle

/-- Parentheses only where they are needed. -/
def minimal : ParenStyle where
  parens level e := e.level.rank < level.rank
  needed _ _ h := decide_eq_true h

/-- Parentheses around every operand. -/
def full : ParenStyle where
  parens _ _ := true
  needed _ _ _ := rfl

/-- The tokens of an operand. -/
def wrap (style : ParenStyle) (level : Level) (e : Expression) (ts : List TokenType) :
    List TokenType :=
  if style.parens level e then .lparen :: ts ++ [.rparen] else ts

end ParenStyle

def operatorToken : Operator → TokenType
  | .eq => .eq
  | .neq => .neq
  | .starts => .starts
  | .eqCi => .eqCi
  | .startsCi => .startsCi
  | .gt => .gt
  | .gte => .gte
  | .lt => .lt
  | .lte => .lte
  | .inList => .inList

/-- The token of a value; lists do not nest. -/
def Value.token : Value → TokenType
  | .string s | .date s _ => .string s
  | .number n => .number n
  | .list _ => .eof

def Value.tokens : Value → List TokenType
  | .list vs => .lparen :: (vs.map Value.token).intersperse .comma ++ [.rparen]
  | v => [v.token]

/-- The tokens that an expression is written with. -/
def Expression.tokens (style : ParenStyle) : Expression → List TokenType
  | .or left right =>
      style.wrap .or left (tokens style left) ++ .or :: style.wrap .and right (tokens style right)
  | .and left right =>
      style.wrap .and left (tokens style left) ++
        .and :: style.wrap .unary right (tokens style right)
  | .not inner => .not :: style.wrap .primary inner (tokens style inner)
  | .comparison field operator value => .ident field :: operatorToken operator :: value.tokens

/-! ### Writing tokens -/

/-- A character of a string literal. -/
def escapeChar (c : Char) : List Char :=
  if c = '"' then ['\\', '"']
  else if c = '\\' then ['\\', '\\']
  else if c = '\n' then ['\\', 'n']
  else if c = '\t' then ['\\', 't']
  else if c = '\r' then ['\\', 'r']
  else [c]

/-- A string literal. -/
def quote (s : String) : List Char := '"' :: s.toList.flatMap escapeChar ++ ['"']

/-- How a token is written. -/
def TokenType.lexeme : TokenType → List Char
  | .and => ['A', 'N', 'D']
  | .or => ['O', 'R']
  | .not => ['N', 'O', 'T']
  | .inList => ['I', 'N']
  | .lparen => ['(']
  | .rparen => [')']
  | .comma => [',']
  | .eq => ['=']
  | .neq => ['!', '=']
  | .starts => ['^', '=']
  | .eqCi => ['~', '=']
  | .startsCi => ['^', '~', '=']
  | .gt => ['>']
  | .gte => ['>', '=']
  | .lt => ['<']
  | .lte => ['<', '=']
  | .string s => quote s
  | .number n => n.print
  | .ident name => name.toList
  | .eof => []

/-- No blank stands behind `(`, nor before `)` and `,`. -/
def glued (t u : TokenType) : Bool := t = .lparen || u = .rparen || u = .comma

/-- Tokens, written one after the other. -/
def spell : List TokenType → List Char
  | [] => []
  | [t] => t.lexeme
  | t :: u :: ts => t.lexeme ++ ((if glued t u then [] else [' ']) ++ spell (u :: ts))

/-- An expression as a query. -/
def Expression.render (style : ParenStyle) (e : Expression) : String :=
  String.ofList (spell (e.tokens style))

/-! ### The tokens of an expression derive it -/

variable {U}

theorem operatorOf_operatorToken (operator : Operator) :
    operatorOf (operatorToken operator) = some operator := by
  cases operator <;> rfl

theorem Value.InGrammar.isValue {v : Value} (h : v.InGrammar U) : IsValue U v.token v := by
  cases v with
  | string s => exact .string h
  | number n => exact .number
  | date s relative =>
      obtain ⟨rfl, hs⟩ := h
      obtain ⟨r, hr⟩ := Option.isSome_iff_exists.mp hs
      exact .date hr
  | list vs => exact h.elim

theorem isValues_intersperse {vs : List Value} (hne : vs ≠ [])
    (h : ∀ v ∈ vs, v.InGrammar U) :
    IsValues U ((vs.map Value.token).intersperse .comma) vs := by
  induction vs with
  | nil => exact absurd rfl hne
  | cons v vs ih =>
      have hv := (h v List.mem_cons_self).isValue
      cases vs with
      | nil => exact .one hv
      | cons w vs => exact .more hv (ih (by simp) fun v hv => h v (List.mem_cons_of_mem _ hv))

theorem isComparison_tokens {field : String} {operator : Operator} {value : Value}
    (h : (Expression.comparison field operator value).InGrammar U) :
    IsComparison U (.ident field :: operatorToken operator :: value.tokens)
      (.comparison field operator value) := by
  obtain ⟨hfield, hvalue⟩ := h
  obtain ⟨f, hf⟩ := Option.isSome_iff_exists.mp hfield
  cases value with
  | list vs =>
      obtain ⟨rfl, hne, hvs⟩ := hvalue
      exact .inList hf (isValues_intersperse hne hvs)
  | string s | number n | date s relative =>
      exact .value hf (operatorOf_operatorToken _) hvalue.1 (Value.InGrammar.isValue hvalue.2)

/-- The tokens of an operand derive it wherever it stands. -/
theorem derives_wrap {style : ParenStyle} {level : Level} {e : Expression} {tys : List TokenType}
    (h : ∀ ts : List Token, ts.map (·.tokenType) = tys →
      Derives (queryLanguage U) (fun ts e => IsComparison U (ts.map (·.tokenType)) e) e.level ts e)
    {ts : List Token} (hts : ts.map (·.tokenType) = style.wrap level e tys) :
    Derives (queryLanguage U) (fun ts e => IsComparison U (ts.map (·.tokenType)) e) level ts e := by
  unfold ParenStyle.wrap at hts
  split at hts
  · obtain ⟨os, cs, rfl, hos, hcs⟩ := List.map_eq_append_iff.mp hts
    obtain ⟨o, us, rfl, ho, hus⟩ := List.map_eq_cons_iff.mp hos
    obtain ⟨c, rfl, hc⟩ := List.map_eq_singleton_iff.mp hcs
    have hinner := (h us hus).loosen (show Level.or.rank ≤ e.level.rank from Nat.zero_le _)
    exact (Derives.paren (congrArg TokenType.kind ho) hinner
      (congrArg TokenType.kind hc)).loosen (by cases level <;> decide)
  · next hparens =>
    exact (h ts hts).loosen (not_lt.mp fun hlt => hparens (style.needed level e hlt))

/-- **Printing derives.** The tokens of an expression derive it. -/
theorem derives_tokens (style : ParenStyle) {e : Expression} (h : e.InGrammar U)
    {ts : List Token} (hts : ts.map (·.tokenType) = e.tokens style) :
    Derives (queryLanguage U) (fun ts e => IsComparison U (ts.map (·.tokenType)) e)
      e.level ts e := by
  induction e generalizing ts with
  | or left right ihl ihr =>
      obtain ⟨ls, rs, rfl, hls, hrs⟩ := List.map_eq_append_iff.mp hts
      obtain ⟨o, rs, rfl, ho, hrs⟩ := List.map_eq_cons_iff.mp hrs
      exact .orMore (derives_wrap (fun _ => ihl h.1) hls) (congrArg TokenType.kind ho)
        (derives_wrap (fun _ => ihr h.2) hrs)
  | and left right ihl ihr =>
      obtain ⟨ls, rs, rfl, hls, hrs⟩ := List.map_eq_append_iff.mp hts
      obtain ⟨o, rs, rfl, ho, hrs⟩ := List.map_eq_cons_iff.mp hrs
      exact .andMore (derives_wrap (fun _ => ihl h.1) hls) (congrArg TokenType.kind ho)
        (derives_wrap (fun _ => ihr h.2) hrs)
  | not inner ih =>
      obtain ⟨o, us, rfl, ho, hus⟩ := List.map_eq_cons_iff.mp hts
      exact .unaryNot (congrArg TokenType.kind ho) (derives_wrap (fun _ => ih h) hus)
  | comparison field operator value =>
      refine .operand ?_
      rw [hts]
      exact isComparison_tokens h

/-! ### Tokens are read back -/

/-- Tokens that can be written and read back. -/
def TokenType.Lexable : TokenType → Prop
  | .eof => False
  | .ident name => (FieldName.fromStr name).isSome
  | .number n => ∃ lit, F64.parse lit = some n
  | _ => True

/-- What follows a token that would otherwise go on. -/
def Stops (rest : List Char) : Prop := ∀ c ∈ rest.head?, c = ' ' ∨ c = ')' ∨ c = ','

theorem takeWhile_append_stop {p : Char → Bool} {s rest : List Char} (hs : ∀ c ∈ s, p c = true)
    (hrest : ∀ c ∈ rest.head?, p c = false) :
    (s ++ rest).takeWhile p = s ∧ (s ++ rest).dropWhile p = rest := by
  rw [List.takeWhile_append_of_pos hs, List.dropWhile_append_of_pos hs]
  cases rest with
  | nil => simp
  | cons c rest =>
      have hc : p c = false := hrest c rfl
      simp [hc]

theorem Lexer.slice_append {l l' : Lexer} {s : List Char} (h : l.rest = s ++ l'.rest) :
    l.slice l' = s := by
  rw [Lexer.slice, h]
  simp

/-- A blank before a token is skipped. -/
theorem Lexer.skipWhitespace_blank {l : Lexer} {blank cs : List Char}
    (hblank : blank = [] ∨ blank = [' ']) (h : l.rest = blank ++ cs)
    (hcs : ∀ c ∈ cs.head?, UnicodeTables.isWhitespace c = false) :
    l.skipWhitespace.rest = cs := by
  have hall : ∀ c ∈ blank, UnicodeTables.isWhitespace c = true := by
    rcases hblank with rfl | rfl
    · simp
    · simpa using (by decide : UnicodeTables.isWhitespace ' ' = true)
  rw [Lexer.skipWhitespace, Lexer.skipWhile, h]
  exact (takeWhile_append_stop hall hcs).2

theorem not_isDigit_of_isAlpha {c : Char} (h : c.isAlpha = true) : c.isDigit = false := by
  rw [← Bool.not_eq_true]
  intro hd
  have h' : (decide (c.val ≥ 'A'.val ∧ c.val ≤ 'Z'.val) ||
      (decide (c.val ≥ 'a'.val) && decide (c.val ≤ 'z'.val))) = true := h
  simp only [Char.isDigit, Bool.or_eq_true, decide_eq_true_eq, Bool.and_eq_true,
    UInt32.le_iff_toNat_le, ge_iff_le] at h' hd
  have h₁ : 'A'.val.toNat = 65 := rfl
  have h₂ : 'a'.val.toNat = 97 := rfl
  have h₃ : '9'.val.toNat = 57 := rfl
  omega

section Lexing

variable (hU : U.Lawful) {l m : Lexer} {c : Char} {w rest : List Char}

/-- A word is read up to where it stops. -/
theorem Lexer.readIdentifier_word {t : TokenType} (hm : m.rest = w ++ rest)
    (hw : ∀ c ∈ w, Lexer.isIdentChar U c = true)
    (hrest : ∀ c ∈ rest.head?, Lexer.isIdentChar U c = false)
    (ht : Lexer.wordType U (String.ofList w) = t) :
    (m.readIdentifier U).1.tokenType = t ∧ (m.readIdentifier U).2.rest = rest := by
  have hskip : (m.skipWhile (Lexer.isIdentChar U)).rest = rest := by
    rw [Lexer.skipWhile, hm]
    exact (takeWhile_append_stop hw hrest).2
  unfold Lexer.readIdentifier Lexer.single
  dsimp only
  rw [Lexer.slice_append (hskip ▸ hm), ht]
  exact ⟨rfl, hskip⟩

omit hU in
/-- A character is escaped, or stands for itself. -/
theorem escapeChar_cases (c : Char) :
    (∃ e, Lexer.unescape e = c ∧ escapeChar c = ['\\', e]) ∨
      escapeChar c = [c] ∧ c ≠ '"' ∧ c ≠ '\\' := by
  unfold escapeChar
  by_cases hq : c = '"'
  · exact Or.inl ⟨'"', by subst hq; decide, if_pos hq⟩
  by_cases hb : c = '\\'
  · exact Or.inl ⟨'\\', by subst hb; decide, by rw [if_neg hq, if_pos hb]⟩
  by_cases hn : c = '\n'
  · exact Or.inl ⟨'n', by subst hn; decide, by rw [if_neg hq, if_neg hb, if_pos hn]⟩
  by_cases ht : c = '\t'
  · exact Or.inl ⟨'t', by subst ht; decide, by rw [if_neg hq, if_neg hb, if_neg hn, if_pos ht]⟩
  by_cases hr : c = '\r'
  · exact Or.inl ⟨'r', by subst hr; decide,
      by rw [if_neg hq, if_neg hb, if_neg hn, if_neg ht, if_pos hr]⟩
  · exact Or.inr
      ⟨by rw [if_neg hq, if_neg hb, if_neg hn, if_neg ht, if_neg hr], hq, hb⟩

/-- The loop of `read_string` undoes the escapes. -/
theorem Lexer.readStringLoop_flatMap_escapeChar {start position : Position}
    {s value : List Char} :
    ∃ position', Lexer.readStringLoop start '"' (s.flatMap escapeChar ++ '"' :: rest) position
      value = .ok (value ++ s, { rest, position := position' }) := by
  induction s generalizing position value with
  | nil =>
      refine ⟨position.next '"', ?_⟩
      rw [List.flatMap_nil, List.nil_append, Lexer.readStringLoop_quote, List.append_nil]
  | cons c s ih =>
      have happend : value ++ c :: s = value ++ [c] ++ s := by simp
      rw [happend, List.flatMap_cons]
      rcases escapeChar_cases c with ⟨e, he, hc⟩ | ⟨hc, hquote, hbackslash⟩
      · rw [hc]
        simp only [List.cons_append, List.nil_append]
        rw [Lexer.readStringLoop_escape (by decide), he]
        exact ih
      · rw [hc]
        simp only [List.cons_append, List.nil_append]
        rw [Lexer.readStringLoop_char hquote hbackslash]
        exact ih

/-- A string literal is read back. -/
theorem Lexer.readString_quote {s : String} (hm : m.rest = quote s ++ rest) :
    ∃ token m', m.readString '"' = .ok (token, m') ∧ token.tokenType = .string s ∧
      m'.rest = rest := by
  have hadv : m.advance.rest = s.toList.flatMap escapeChar ++ '"' :: rest := by
    simp [Lexer.advance, hm, quote]
  obtain ⟨position', hrun⟩ := @Lexer.readStringLoop_flatMap_escapeChar rest m.position
    m.advance.position s.toList []
  refine ⟨{ tokenType := .string s, position := m.position },
    { rest, position := position' }, ?_, rfl, rfl⟩
  unfold Lexer.readString
  rw [hadv, hrun, ok_bind]
  simp [Lexer.single, pure, Except.pure]

/-- Skipping a number literal. -/
theorem Lexer.skipNumber_literal {sign whole fraction : List Char}
    (hlit : F64.IsLiteral sign whole fraction) (hm : m.rest = sign ++ whole ++ fraction ++ rest)
    (hrest : Stops rest) : m.skipNumber.rest = rest := by
  have hdigit : ∀ c ∈ rest.head?, c.isDigit = false := fun c hc => by
    rcases hrest c hc with rfl | rfl | rfl <;> rfl
  obtain ⟨m₁, hm₁⟩ : ∃ m₁, m₁ = if m.peek = some '-' then m.advance else m := ⟨_, rfl⟩
  have hsign : m₁.rest = whole ++ (fraction ++ rest) := by
    rcases hlit.sign with rfl | rfl
    · obtain ⟨c, cs, rfl⟩ := List.exists_cons_of_ne_nil hlit.whole_ne
      have hc : m.peek ≠ some '-' := by
        have := hlit.whole c List.mem_cons_self
        simp only [Lexer.peek, hm, List.nil_append, List.cons_append, List.head?_cons, Ne,
          Option.some.injEq]
        rintro rfl
        exact absurd this (by decide)
      rw [hm₁, if_neg hc, hm]
      simp
    · have hc : m.peek = some '-' := by simp [Lexer.peek, hm]
      rw [hm₁, if_pos hc]
      simp [Lexer.advance, hm]
  have hskip : (m₁.skipWhile Char.isDigit).rest = fraction ++ rest := by
    rw [Lexer.skipWhile, hsign]
    refine (takeWhile_append_stop hlit.whole ?_).2
    rcases hlit.fraction with rfl | ⟨ds, rfl, -, -⟩
    · exact hdigit
    · rintro c ⟨⟩
      rfl
  unfold Lexer.skipNumber
  rw [← hm₁]
  change (if (m₁.skipWhile Char.isDigit).peek = some '.' then
    (m₁.skipWhile Char.isDigit).advance.skipWhile Char.isDigit
    else m₁.skipWhile Char.isDigit).rest = rest
  generalize m₁.skipWhile Char.isDigit = m₂ at hskip
  rcases hlit.fraction with rfl | ⟨ds, rfl, -, hds⟩
  · have hc : m₂.peek ≠ some '.' := by
      rw [Lexer.peek, hskip, List.nil_append]
      intro hpoint
      rcases hrest _ hpoint with h | h | h <;> exact absurd h (by decide)
    rw [if_neg hc, hskip, List.nil_append]
  · have hc : m₂.peek = some '.' := by rw [Lexer.peek, hskip]; rfl
    rw [if_pos hc, Lexer.skipWhile, Lexer.advance, hskip]
    exact (takeWhile_append_stop hds hdigit).2

/-- A number literal is read back. -/
theorem Lexer.readNumber_literal {n : F64} {sign whole fraction : List Char}
    (hlit : F64.IsLiteral sign whole fraction) (hm : m.rest = sign ++ whole ++ fraction ++ rest)
    (hn : F64.parse (sign ++ whole ++ fraction) = some n) (hrest : Stops rest) :
    m.readNumber.1.tokenType = .number n ∧ m.readNumber.2.rest = rest := by
  have hskip := Lexer.skipNumber_literal hlit hm hrest
  unfold Lexer.readNumber Lexer.single
  dsimp only
  rw [Lexer.slice_append (hskip.symm ▸ hm), hn]
  exact ⟨rfl, hskip⟩

include hU

/-- No character that stops a token goes on with a word. -/
theorem Stops.not_isIdentChar (h : Stops rest) :
    ∀ c ∈ rest.head?, Lexer.isIdentChar U c = false := by
  intro c hc
  have hc' : c.toNat < 128 ∧ c.isAlpha = false ∧ c.isDigit = false ∧ c ≠ '_' := by
    rcases h c hc with rfl | rfl | rfl <;> decide
  rw [Lexer.isIdentChar, UnicodeTables.isAlphanumeric, hU.isAlphabetic c hc'.1,
    hU.isNumeric c hc'.1, hc'.2.1, hc'.2.2.1]
  simpa using hc'.2.2.2

/-- A word of letters and underscores, read as a token. -/
theorem nextToken_word {t : TokenType} (hm : l.skipWhitespace.rest = c :: w ++ rest)
    (hc : c.isAlpha = true) (hascii : c.toNat < 128)
    (hw : w.all (fun d => decide (d.toNat < 128) && (d.isAlpha || d == '_')) = true)
    (hrest : Stops rest) (ht : Lexer.wordType U (String.ofList (c :: w)) = t) :
    ∃ token l', l.nextToken U = .ok (token, l') ∧ token.tokenType = t ∧ l'.rest = rest := by
  have hident : ∀ d ∈ c :: w, Lexer.isIdentChar U d = true := by
    intro d hd
    have hd' : d.toNat < 128 ∧ (d.isAlpha = true ∨ d = '_') := by
      rcases List.mem_cons.mp hd with rfl | hd
      · exact ⟨hascii, Or.inl hc⟩
      · simpa using List.all_eq_true.mp hw d hd
    rw [Lexer.isIdentChar, UnicodeTables.isAlphanumeric, hU.isAlphabetic d hd'.1]
    rcases hd'.2 with h | rfl
    · simp [h]
    · simp
  obtain ⟨hty, hrest'⟩ := Lexer.readIdentifier_word hm hident (hrest.not_isIdentChar hU) ht
  have hquote : ¬(c = '"' ∨ c = '\'') := by
    rintro (rfl | rfl) <;> exact absurd hc (by decide)
  have hnumber : l.skipWhitespace.startsNumber c = false := by
    rw [Lexer.startsNumber, Bool.or_eq_false_iff, Bool.and_eq_false_iff, decide_eq_false_iff_not]
    refine ⟨?_, Or.inl ?_⟩
    · exact not_isDigit_of_isAlpha hc
    · rintro rfl
      exact absurd hc (by decide)
  have hpeek : l.skipWhitespace.peek = some c := by rw [Lexer.peek, hm]; rfl
  refine ⟨_, _, ?_, hty, hrest'⟩
  unfold Lexer.nextToken
  dsimp only
  rw [hpeek]
  dsimp only
  rw [if_neg hquote, hnumber, if_neg (by decide), if_pos (Or.inl (by rw [hU.isAlphabetic c hascii, hc]))]

/-- The words of the language are read as their tokens. -/
theorem wordType_of_upper {s upper : String}
    (hs : s.toList.all (fun c => decide (c.toNat < 128)) = true)
    (hupper : String.ofList (s.toList.map Char.toUpper) = upper) :
    Lexer.wordType U s =
      if upper = "AND" then .and else if upper = "OR" then .or else if upper = "NOT" then .not
      else if upper = "IN" then .inList else .ident s := by
  have hascii : ∀ c ∈ s.toList, c.toNat < 128 := fun c hc => by
    simpa using List.all_eq_true.mp hs c hc
  rw [Lexer.wordType, hU.toUppercase s hascii, hupper]

/-- A character of an operator or of punctuation. -/
theorem nextToken_symbol (hc : c ∈ ['(', ')', ',', '=', '!', '^', '~', '>', '<'])
    (hm : l.skipWhitespace = m) (hpeek : m.peek = some c) :
    l.nextToken U = m.readSymbol m.position c := by
  have hc' : c.toNat < 128 ∧ c.isAlpha = false ∧ c.isDigit = false ∧ c ≠ '_' ∧ c ≠ '-' ∧
      ¬(c = '"' ∨ c = '\'') := by
    simp only [List.mem_cons, List.not_mem_nil, or_false] at hc
    rcases hc with rfl | rfl | rfl | rfl | rfl | rfl | rfl | rfl | rfl <;> decide
  obtain ⟨hascii, halpha, hdigit, hunderscore, hminus, hquote⟩ := hc'
  unfold Lexer.nextToken
  dsimp only
  rw [hm, hpeek]
  dsimp only
  rw [if_neg hquote, Lexer.startsNumber, hdigit, hU.isAlphabetic c hascii, halpha]
  simp [hminus, hunderscore]

/-- An operator or punctuation, read as a token. -/
theorem nextToken_symbol_lexeme {t : TokenType} {blank : List Char}
    (hblank : blank = [] ∨ blank = [' ']) (hl : l.rest = blank ++ (c :: w ++ rest))
    (hc : c ∈ ['(', ')', ',', '=', '!', '^', '~', '>', '<'])
    (hread : ∀ m : Lexer, m.rest = c :: w ++ rest →
      ∃ m', m.readSymbol m.position c = .ok ({ tokenType := t, position := m.position }, m') ∧
        m'.rest = rest) :
    ∃ token l', l.nextToken U = .ok (token, l') ∧ token.tokenType = t ∧ l'.rest = rest := by
  have hwhite : ∀ d ∈ (c :: w ++ rest).head?, UnicodeTables.isWhitespace d = false := by
    rintro d ⟨⟩
    simp only [List.mem_cons, List.not_mem_nil, or_false] at hc
    rcases hc with rfl | rfl | rfl | rfl | rfl | rfl | rfl | rfl | rfl <;> decide
  have hskip := Lexer.skipWhitespace_blank hblank hl hwhite
  have hpeek : l.skipWhitespace.peek = some c := by rw [Lexer.peek, hskip]; rfl
  rw [nextToken_symbol hU hc rfl hpeek]
  obtain ⟨m', hrun, hrest'⟩ := hread _ hskip
  exact ⟨_, m', hrun, rfl, hrest'⟩

omit hU in
/-- A number literal begins with a digit or a sign. -/
theorem exists_of_isLiteral {sign whole fraction : List Char}
    (h : F64.IsLiteral sign whole fraction) : ∃ c cs, sign ++ whole ++ fraction = c :: cs ∧
      (c.isDigit = true ∨ c = '-' ∧ cs.head?.any Char.isDigit = true) := by
  obtain ⟨d, ds, rfl⟩ := List.exists_cons_of_ne_nil h.whole_ne
  have hd := h.whole d List.mem_cons_self
  rcases h.sign with rfl | rfl
  · exact ⟨d, _, rfl, Or.inl hd⟩
  · exact ⟨'-', _, rfl, Or.inr ⟨rfl, by simpa using hd⟩⟩

omit hU in
/-- A number literal, read as a token. -/
theorem nextToken_number {n : F64} {sign whole fraction blank : List Char}
    (hlit : F64.IsLiteral sign whole fraction) (hblank : blank = [] ∨ blank = [' '])
    (hl : l.rest = blank ++ (sign ++ whole ++ fraction ++ rest))
    (hn : F64.parse (sign ++ whole ++ fraction) = some n) (hrest : Stops rest) :
    ∃ token l', l.nextToken U = .ok (token, l') ∧ token.tokenType = .number n ∧
      l'.rest = rest := by
  obtain ⟨c, cs, hcs, hc⟩ := exists_of_isLiteral hlit
  have hhead : UnicodeTables.isWhitespace c = false ∧ ¬(c = '"' ∨ c = '\'') := by
    rcases hc with hc | ⟨rfl, -⟩
    · exact UnicodeTables.not_blank_of_isDigit hc
    · decide
  have hskip := Lexer.skipWhitespace_blank hblank hl (by
    rw [hcs]
    rintro d ⟨⟩
    exact hhead.1)
  have hpeek : l.skipWhitespace.peek = some c := by
    rw [Lexer.peek, hskip, hcs]
    rfl
  have hstarts : l.skipWhitespace.startsNumber c = true := by
    rw [Lexer.startsNumber, Bool.or_eq_true, Bool.and_eq_true, decide_eq_true_eq]
    refine hc.imp_right fun h => ⟨h.1, ?_⟩
    have hdigit := h.2
    cases cs with
    | nil => cases hdigit
    | cons d ds => simpa [Lexer.peek, Lexer.advance, hskip, hcs] using hdigit
  obtain ⟨hty, hrest'⟩ := Lexer.readNumber_literal hlit hskip hn hrest
  refine ⟨_, _, ?_, hty, hrest'⟩
  unfold Lexer.nextToken
  dsimp only
  rw [hpeek]
  dsimp only
  rw [if_neg hhead.2, if_pos hstarts]

/-- **Written tokens are read back**, up to what follows them. -/
theorem nextToken_lexeme {t : TokenType} {blank : List Char} (ht : t.Lexable)
    (hblank : blank = [] ∨ blank = [' ']) (hl : l.rest = blank ++ (t.lexeme ++ rest))
    (hrest : t = .lparen ∨ Stops rest) :
    ∃ token l', l.nextToken U = .ok (token, l') ∧ token.tokenType = t ∧ l'.rest = rest := by
  cases t
  case eof => exact ht.elim
  case and | or | not | inList =>
    have hskip := Lexer.skipWhitespace_blank hblank hl (by simp [TokenType.lexeme]; decide)
    exact nextToken_word hU hskip (by decide) (by decide) (by decide)
      (hrest.resolve_left (by decide))
      ((wordType_of_upper hU (by decide) rfl).trans (by decide))
  case ident name =>
    obtain ⟨f, hf⟩ := Option.isSome_iff_exists.mp ht
    obtain rfl := FieldName.asStr_of_fromStr hf
    have hstops := hrest.resolve_left (by simp)
    cases f
    all_goals
      have hskip := Lexer.skipWhitespace_blank hblank hl
        (by simp [TokenType.lexeme, FieldName.asStr]; decide)
      exact nextToken_word hU hskip (by decide) (by decide) (by decide) hstops
        ((wordType_of_upper hU (by decide) rfl).trans (by decide))
  case string s =>
    have hskip := Lexer.skipWhitespace_blank hblank hl (by simp [TokenType.lexeme, quote]; decide)
    have hpeek : l.skipWhitespace.peek = some '"' := by rw [Lexer.peek, hskip]; rfl
    obtain ⟨token, l', hrun, hty, hrest'⟩ := Lexer.readString_quote hskip
    refine ⟨token, l', ?_, hty, hrest'⟩
    unfold Lexer.nextToken
    dsimp only
    rw [hpeek]
    exact hrun
  case number n =>
    obtain ⟨lit, hlit⟩ := ht
    obtain ⟨hparse, sign, whole, fraction, hprint, hliteral⟩ := F64.parse_print hlit
    rw [hprint] at hparse
    rw [TokenType.lexeme, hprint] at hl
    exact nextToken_number hliteral hblank hl hparse (hrest.resolve_left (by simp))
  case gt | lt =>
    have hstops := hrest.resolve_left (by decide)
    refine nextToken_symbol_lexeme hU hblank hl (by decide) fun m hm => ⟨m.advance, ?_, ?_⟩
    · have hne : m.advance.peek ≠ some '=' := by
        intro heq
        rcases hstops '=' (by simpa [Lexer.peek, Lexer.advance, hm] using heq) with h | h | h <;>
          exact absurd h (by decide)
      simp [Lexer.readSymbol, Lexer.readMaybeEq, Lexer.single, hne]
    · simp [Lexer.advance, hm]
  case lparen | rparen | comma | eq =>
    refine nextToken_symbol_lexeme hU hblank hl (by decide) fun m hm => ⟨m.advance, ?_, ?_⟩
    · simp [Lexer.readSymbol, Lexer.single]
    · simp [Lexer.advance, hm]
  case neq | eqCi | gte | lte | starts =>
    refine nextToken_symbol_lexeme hU hblank hl (by decide) fun m hm =>
      ⟨m.advance.advance, ?_, ?_⟩
    · have hpeek : m.advance.peek = some '=' := by simp [Lexer.peek, Lexer.advance, hm]
      simp [Lexer.readSymbol, Lexer.readMaybeEq, Lexer.readWithEq, Lexer.readCaret, Lexer.single,
        hpeek]
    · simp [Lexer.advance, hm]
  case startsCi =>
    refine nextToken_symbol_lexeme hU hblank hl (by decide) fun m hm =>
      ⟨m.advance.advance.advance, ?_, ?_⟩
    · have hpeek : m.advance.peek = some '~' := by simp [Lexer.peek, Lexer.advance, hm]
      have hpeek' : m.advance.advance.peek = some '=' := by
        simp [Lexer.peek, Lexer.advance, hm]
      simp [Lexer.readSymbol, Lexer.readCaret, Lexer.single, hpeek, hpeek']
    · simp [Lexer.advance, hm]

omit hU in
/-- A list of tokens goes on where a token may stop. -/
theorem stops_spell {t u : TokenType} (ts : List TokenType) (ht : t ≠ .lparen) :
    Stops ((if glued t u then [] else [' ']) ++ spell (u :: ts)) := by
  intro c hc
  by_cases hg : glued t u = true
  · rw [if_pos hg, List.nil_append] at hc
    have hu : u = .rparen ∨ u = .comma := by
      simpa [glued, ht] using hg
    have hhead : ∀ d cs, spell (u :: ts) = d :: cs → c = d := by
      intro d cs hspell
      rw [hspell] at hc
      exact (Option.some.inj hc).symm
    rcases hu with rfl | rfl
    · cases ts with
      | nil => exact Or.inr (Or.inl (hhead _ _ rfl))
      | cons => exact Or.inr (Or.inl (hhead _ _ rfl))
    · cases ts with
      | nil => exact Or.inr (Or.inr (hhead _ _ rfl))
      | cons => exact Or.inr (Or.inr (hhead _ _ rfl))
  · rw [if_neg hg] at hc
    exact Or.inl (Option.some.inj hc).symm

/-- **Written lists of tokens are read back.** -/
theorem tokenizeLoop_spell {ts : List TokenType} {blank : List Char}
    (hts : ∀ t ∈ ts, t.Lexable) (hblank : blank = [] ∨ blank = [' '])
    (hl : l.rest = blank ++ spell ts) {fuel : ℕ} (hfuel : l.rest.length < fuel) :
    ∃ tokens e, Lexer.tokenizeLoop U fuel l = .ok (tokens ++ [e]) ∧ e.tokenType = .eof ∧
      tokens.map (·.tokenType) = ts := by
  induction ts generalizing l blank fuel with
  | nil =>
      obtain ⟨fuel, rfl⟩ := Nat.exists_eq_add_of_le' (show 1 ≤ fuel by omega)
      have hskip := Lexer.skipWhitespace_blank hblank hl (by simp [spell])
      have hpeek : l.skipWhitespace.peek = none := by rw [Lexer.peek, hskip]; rfl
      refine ⟨[], { tokenType := .eof, position := l.skipWhitespace.position }, ?_, rfl, rfl⟩
      rw [Lexer.tokenizeLoop, Lexer.nextToken]
      dsimp only
      rw [hpeek]
      rfl
  | cons t ts ih =>
      obtain ⟨fuel, rfl⟩ := Nat.exists_eq_add_of_le' (show 1 ≤ fuel by omega)
      have ht := hts t List.mem_cons_self
      -- What follows the token: the other tokens, perhaps behind a blank.
      obtain ⟨blank', hblank', hspell, hstops⟩ : ∃ blank', (blank' = [] ∨ blank' = [' ']) ∧
          spell (t :: ts) = t.lexeme ++ (blank' ++ spell ts) ∧
          (t = .lparen ∨ Stops (blank' ++ spell ts)) := by
        cases ts with
        | nil => exact ⟨[], Or.inl rfl, by simp [spell], Or.inr (by simp [Stops, spell])⟩
        | cons u ts =>
            refine ⟨if glued t u then [] else [' '], by split <;> simp, rfl, ?_⟩
            by_cases hparen : t = .lparen
            · exact Or.inl hparen
            · exact Or.inr (stops_spell ts hparen)
      rw [hspell] at hl
      obtain ⟨token, l', hrun, hty, hrest⟩ := nextToken_lexeme hU ht hblank hl hstops
      have hne : token.tokenType ≠ .eof := by
        rw [hty]
        rintro rfl
        exact ht
      have hlt := Lexer.nextToken_length_lt hrun hne
      obtain ⟨tokens, e, hloop, he, hmap⟩ := ih (fun u hu => hts u (List.mem_cons_of_mem _ hu))
        hblank' hrest (show l'.rest.length < fuel by omega)
      refine ⟨token :: tokens, e, ?_, he, by rw [List.map_cons, hty, hmap]⟩
      rw [Lexer.tokenizeLoop, hrun, ok_bind]
      dsimp only
      rw [if_neg hne, hloop]
      rfl

end Lexing

/-! ### Parsing inverts printing -/

theorem Value.InGrammar.lexable {v : Value} (h : v.InGrammar U) : v.token.Lexable := by
  cases v with
  | string | date => trivial
  | number => exact h
  | list => exact h.elim

theorem lexable_intersperse {vs : List Value} (h : ∀ v ∈ vs, v.InGrammar U) :
    ∀ t ∈ (vs.map Value.token).intersperse .comma, t.Lexable := by
  induction vs with
  | nil => simp
  | cons v vs ih =>
      have hv := (h v List.mem_cons_self).lexable
      cases vs with
      | nil => simpa using hv
      | cons w vs =>
          have hvs := ih fun u hu => h u (List.mem_cons_of_mem _ hu)
          intro t ht
          rcases List.mem_cons.mp ht with rfl | ht
          · exact hv
          · rcases List.mem_cons.mp ht with rfl | ht
            · trivial
            · exact hvs t ht

theorem lexable_wrap {style : ParenStyle} {level : Level} {e : Expression} {ts : List TokenType}
    (h : ∀ t ∈ ts, t.Lexable) : ∀ t ∈ style.wrap level e ts, t.Lexable := by
  unfold ParenStyle.wrap
  split
  · intro t ht
    simp only [List.cons_append, List.mem_cons, List.mem_append, List.not_mem_nil,
      or_false] at ht
    rcases ht with rfl | ht | rfl
    · trivial
    · exact h t ht
    · trivial
  · exact h

/-- The tokens of an expression can be written. -/
theorem lexable_tokens (style : ParenStyle) {e : Expression} (h : e.InGrammar U) :
    ∀ t ∈ e.tokens style, t.Lexable := by
  induction e with
  | or left right ihl ihr | and left right ihl ihr =>
      intro t ht
      rcases List.mem_append.mp ht with ht | ht
      · exact lexable_wrap (ihl h.1) t ht
      · rcases List.mem_cons.mp ht with rfl | ht
        · trivial
        · exact lexable_wrap (ihr h.2) t ht
  | not inner ih =>
      intro t ht
      rcases List.mem_cons.mp ht with rfl | ht
      · trivial
      · exact lexable_wrap (ih h) t ht
  | comparison field operator value =>
      intro t ht
      rcases List.mem_cons.mp ht with rfl | ht
      · exact h.1
      rcases List.mem_cons.mp ht with rfl | ht
      · cases operator <;> trivial
      obtain ⟨-, hvalue⟩ := h
      cases value with
      | list vs =>
          obtain ⟨-, -, hvs⟩ := hvalue
          simp only [Value.tokens, List.cons_append, List.mem_cons, List.mem_append,
            List.not_mem_nil, or_false] at ht
          rcases ht with rfl | ht | rfl
          · trivial
          · exact lexable_intersperse hvs t ht
          · trivial
      | string s | number n | date s relative =>
          rw [List.mem_singleton.mp ht]
          exact Value.InGrammar.lexable hvalue.2

/-- Reading a written expression gives it back. -/
theorem parse_render (hU : U.Lawful) (style : ParenStyle) {e : Expression}
    (h : e.InGrammar U) : parse U (e.render style) = .ok { raw := e.render style, ast := e } := by
  have hl : (Lexer.new (e.render style)).rest = [] ++ spell (e.tokens style) := by
    simp [Lexer.new, Expression.render]
  obtain ⟨tokens, eof, hrun, heof, hmap⟩ := tokenizeLoop_spell hU (lexable_tokens style h)
    (Or.inl rfl) hl (Nat.lt_succ_self _)
  refine parse_eq_ok_iff.mpr ⟨rfl, tokens, eof, hrun, heof, ?_⟩
  exact (derives_tokens style h hmap).loosen (Nat.zero_le _)

/-! ### Parsing stays in the grammar -/

/-- The numbers of a token are read off literals. -/
def TokenType.Literal (t : TokenType) : Prop :=
  ∀ n, t = .number n → ∃ lit, F64.parse lit = some n

theorem TokenType.literal_of_ne {t : TokenType} (h : ∀ n, t ≠ .number n) : t.Literal :=
  fun n hn => absurd hn (h n)

theorem Lexer.literal_wordType (word : String) : (Lexer.wordType U word).Literal := by
  refine TokenType.literal_of_ne fun n => ?_
  unfold Lexer.wordType
  split_ifs <;> simp

theorem Lexer.literal_readSymbol {l l' : Lexer} {start : Position} {c : Char} {t : Token}
    (h : l.readSymbol start c = .ok (t, l')) : t.tokenType.Literal := by
  refine TokenType.literal_of_ne fun n => ?_
  have hwith : ∀ {m : Lexer} {c : Char} {ty : TokenType}, ty ≠ .number n →
      m.readWithEq start c ty = .ok (t, l') → t.tokenType ≠ .number n := by
    intro m c ty hty hrun
    unfold Lexer.readWithEq at hrun
    split at hrun
    · cases hrun
      exact hty
    · cases hrun
  have hmaybe : ∀ {m : Lexer} {ty ty' : TokenType}, ty ≠ .number n → ty' ≠ .number n →
      m.readMaybeEq start ty ty' = (t, l') → t.tokenType ≠ .number n := by
    intro m ty ty' hty hty' hrun
    unfold Lexer.readMaybeEq at hrun
    split at hrun
    · cases hrun
      exact hty
    · cases hrun
      exact hty'
  unfold Lexer.readSymbol at h
  iterate 4
    split at h
    · cases h
      simp
  split at h
  · exact hwith (by simp) h
  split at h
  · unfold Lexer.readCaret at h
    split at h
    · split at h
      · cases h
        simp
      · cases h
    · split at h
      · cases h
        simp
      · cases h
  split at h
  · exact hwith (by simp) h
  iterate 2
    split at h
    · exact hmaybe (by simp) (by simp) (Except.ok.inj h)
  cases h

/-- The lexer reads numbers off literals. -/
theorem Lexer.literal_nextToken {l l' : Lexer} {t : Token}
    (h : l.nextToken U = .ok (t, l')) : t.tokenType.Literal := by
  unfold Lexer.nextToken at h
  dsimp only at h
  split at h
  · cases h
    exact TokenType.literal_of_ne (by simp)
  split at h
  · obtain ⟨⟨v, l''⟩, -, hrun⟩ := bind_eq_ok.mp h
    cases hrun
    exact TokenType.literal_of_ne (by simp)
  split at h
  · cases h
    rintro n hn
    obtain rfl := TokenType.number.inj hn
    rcases hparse : F64.parse (l.skipWhitespace.slice l.skipWhitespace.skipNumber) with _ | m
    · exact ⟨['0'], by decide +kernel⟩
    · exact ⟨_, hparse⟩
  split at h
  · cases h
    exact Lexer.literal_wordType _
  · exact Lexer.literal_readSymbol h

theorem Lexer.literal_tokenizeLoop {fuel : ℕ} {l : Lexer} {tokens : List Token}
    (h : Lexer.tokenizeLoop U fuel l = .ok tokens) : ∀ t ∈ tokens, t.tokenType.Literal := by
  induction fuel generalizing l tokens with
  | zero =>
      cases h
      simp
  | succ fuel ih =>
      rw [Lexer.tokenizeLoop] at h
      obtain ⟨⟨t, l'⟩, ht, hrun⟩ := bind_eq_ok.mp h
      have hlit := Lexer.literal_nextToken ht
      dsimp only at hrun
      split at hrun
      · cases hrun
        simpa using hlit
      · obtain ⟨tokens', htokens, hrun⟩ := bind_eq_ok.mp hrun
        cases hrun
        simpa using ⟨hlit, ih htokens⟩

theorem IsValue.inGrammar {t : TokenType} {v : Value} (h : IsValue U t v) (ht : t.Literal) :
    v.InGrammar U := by
  cases h with
  | string hs => exact hs
  | date hs => exact ⟨rfl, by simp [hs]⟩
  | number => exact ht _ rfl
  | bool _ hb => rcases hb with rfl | rfl <;> rfl

theorem IsValues.inGrammar {ts : List TokenType} {vs : List Value} (h : IsValues U ts vs)
    (hts : ∀ t ∈ ts, t.Literal) : vs ≠ [] ∧ ∀ v ∈ vs, v.InGrammar U := by
  induction h with
  | one h => simpa using h.inGrammar (hts _ (by simp))
  | more h _ ih =>
      refine ⟨by simp, ?_⟩
      intro v hv
      rcases List.mem_cons.mp hv with rfl | hv
      · exact h.inGrammar (hts _ (by simp))
      · exact (ih fun t ht => hts t (by simp [ht])).2 v hv

theorem IsComparison.inGrammar {ts : List TokenType} {e : Expression}
    (h : IsComparison U ts e) (hts : ∀ t ∈ ts, t.Literal) : e.InGrammar U := by
  cases h with
  | @value name f o t operator v hf hop hne hv =>
      have hv' := hv.inGrammar (hts t (by simp))
      refine ⟨by simp [hf], ?_⟩
      cases v with
      | list => exact hv'.elim
      | string | number | date => exact ⟨hne, hv'⟩
  | inList hf hvs =>
      obtain ⟨hne, hvs'⟩ := hvs.inGrammar fun t ht => hts t (by simp [ht])
      exact ⟨by simp [hf], rfl, hne, hvs'⟩

/-- What is derived from literal tokens is in the grammar. -/
theorem inGrammar_of_derives {level : Level} {ts : List Token} {e : Expression}
    (h : Derives (queryLanguage U) (fun ts e => IsComparison U (ts.map (·.tokenType)) e)
      level ts e) (hts : ∀ t ∈ ts, t.tokenType.Literal) : e.InGrammar U := by
  induction h with
  | orOne _ ih | andOne _ ih | unaryOne _ ih => exact ih hts
  | orMore _ _ _ ihl ihr | andMore _ _ _ ihl ihr =>
      exact ⟨ihl fun t ht => hts t (by simp [ht]), ihr fun t ht => hts t (by simp [ht])⟩
  | unaryNot _ _ ih => exact ih fun t ht => hts t (by simp [ht])
  | operand h =>
      refine h.inGrammar fun ty hty => ?_
      obtain ⟨t, ht, rfl⟩ := List.mem_map.mp hty
      exact hts t ht
  | paren _ _ _ ih => exact ih fun t ht => hts t (by simp [ht])

/-- The tree of a query is in the grammar. -/
theorem inGrammar_of_parse {input : String} {q : CqlQuery} (h : parse U input = .ok q) :
    q.ast.InGrammar U := by
  obtain ⟨-, ts, e, htokens, -, hd⟩ := parse_eq_ok_iff.mp h
  exact inGrammar_of_derives hd fun t ht =>
    Lexer.literal_tokenizeLoop htokens t (by simp [ht])

/-- **The query language.** Parsing accepts a query if and only if its tokens are derivable
in the grammar, with the derived tree. The trees are the expressions of the grammar, and
reading one of them that was written with any parentheses gives it back. -/
theorem query_language (hU : U.Lawful) :
    (∀ (input : String) (q : CqlQuery), parse U input = .ok q ↔ q.raw = input ∧
      ∃ ts e, (Lexer.new input).tokenize U = .ok (ts ++ [e]) ∧ e.tokenType = .eof ∧
        DerivesQuery U ts q.ast) ∧
    (∀ (input : String) (q : CqlQuery), parse U input = .ok q → q.ast.InGrammar U) ∧
    ∀ (style : ParenStyle) (e : Expression), e.InGrammar U →
      parse U (e.render style) = .ok { raw := e.render style, ast := e } :=
  ⟨fun _ _ => parse_eq_ok_iff, fun _ _ => inGrammar_of_parse,
    fun style _ he => parse_render hU style he⟩

/-- `NOT (tag = "a\"b" OR depth > 5) AND created > "-7d"`. -/
def nestedQuery : Expression :=
  .and (.not (.or (.comparison "tag" .eq (.string "a\"b"))
      (.comparison "depth" .gt (.number (.finite 5)))))
    (.comparison "created" .gt (.date "-7d" true))

theorem query_language_nestedQuery :
    nestedQuery.render .minimal =
        "NOT (tag = \"a\\\"b\" OR depth > 5) AND created > \"-7d\"" ∧
      parse .ascii (nestedQuery.render .minimal) =
        .ok { raw := nestedQuery.render .minimal, ast := nestedQuery } :=
  ⟨by decide, (query_language UnicodeTables.ascii_lawful).2.2 .minimal nestedQuery
    ⟨⟨⟨by decide, by decide,
        (by decide : relativePattern .ascii "a\"b" = none)⟩,
      by decide, by decide, ['5'], by decide +kernel⟩,
      by decide, by decide, rfl, by decide⟩⟩

end Cxdb
