import Cxdb.CqlAst
import Cxdb.PrecedenceParser

/-!
# The Lexer of the Query Language

`Lexer` of `cql/parser.rs`, over the characters of the input. `position` is where the lexer
stands: `advance` steps over one character, and a loop over characters of a kind
(`skipWhile`) over all of them.

## Main results

* `Lexer.nextToken_length_lt`: every token but the last takes characters off the input.
* `Lexer.tokenize_ends`: the tokens of an input end with `Eof`, which comes nowhere else.
-/

open Precedence (bind_eq_ok)

namespace Cxdb

/-- Token types for the lexer. -/
inductive TokenType where
  | and
  | or
  | not
  | inList
  | lparen
  | rparen
  | comma
  | eq
  | neq
  | starts
  | eqCi
  | startsCi
  | gt
  | gte
  | lt
  | lte
  | string (value : String)
  | number (value : F64)
  | ident (name : String)
  | eof
  deriving DecidableEq

structure Token where
  tokenType : TokenType
  position : Position

/-- `Lexer`: the characters that are left, and the position of the first of them. -/
structure Lexer where
  rest : List Char
  position : Position

/-- The position after a character. -/
def Position.next (p : Position) (c : Char) : Position :=
  if c = '\n' then { line := p.line + 1, column := 1, offset := p.offset + c.utf8Size }
  else { line := p.line, column := p.column + 1, offset := p.offset + c.utf8Size }

namespace Lexer

/-- `Lexer::new`. -/
def new (input : String) : Lexer :=
  { rest := input.toList, position := { line := 1, column := 1, offset := 0 } }

def advance (l : Lexer) : Lexer :=
  match l.rest with
  | [] => l
  | c :: rest => { rest, position := l.position.next c }

def peek (l : Lexer) : Option Char := l.rest.head?

/-- Advance over the characters that satisfy `p`. -/
def skipWhile (p : Char → Bool) (l : Lexer) : Lexer :=
  { rest := l.rest.dropWhile p
    position := (l.rest.takeWhile p).foldl Position.next l.position }

def skipWhitespace (l : Lexer) : Lexer := l.skipWhile UnicodeTables.isWhitespace

/-- A token of one type at the position where the lexer stood. -/
def single (start : Position) (tokenType : TokenType) (l : Lexer) : Token × Lexer :=
  ({ tokenType, position := start }, l)

def syntaxError (message : String) (position : Position) : CqlError :=
  { errorType := .syntaxError, message, position := some position, field := none }

/-- What a character after a backslash stands for. -/
def unescape (c : Char) : Char :=
  if c = 'n' then '\n' else if c = 't' then '\t' else if c = 'r' then '\r' else c

/-- The loop of `read_string`, with what has been read of the value. -/
def readStringLoop (start : Position) (quote : Char) :
    List Char → Position → List Char → Except CqlError (List Char × Lexer)
  | [], _, _ =>
      .error (syntaxError
        s!"Unterminated string starting at line {start.line}, column {start.column}" start)
  | c :: rest, position, value =>
    if c = quote then .ok (value, { rest, position := position.next c })
    else if c = '\\' then
      match rest with
      | [] => .error (syntaxError "Unterminated escape sequence" (position.next c))
      | e :: rest =>
          readStringLoop start quote rest ((position.next c).next e) (value ++ [unescape e])
    else readStringLoop start quote rest (position.next c) (value ++ [c])

def readString (quote : Char) (l : Lexer) : Except CqlError (Token × Lexer) := do
  let (value, l') ← readStringLoop l.position quote l.advance.rest l.advance.position []
  return single l.position (.string (String.ofList value)) l'

/-- The lexer behind a number: a sign, digits, a point and digits. -/
def skipNumber (l : Lexer) : Lexer :=
  let l := if l.peek = some '-' then l.advance else l
  let l := l.skipWhile Char.isDigit
  if l.peek = some '.' then l.advance.skipWhile Char.isDigit else l

/-- The characters between two places of the input. -/
def slice (l l' : Lexer) : List Char := l.rest.take (l.rest.length - l'.rest.length)

def readNumber (l : Lexer) : Token × Lexer :=
  let l' := l.skipNumber
  single l.position (.number ((F64.parse (l.slice l')).getD (.finite 0))) l'

variable (U : UnicodeTables)

def isIdentChar (c : Char) : Bool := U.isAlphanumeric c || c = '_'

/-- The keyword or identifier that a word is. -/
def wordType (word : String) : TokenType :=
  if U.toUppercase word = "AND" then .and
  else if U.toUppercase word = "OR" then .or
  else if U.toUppercase word = "NOT" then .not
  else if U.toUppercase word = "IN" then .inList
  else .ident word

def readIdentifier (l : Lexer) : Token × Lexer :=
  let l' := l.skipWhile (isIdentChar U)
  single l.position (wordType U (String.ofList (l.slice l'))) l'

/-- The character begins a number. -/
def startsNumber (l : Lexer) (c : Char) : Bool :=
  c.isDigit || c = '-' && l.advance.peek.any Char.isDigit

/-- The operators that begin with `^`. -/
def readCaret (start : Position) (l : Lexer) : Except CqlError (Token × Lexer) :=
  if l.peek = some '~' then
    if l.advance.peek = some '=' then .ok (single start .startsCi l.advance.advance)
    else
      .error (syntaxError
        s!"Expected '=' after '^~' at line {start.line}, column {start.column}" start)
  else if l.peek = some '=' then .ok (single start .starts l.advance)
  else
    .error (syntaxError
      s!"Expected '=' or '~=' after '^' at line {start.line}, column {start.column}" start)

/-- An operator of a character and `=`. -/
def readWithEq (start : Position) (c : Char) (tokenType : TokenType) (l : Lexer) :
    Except CqlError (Token × Lexer) :=
  if l.peek = some '=' then .ok (single start tokenType l.advance)
  else
    .error (syntaxError
      s!"Expected '=' after '{c}' at line {start.line}, column {start.column}" start)

/-- An operator of a character, which `=` may follow. -/
def readMaybeEq (start : Position) (withEq without : TokenType) (l : Lexer) : Token × Lexer :=
  if l.peek = some '=' then single start withEq l.advance else single start without l

/-- The arms of `next_token` for operators and punctuation. -/
def readSymbol (start : Position) (c : Char) (l : Lexer) : Except CqlError (Token × Lexer) :=
  if c = '(' then .ok (single start .lparen l.advance)
  else if c = ')' then .ok (single start .rparen l.advance)
  else if c = ',' then .ok (single start .comma l.advance)
  else if c = '=' then .ok (single start .eq l.advance)
  else if c = '!' then readWithEq start '!' .neq l.advance
  else if c = '^' then readCaret start l.advance
  else if c = '~' then readWithEq start '~' .eqCi l.advance
  else if c = '>' then .ok (readMaybeEq start .gte .gt l.advance)
  else if c = '<' then .ok (readMaybeEq start .lte .lt l.advance)
  else
    .error (syntaxError
      s!"Unexpected character '{c}' at line {start.line}, column {start.column}" start)

def nextToken (l : Lexer) : Except CqlError (Token × Lexer) :=
  let l := l.skipWhitespace
  match l.peek with
  | none => .ok (single l.position .eof l)
  | some c =>
    if c = '"' ∨ c = '\'' then l.readString c
    else if l.startsNumber c then .ok l.readNumber
    else if U.isAlphabetic c ∨ c = '_' then .ok (l.readIdentifier U)
    else readSymbol l.position c l

/-- The loop of `tokenize`; every token but the last takes characters off the input. -/
def tokenizeLoop : ℕ → Lexer → Except CqlError (List Token)
  | 0, _ => .ok []
  | fuel + 1, l => do
    let (token, l) ← l.nextToken U
    if token.tokenType = .eof then return [token]
    else
      let tokens ← tokenizeLoop fuel l
      return token :: tokens

def tokenize (l : Lexer) : Except CqlError (List Token) :=
  tokenizeLoop U (l.rest.length + 1) l

/-! ### What a token takes off the input -/

variable {U} {l l' : Lexer} {c : Char}

theorem peek_eq_some_iff : l.peek = some c ↔ ∃ rest, l.rest = c :: rest :=
  List.head?_eq_some_iff

theorem length_advance (h : l.peek = some c) : l.advance.rest.length < l.rest.length := by
  obtain ⟨rest, hrest⟩ := peek_eq_some_iff.mp h
  simp [advance, hrest]

theorem length_advance_le (l : Lexer) : l.advance.rest.length ≤ l.rest.length := by
  unfold advance
  split <;> simp_all

theorem length_skipWhile_le (p : Char → Bool) (l : Lexer) :
    (l.skipWhile p).rest.length ≤ l.rest.length :=
  (List.dropWhile_suffix p).length_le

theorem length_skipWhile {p : Char → Bool} (h : l.peek = some c) (hp : p c = true) :
    (l.skipWhile p).rest.length < l.rest.length := by
  obtain ⟨rest, hrest⟩ := peek_eq_some_iff.mp h
  simp only [skipWhile, hrest, List.dropWhile_cons, hp, if_true, List.length_cons]
  exact Nat.lt_succ_of_le (List.dropWhile_suffix p).length_le

section ReadString

variable {start position : Position} {quote : Char} {rest value : List Char}

theorem readStringLoop_quote :
    readStringLoop start quote (quote :: rest) position value =
      .ok (value, { rest, position := position.next quote }) := by
  cases rest <;> rw [readStringLoop, if_pos rfl]

theorem readStringLoop_escape (hq : '\\' ≠ quote) :
    readStringLoop start quote ('\\' :: c :: rest) position value =
      readStringLoop start quote rest ((position.next '\\').next c) (value ++ [unescape c]) := by
  rw [readStringLoop, if_neg hq, if_pos rfl]

theorem readStringLoop_char (hq : c ≠ quote) (hb : c ≠ '\\') :
    readStringLoop start quote (c :: rest) position value =
      readStringLoop start quote rest (position.next c) (value ++ [c]) := by
  cases rest with
  | nil => rw [readStringLoop.eq_2, if_neg hq, if_neg hb]
  | cons => rw [readStringLoop.eq_3, if_neg hq, if_neg hb]

theorem length_readStringLoop {cs v : List Char}
    (h : readStringLoop start quote cs position value = .ok (v, l')) :
    l'.rest.length ≤ cs.length := by
  induction cs, position, value using readStringLoop.induct quote with
  | case1 => cases h
  | case2 rest =>
      rw [readStringLoop_quote] at h
      cases h
      simp
  | case3 position value hq =>
      rw [readStringLoop, if_neg hq, if_pos rfl] at h
      cases h
  | case4 position value c rest hq ih =>
      rw [readStringLoop_escape hq] at h
      exact (ih h).trans (Nat.le_add_right _ 2)
  | case5 c rest position value hq hb ih =>
      rw [readStringLoop_char hq hb] at h
      exact (ih h).trans (Nat.le_add_right _ 1)

end ReadString

theorem length_skipNumber (hpeek : l.peek = some c) (hc : l.startsNumber c = true) :
    l.skipNumber.rest.length < l.rest.length := by
  -- The sign or the first digit is taken off; the rest takes off nothing back.
  have hdigits : ((if l.peek = some '-' then l.advance else l).skipWhile Char.isDigit).rest.length <
      l.rest.length := by
    split
    · exact (length_skipWhile_le _ _).trans_lt (length_advance hpeek)
    · next hsign =>
      have hdigit : c.isDigit = true := by
        rw [startsNumber, Bool.or_eq_true, Bool.and_eq_true, decide_eq_true_eq] at hc
        rcases hc with hc | ⟨rfl, -⟩
        · exact hc
        · exact absurd hpeek hsign
      exact length_skipWhile hpeek hdigit
  change (if ((if l.peek = some '-' then l.advance else l).skipWhile Char.isDigit).peek = some '.'
    then _ else _ : Lexer).rest.length < _
  generalize (if l.peek = some '-' then l.advance else l).skipWhile Char.isDigit = m at hdigits
  split
  · exact ((length_skipWhile_le _ _).trans (length_advance_le _)).trans_lt hdigits
  · exact hdigits

theorem length_readCaret {start : Position} {t : Token}
    (h : l.readCaret start = .ok (t, l')) : l'.rest.length ≤ l.rest.length := by
  unfold readCaret single at h
  split at h
  · split at h
    · cases h
      exact (length_advance_le _).trans (length_advance_le _)
    · cases h
  · split at h
    · cases h
      exact length_advance_le _
    · cases h

theorem length_readWithEq {start : Position} {ty : TokenType} {t : Token}
    (h : l.readWithEq start c ty = .ok (t, l')) : l'.rest.length ≤ l.rest.length := by
  unfold readWithEq single at h
  split at h
  · cases h
    exact length_advance_le _
  · cases h

theorem length_readMaybeEq {start : Position} {withEq without : TokenType} {t : Token}
    (h : l.readMaybeEq start withEq without = (t, l')) :
    l'.rest.length ≤ l.rest.length := by
  unfold readMaybeEq single at h
  split at h
  · cases h
    exact length_advance_le _
  · cases h
    exact le_rfl

theorem length_readSymbol {start : Position} {t : Token} (hpeek : l.peek = some c)
    (h : l.readSymbol start c = .ok (t, l')) : l'.rest.length < l.rest.length := by
  refine lt_of_le_of_lt ?_ (length_advance hpeek)
  unfold readSymbol at h
  generalize l.advance = m at h ⊢
  iterate 4
    split at h
    · cases h
      exact Nat.le_refl _
  split at h
  · exact length_readWithEq h
  split at h
  · exact length_readCaret h
  split at h
  · exact length_readWithEq h
  iterate 2
    split at h
    · exact length_readMaybeEq (Except.ok.inj h)
  cases h

/-- Every token but the last takes characters off the input. -/
theorem nextToken_length_lt {t : Token} (h : l.nextToken U = .ok (t, l'))
    (hne : t.tokenType ≠ .eof) : l'.rest.length < l.rest.length := by
  have hws : l.skipWhitespace.rest.length ≤ l.rest.length := length_skipWhile_le _ _
  refine lt_of_lt_of_le ?_ hws
  unfold nextToken at h
  generalize l.skipWhitespace = m at h
  dsimp only at h
  rcases hpeek : m.peek with _ | c
  · rw [hpeek] at h
    cases h
    exact absurd rfl hne
  · have hadv := length_advance hpeek
    rw [hpeek] at h
    dsimp only at h
    split at h
    · obtain ⟨⟨v, m'⟩, hv, hrun⟩ := bind_eq_ok.mp h
      cases hrun
      exact (length_readStringLoop hv).trans_lt hadv
    split at h
    · next hnum =>
      cases h
      exact length_skipNumber hpeek hnum
    split at h
    · next hword =>
      cases h
      refine length_skipWhile hpeek ?_
      rw [isIdentChar, UnicodeTables.isAlphanumeric]
      rcases hword with hword | rfl
      · rw [hword]
        simp
      · simp
    exact length_readSymbol hpeek h

/-- The tokens of an input end with `Eof`, which comes nowhere else. -/
theorem tokenizeLoop_ends {fuel : ℕ} {tokens : List Token}
    (h : tokenizeLoop U fuel l = .ok tokens) (hfuel : l.rest.length < fuel) :
    ∃ ts e, tokens = ts ++ [e] ∧ e.tokenType = .eof ∧ ∀ t ∈ ts, t.tokenType ≠ .eof := by
  induction fuel generalizing l tokens with
  | zero => omega
  | succ fuel ih =>
      rw [tokenizeLoop] at h
      obtain ⟨⟨t, m⟩, ht, hrun⟩ := bind_eq_ok.mp h
      dsimp only at hrun
      split at hrun
      · next heof =>
        cases hrun
        exact ⟨[], t, rfl, heof, by simp⟩
      · next hne =>
        obtain ⟨tokens', htokens, hrun⟩ := bind_eq_ok.mp hrun
        cases hrun
        have hlt := nextToken_length_lt ht hne
        obtain ⟨ts, e, rfl, he, hts⟩ := ih htokens (by omega)
        exact ⟨t :: ts, e, rfl, he, by simpa using ⟨hne, hts⟩⟩

theorem tokenize_ends {tokens : List Token} (h : l.tokenize U = .ok tokens) :
    ∃ ts e, tokens = ts ++ [e] ∧ e.tokenType = .eof ∧ ∀ t ∈ ts, t.tokenType ≠ .eof :=
  tokenizeLoop_ends h (Nat.lt_succ_self _)

end Lexer

end Cxdb
