import Cxdb.CqlPrinter
import Cxdb.TokenStreams

/-!
# The Lexer of the Frontend

`Lexer` of `frontend/lib/cql/lexer.ts`. A text has no character U+0000 to speak of: what stands
there is taken for the end of the input, except behind a backslash. Words are keywords if the
table of keywords has an entry for them; the names that every object inherits have one too, which
is no token type.

A position counts UTF-16 code units, of which a character has one or two.

## Main results

* `Lexer.length_lt_of_nextToken`: every token but the last takes characters off the input.
* `Lexer.tokenize_eq_ok_iff`: the tokens of an input.
-/

open Precedence (bind_eq_ok)

namespace Cxdb

namespace Ui

inductive TokenType where
  | and
  | or
  | not
  | inList
  | lparen
  | rparen
  | comma
  | eq
  | neq
  | starts
  | eqCi
  | startsCi
  | gt
  | gte
  | lt
  | lte
  | string
  | number
  | ident
  | eof
  /-- What the table of keywords inherits, which is none of the types. -/
  | inherited
  deriving DecidableEq

structure Token where
  tokenType : TokenType
  value : String
  position : Position
  deriving DecidableEq

structure CqlError where
  errorType : CqlErrorType
  message : String
  position : Position
  deriving DecidableEq

/-- The characters that are left, and the position of the first of them. -/
structure Lexer where
  rest : List Char
  position : Position

/-- `/\s/`, which `trim` takes off too. -/
def isSpace (c : Char) : Bool :=
  ('\t' ≤ c ∧ c ≤ '\r') || c = ' ' || c = '\u00a0' || c = '\u1680' ||
    ('\u2000' ≤ c ∧ c ≤ '\u200a') || c = '\u2028' || c = '\u2029' || c = '\u202f' ||
    c = '\u205f' || c = '\u3000' || c = '\ufeff'

/-- `/[a-zA-Z_]/`. -/
def isWordStart (c : Char) : Bool := c.isAlpha || c = '_'

/-- `/[a-zA-Z0-9_]/`. -/
def isWordChar (c : Char) : Bool := c.isAlphanum || c = '_'

/-- The UTF-16 code units of a character. -/
def utf16Size (c : Char) : ℕ := if c.toNat < 0x10000 then 1 else 2

/-- The position behind a character. -/
def nextPosition (p : Position) (c : Char) : Position :=
  if c = '\n' then { line := p.line + 1, column := 1, offset := p.offset + 1 }
  else
    { line := p.line, column := p.column + utf16Size c, offset := p.offset + utf16Size c }

/-- The names that an object inherits. -/
def inheritedNames : List String :=
  ["constructor", "__defineGetter__", "__defineSetter__", "hasOwnProperty", "__lookupGetter__",
    "__lookupSetter__", "isPrototypeOf", "propertyIsEnumerable", "toString", "valueOf",
    "__proto__", "toLocaleString"]

/-- `KEYWORDS`. -/
def keywordType (word : String) : Option TokenType :=
  match word with
  | "AND" | "and" => some .and
  | "OR" | "or" => some .or
  | "NOT" | "not" => some .not
  | "IN" | "in" => some .inList
  | word => if word ∈ inheritedNames then some .inherited else none

/-- A character in a message, of which only the first code unit is shown. -/
def firstUnit (c : Char) : Char := if utf16Size c = 1 then c else '\ufffd'

namespace Lexer

def new (input : String) : Lexer :=
  { rest := input.toList, position := { line := 1, column := 1, offset := 0 } }

def advance (l : Lexer) : Lexer :=
  match l.rest with
  | [] => l
  | c :: rest => { rest, position := nextPosition l.position c }

/-- `peek`, where the end of the input is U+0000. -/
def peek (l : Lexer) : Char := l.rest.head?.getD '\x00'

/-- Advance over the characters that satisfy `p`. -/
def skipWhile (p : Char → Bool) (l : Lexer) : Lexer :=
  { rest := l.rest.dropWhile p
    position := (l.rest.takeWhile p).foldl nextPosition l.position }

def skipWhitespace (l : Lexer) : Lexer := l.skipWhile isSpace

/-- The characters between two places of the input. -/
def slice (l l' : Lexer) : List Char := l.rest.take (l.rest.length - l'.rest.length)

def syntaxError (message : String) (position : Position) : CqlError :=
  { errorType := .syntaxError, message, position }

def single (start : Position) (tokenType : TokenType) (value : String) (l : Lexer) :
    Token × Lexer :=
  ({ tokenType, value, position := start }, l)

/-- The error of a string that does not end. -/
def unterminated (start : Position) : CqlError :=
  syntaxError s!"Unterminated string starting at line {start.line}, column {start.column}" start

/-- The loop of `readString`. -/
def readStringLoop (start : Position) (quote : Char) :
    List Char → Position → List Char → Except CqlError (List Char × Lexer)
  | [], _, _ => .error (unterminated start)
  | c :: rest, position, value =>
    if c = '\x00' then .error (unterminated start)
    else if c = quote then .ok (value, { rest, position := nextPosition position c })
    else if c = '\\' then
      match rest with
      | [] => .error (unterminated start)
      | e :: rest =>
          readStringLoop start quote rest (nextPosition (nextPosition position c) e)
            (value ++ [Cxdb.Lexer.unescape e])
    else readStringLoop start quote rest (nextPosition position c) (value ++ [c])

def readString (quote : Char) (l : Lexer) : Except CqlError (Token × Lexer) := do
  let (value, l') ← readStringLoop l.position quote l.advance.rest l.advance.position []
  return single l.position .string (String.ofList value) l'

/-- The lexer behind a number: a sign, digits, and a point if digits follow. -/
def skipNumber (l : Lexer) : Lexer :=
  let l := if l.peek = '-' then l.advance else l
  let l := l.skipWhile Char.isDigit
  if l.peek = '.' ∧ l.advance.peek.isDigit then l.advance.skipWhile Char.isDigit else l

def readNumber (l : Lexer) : Token × Lexer :=
  let l' := l.skipNumber
  single l.position .number (String.ofList (l.slice l')) l'

def readIdentifier (l : Lexer) : Token × Lexer :=
  let l' := l.skipWhile isWordChar
  let value := String.ofList (l.slice l')
  match keywordType value with
  | some keyword =>
      single l.position keyword (String.ofList (value.toList.map Char.toUpper)) l'
  | none => single l.position .ident value l'

/-- The operators that begin with `^`. -/
def readCaret (start : Position) (l : Lexer) : Except CqlError (Token × Lexer) :=
  if l.peek = '~' then
    if l.advance.peek = '=' then .ok (single start .startsCi "^~=" l.advance.advance)
    else
      .error (syntaxError
        s!"Expected '=' after '^~' at line {start.line}, column {start.column}" start)
  else if l.peek = '=' then .ok (single start .starts "^=" l.advance)
  else
    .error (syntaxError
      s!"Expected '=' or '~=' after '^' at line {start.line}, column {start.column}" start)

/-- An operator of a character and `=`. -/
def readWithEq (start : Position) (c : Char) (tokenType : TokenType) (l : Lexer) :
    Except CqlError (Token × Lexer) :=
  if l.peek = '=' then .ok (single start tokenType (String.ofList [c, '=']) l.advance)
  else
    .error (syntaxError
      s!"Expected '=' after '{c}' at line {start.line}, column {start.column}" start)

/-- An operator of a character, which `=` may follow. -/
def readMaybeEq (start : Position) (c : Char) (withEq without : TokenType) (l : Lexer) :
    Token × Lexer :=
  if l.peek = '=' then single start withEq (String.ofList [c, '=']) l.advance
  else single start without (String.ofList [c]) l

/-- Operators and punctuation. -/
def readSymbol (start : Position) (c : Char) (l : Lexer) : Except CqlError (Token × Lexer) :=
  if c = '(' then .ok (single start .lparen "(" l.advance)
  else if c = ')' then .ok (single start .rparen ")" l.advance)
  else if c = ',' then .ok (single start .comma "," l.advance)
  else if c = '=' then .ok (single start .eq "=" l.advance)
  else if c = '!' then readWithEq start '!' .neq l.advance
  else if c = '^' then readCaret start l.advance
  else if c = '~' then readWithEq start '~' .eqCi l.advance
  else if c = '>' then .ok (readMaybeEq start '>' .gte .gt l.advance)
  else if c = '<' then .ok (readMaybeEq start '<' .lte .lt l.advance)
  else
    .error (syntaxError
      s!"Unexpected character '{firstUnit c}' at line {start.line}, column {start.column}" start)

def nextToken (l : Lexer) : Except CqlError (Token × Lexer) :=
  let l := l.skipWhitespace
  match l.rest with
  | [] => .ok (single l.position .eof "" l)
  | c :: _ =>
    if c = '"' ∨ c = '\'' then l.readString c
    else if c.isDigit ∨ c = '-' ∧ l.advance.peek.isDigit then .ok l.readNumber
    else if isWordStart c then .ok l.readIdentifier
    else readSymbol l.position c l

/-- `tokenize`. -/
def tokenize (l : Lexer) : Except CqlError (List Token) :=
  TokenStreams.run nextToken (·.tokenType = .eof) (l.rest.length + 1) l

/-- Tokens before the end, read one after the other. -/
abbrev Reads (l : Lexer) (ts : List Token) (l' : Lexer) : Prop :=
  TokenStreams.Reads nextToken (·.tokenType = .eof) l ts l'

/-! ### What a token takes off the input -/

variable {l l' : Lexer} {c : Char} {rest : List Char}

theorem advance_rest (h : l.rest = c :: rest) : l.advance.rest = rest := by rw [advance, h]

theorem peek_eq (h : l.rest = c :: rest) : l.peek = c := by rw [peek, h]; rfl

theorem length_advance_le (l : Lexer) : l.advance.rest.length ≤ l.rest.length := by
  rw [advance]
  split
  · exact le_rfl
  next c rest h =>
    rw [h]
    exact Nat.le_succ _

theorem length_skipWhile_le (p : Char → Bool) (l : Lexer) :
    (l.skipWhile p).rest.length ≤ l.rest.length :=
  (List.dropWhile_suffix p).length_le

theorem length_skipWhile {p : Char → Bool} (h : l.rest = c :: rest) (hp : p c = true) :
    (l.skipWhile p).rest.length < l.rest.length := by
  simp only [skipWhile, h, List.dropWhile_cons, hp, if_true, List.length_cons]
  exact Nat.lt_succ_of_le (List.dropWhile_suffix p).length_le

section ReadString

variable {start position : Position} {quote : Char} {value : List Char}

theorem readStringLoop_nul :
    readStringLoop start quote ('\x00' :: rest) position value = .error (unterminated start) := by
  cases rest <;> rw [readStringLoop, if_pos rfl]

theorem readStringLoop_quote (hq : quote ≠ '\x00') :
    readStringLoop start quote (quote :: rest) position value =
      .ok (value, { rest, position := nextPosition position quote }) := by
  cases rest <;> rw [readStringLoop, if_neg hq, if_pos rfl]

theorem readStringLoop_escape (hq : '\\' ≠ quote) :
    readStringLoop start quote ('\\' :: c :: rest) position value =
      readStringLoop start quote rest (nextPosition (nextPosition position '\\') c)
        (value ++ [Cxdb.Lexer.unescape c]) := by
  rw [readStringLoop, if_neg (by decide), if_neg hq, if_pos rfl]

theorem readStringLoop_char (h0 : c ≠ '\x00') (hq : c ≠ quote) (hb : c ≠ '\\') :
    readStringLoop start quote (c :: rest) position value =
      readStringLoop start quote rest (nextPosition position c) (value ++ [c]) := by
  cases rest with
  | nil => rw [readStringLoop.eq_2, if_neg h0, if_neg hq, if_neg hb]
  | cons => rw [readStringLoop.eq_3, if_neg h0, if_neg hq, if_neg hb]

theorem length_readStringLoop {cs v : List Char}
    (h : readStringLoop start quote cs position value = .ok (v, l')) :
    l'.rest.length ≤ cs.length := by
  induction cs, position, value using readStringLoop.induct quote with
  | case1 => cases h
  | case2 rest position value =>
      rw [readStringLoop_nul] at h
      cases h
  | case3 rest position value hq =>
      rw [readStringLoop_quote hq] at h
      cases h
      exact Nat.le_succ _
  | case4 position value h0 hq =>
      rw [readStringLoop, if_neg h0, if_neg hq, if_pos rfl] at h
      cases h
  | case5 position value c rest h0 hq ih =>
      rw [readStringLoop_escape hq] at h
      exact (ih h).trans (Nat.le_add_right _ 2)
  | case6 c rest position value h0 hq hb ih =>
      rw [readStringLoop_char h0 hq hb] at h
      exact (ih h).trans (Nat.le_add_right _ 1)

end ReadString

/-- A sign or a digit begins a number. -/
theorem length_skipNumber (h : l.rest = c :: rest)
    (hc : c.isDigit = true ∨ c = '-' ∧ l.advance.peek.isDigit = true) :
    l.skipNumber.rest.length < l.rest.length := by
  have hlt : ((if l.peek = '-' then l.advance else l).skipWhile Char.isDigit).rest.length <
      l.rest.length := by
    split
    · rw [h]
      refine (length_skipWhile_le _ _).trans_lt ?_
      rw [advance_rest h]
      exact Nat.lt_succ_self _
    · next hsign =>
      rw [peek_eq h] at hsign
      exact length_skipWhile h (hc.resolve_right fun hc => hsign hc.1)
  rw [skipNumber]
  generalize (if l.peek = '-' then l.advance else l).skipWhile Char.isDigit = m at hlt
  split
  · exact ((length_skipWhile_le _ _).trans (length_advance_le _)).trans_lt hlt
  · exact hlt

theorem length_readCaret {start : Position} {t : Token}
    (h : l.readCaret start = .ok (t, l')) : l'.rest.length ≤ l.rest.length := by
  rw [readCaret] at h
  split at h
  · split at h
    · cases h
      exact (length_advance_le _).trans (length_advance_le _)
    · cases h
  · split at h
    · cases h
      exact length_advance_le _
    · cases h

theorem length_readWithEq {start : Position} {ty : TokenType} {t : Token}
    (h : l.readWithEq start c ty = .ok (t, l')) : l'.rest.length ≤ l.rest.length := by
  rw [readWithEq] at h
  split at h
  · cases h
    exact length_advance_le _
  · cases h

theorem length_readMaybeEq {start : Position} {withEq without : TokenType} {t : Token}
    (h : l.readMaybeEq start c withEq without = (t, l')) : l'.rest.length ≤ l.rest.length := by
  rw [readMaybeEq] at h
  split at h
  · cases h
    exact length_advance_le _
  · cases h
    exact le_rfl

theorem length_readSymbol {start : Position} {t : Token} (hrest : l.rest = c :: rest)
    (h : l.readSymbol start c = .ok (t, l')) : l'.rest.length < l.rest.length := by
  have hadv : l.advance.rest.length < l.rest.length := by
    rw [advance_rest hrest, hrest]
    exact Nat.lt_succ_self _
  refine lt_of_le_of_lt ?_ hadv
  rw [readSymbol] at h
  generalize l.advance = m at h ⊢
  iterate 4
    split at h
    · cases h
      exact le_rfl
  split at h
  · exact length_readWithEq h
  split at h
  · exact length_readCaret h
  split at h
  · exact length_readWithEq h
  iterate 2
    split at h
    · exact length_readMaybeEq (Except.ok.inj h)
  cases h

/-- Every token but the last takes characters off the input. -/
theorem length_lt_of_nextToken {t : Token} (h : l.nextToken = .ok (t, l'))
    (hne : ¬ t.tokenType = .eof) : l'.rest.length < l.rest.length := by
  refine lt_of_lt_of_le ?_ (length_skipWhile_le isSpace l)
  rw [nextToken] at h
  change _ < l.skipWhitespace.rest.length
  generalize l.skipWhitespace = m at h
  split at h
  · cases h
    exact absurd rfl hne
  next c rest hrest =>
  split at h
  · obtain ⟨⟨v, m'⟩, hv, hrun⟩ := bind_eq_ok.mp h
    cases hrun
    refine (length_readStringLoop hv).trans_lt ?_
    rw [advance_rest hrest, hrest]
    exact Nat.lt_succ_self _
  split at h
  · next hnum =>
    cases h
    exact length_skipNumber hrest hnum
  split at h
  · next hword =>
    have hlt : (m.skipWhile isWordChar).rest.length < m.rest.length := by
      refine length_skipWhile hrest ?_
      rw [isWordStart, Bool.or_eq_true] at hword
      rw [isWordChar, Char.isAlphanum, Bool.or_eq_true, Bool.or_eq_true]
      exact hword.imp_left Or.inl
    rw [readIdentifier] at h
    split at h <;> cases h <;> exact hlt
  exact length_readSymbol hrest h

/-- **The tokens of an input.** -/
theorem tokenize_eq_ok_iff {tokens : List Token} :
    l.tokenize = .ok tokens ↔ ∃ ts e l' l'', tokens = ts ++ [e] ∧ Reads l ts l' ∧
      l'.nextToken = .ok (e, l'') ∧ e.tokenType = .eof :=
  @TokenStreams.run_eq_ok_iff _ _ _ nextToken (·.tokenType = .eof) l _ (·.rest.length)
    length_lt_of_nextToken _ (Nat.lt_succ_self _) tokens

/-! ### Tokens that are read -/

section Lexemes

variable {m : Lexer} {w blank : List Char}

theorem slice_append {s : List Char} (h : l.rest = s ++ l'.rest) : l.slice l' = s := by
  rw [slice, h]
  simp

/-- A blank before a token is skipped. -/
theorem skipWhitespace_blank (hblank : blank = [] ∨ blank = [' '])
    (h : l.rest = blank ++ c :: rest) (hc : isSpace c = false) :
    l.skipWhitespace.rest = c :: rest := by
  have hall : ∀ c ∈ blank, isSpace c = true := by
    rcases hblank with rfl | rfl
    · simp
    · simpa using (by decide : isSpace ' ' = true)
  rw [skipWhitespace, skipWhile, h]
  exact (takeWhile_append_stop hall (by simpa using hc)).2

/-- The token that begins with a character. -/
theorem nextToken_cons (hm : l.skipWhitespace = m) (h : m.rest = c :: rest) :
    l.nextToken =
      if c = '"' ∨ c = '\'' then m.readString c
      else if c.isDigit ∨ c = '-' ∧ m.advance.peek.isDigit then .ok m.readNumber
      else if isWordStart c then .ok m.readIdentifier
      else readSymbol m.position c m := by
  rw [nextToken, hm, h]

/-- A letter is no blank, no quote, no digit and no sign. -/
theorem not_blank_of_isWordStart (h : isWordStart c = true) :
    isSpace c = false ∧ ¬(c = '"' ∨ c = '\'') ∧ c.isDigit = false ∧ c ≠ '-' := by
  have hlt : c.toNat < 128 := by
    rw [isWordStart, Bool.or_eq_true, decide_eq_true_eq] at h
    rcases h with h | rfl
    · change (decide (c.val ≥ 'A'.val ∧ c.val ≤ 'Z'.val) ||
        (decide (c.val ≥ 'a'.val) && decide (c.val ≤ 'z'.val))) = true at h
      simp only [Bool.or_eq_true, Bool.and_eq_true, decide_eq_true_eq, UInt32.le_iff_toNat_le,
        ge_iff_le] at h
      have h₁ : 'Z'.val.toNat = 90 := rfl
      have h₂ : 'z'.val.toNat = 122 := rfl
      change c.val.toNat < 128
      omega
    · decide
  have htable : ∀ n < 128, isWordStart (Char.ofNat n) = true →
      isSpace (Char.ofNat n) = false ∧ ¬(Char.ofNat n = '"' ∨ Char.ofNat n = '\'') ∧
        (Char.ofNat n).isDigit = false ∧ Char.ofNat n ≠ '-' := by decide
  have := htable c.toNat hlt
  rw [Char.ofNat_toNat] at this
  exact this h

/-- A digit is no blank, no quote and no sign. -/
theorem not_blank_of_isDigit (h : c.isDigit = true) :
    isSpace c = false ∧ ¬(c = '"' ∨ c = '\'') ∧ c ≠ '-' := by
  have hlt : c.toNat < 58 := by
    simp only [Char.isDigit, Bool.and_eq_true, decide_eq_true_eq, UInt32.le_iff_toNat_le] at h
    exact Nat.lt_succ_of_le h.2
  have htable : ∀ n < 58, (Char.ofNat n).isDigit = true →
      isSpace (Char.ofNat n) = false ∧ ¬(Char.ofNat n = '"' ∨ Char.ofNat n = '\'') ∧
        Char.ofNat n ≠ '-' := by decide
  have := htable c.toNat hlt
  rw [Char.ofNat_toNat] at this
  exact this h

/-- A word is read up to where it stops. -/
theorem nextToken_word (hblank : blank = [] ∨ blank = [' '])
    (hl : l.rest = blank ++ c :: (w ++ rest)) (hc : isWordStart c = true)
    (hw : ∀ d ∈ w, isWordChar d = true) (hrest : ∀ d ∈ rest.head?, isWordChar d = false) :
    ∃ token l', l.nextToken = .ok (token, l') ∧ l'.rest = rest ∧
      token.tokenType = (keywordType (String.ofList (c :: w))).getD .ident ∧
      (keywordType (String.ofList (c :: w)) = none → token.value = String.ofList (c :: w)) := by
  obtain ⟨hspace, hquote, hdigit, hsign⟩ := not_blank_of_isWordStart hc
  have hskip := skipWhitespace_blank hblank hl hspace
  generalize hm : l.skipWhitespace = m at hskip
  have hword : ∀ d ∈ c :: w, isWordChar d = true := by
    refine List.forall_mem_cons.mpr ⟨?_, hw⟩
    rw [isWordStart, Bool.or_eq_true] at hc
    rw [isWordChar, Char.isAlphanum, Bool.or_eq_true, Bool.or_eq_true]
    exact hc.imp_left Or.inl
  have hbehind : (m.skipWhile isWordChar).rest = rest := by
    rw [skipWhile, hskip, ← List.cons_append]
    exact (takeWhile_append_stop hword hrest).2
  have hslice : m.slice (m.skipWhile isWordChar) = c :: w :=
    slice_append (by rw [hbehind, hskip, List.cons_append])
  refine ⟨m.readIdentifier.1, m.readIdentifier.2, ?_, ?_, ?_, ?_⟩
  · rw [nextToken_cons hm hskip, if_neg hquote, if_neg (by simp [hdigit, hsign]), if_pos hc]
  all_goals
    rw [readIdentifier, hslice]
    cases hk : keywordType (String.ofList (c :: w)) with
    | none => simp [single, hbehind]
    | some => simp [single, hbehind]

/-- `=`. -/
theorem nextToken_eq (hblank : blank = [] ∨ blank = [' ']) (hl : l.rest = blank ++ '=' :: rest) :
    ∃ token l', l.nextToken = .ok (token, l') ∧ l'.rest = rest ∧ token.tokenType = .eq := by
  have hskip := skipWhitespace_blank hblank hl (by decide)
  refine ⟨_, _, nextToken_cons rfl hskip, advance_rest hskip, rfl⟩

/-- `^~=`. -/
theorem nextToken_startsCi (hblank : blank = [] ∨ blank = [' '])
    (hl : l.rest = blank ++ '^' :: '~' :: '=' :: rest) :
    ∃ token l', l.nextToken = .ok (token, l') ∧ l'.rest = rest ∧ token.tokenType = .startsCi := by
  have hskip := skipWhitespace_blank hblank hl (by decide)
  generalize hm : l.skipWhitespace = m at hskip
  have hadv := advance_rest hskip
  have hadv' := advance_rest hadv
  refine ⟨{ tokenType := .startsCi, value := "^~=", position := m.position },
    m.advance.advance.advance, ?_, advance_rest hadv', rfl⟩
  rw [nextToken_cons hm hskip]
  simp [readSymbol, readCaret, single, peek_eq hadv, peek_eq hadv', isWordStart]

/-- A string literal. -/
theorem nextToken_string {s body : List Char} (hblank : blank = [] ∨ blank = [' '])
    (hl : l.rest = blank ++ '"' :: (body ++ rest))
    (hread : ∀ start position, ∃ position',
      readStringLoop start '"' (body ++ rest) position [] =
        .ok (s, { rest, position := position' })) :
    ∃ token l', l.nextToken = .ok (token, l') ∧ l'.rest = rest ∧ token.tokenType = .string ∧
      token.value = String.ofList s := by
  have hskip := skipWhitespace_blank hblank hl (by decide)
  generalize hm : l.skipWhitespace = m at hskip
  obtain ⟨position', hrun⟩ := hread m.position m.advance.position
  refine ⟨{ tokenType := .string, value := String.ofList s, position := m.position },
    { rest, position := position' }, ?_, rfl, rfl, rfl⟩
  rw [nextToken_cons hm hskip, if_pos (Or.inl rfl), readString, advance_rest hskip, hrun]
  rfl

/-- A number without a sign and a point. -/
theorem nextToken_digits (hblank : blank = [] ∨ blank = [' '])
    (hl : l.rest = blank ++ c :: (w ++ rest)) (hw : ∀ d ∈ c :: w, d.isDigit = true)
    (hrest : ∀ d ∈ rest.head?, d.isDigit = false ∧ d ≠ '.') :
    ∃ token l', l.nextToken = .ok (token, l') ∧ l'.rest = rest ∧ token.tokenType = .number ∧
      token.value = String.ofList (c :: w) := by
  have hc := hw c List.mem_cons_self
  obtain ⟨hspace, hquote, hsign⟩ := not_blank_of_isDigit hc
  have hskip := skipWhitespace_blank hblank hl hspace
  generalize hm : l.skipWhitespace = m at hskip
  have hdigits : (m.skipWhile Char.isDigit).rest = rest := by
    rw [skipWhile, hskip, ← List.cons_append]
    exact (takeWhile_append_stop hw fun d hd => (hrest d hd).1).2
  have hpoint : (m.skipWhile Char.isDigit).peek ≠ '.' := by
    rw [peek, hdigits]
    cases rest with
    | nil => decide
    | cons d rest => exact (hrest d rfl).2
  have hbehind : m.skipNumber = m.skipWhile Char.isDigit := by
    rw [skipNumber, peek_eq hskip, if_neg hsign]
    exact if_neg fun h => hpoint h.1
  have hslice : m.slice (m.skipWhile Char.isDigit) = c :: w :=
    slice_append (by rw [hdigits, hskip, List.cons_append])
  refine ⟨m.readNumber.1, m.readNumber.2, ?_, ?_, rfl, ?_⟩
  · rw [nextToken_cons hm hskip, if_neg hquote, if_pos (Or.inl hc)]
  · rw [readNumber, hbehind]
    exact hdigits
  · rw [readNumber, hbehind, hslice]
    rfl

end Lexemes

end Lexer

end Ui

end Cxdb
