import Mathlib.Algebra.BigOperators.Group.List.Basic
import Cxdb.CqlLexer

/-!
# Positions in the Input of a Query

The lexer of `cql/parser.rs` keeps the place where it stands twice: as the characters that are
left, with their offsets, and as an offset of its own, by which it slices the input. A slice that
does not begin and end between characters panics. Here every function of the lexer has the two
places, and no result where it would panic or not come to an end; it is compared with the lexer
that has only the characters.

## Main results

* `RawLexer.Sound.nextToken`: the next token, without a panic.
* `RawLexer.tokenize_refines`: the tokens of an input, without a panic; wherever the lexer stood,
  the two places were the same, and between characters.
-/

open Precedence (bind_eq_ok ok_bind)

namespace Cxdb

/-! ### Offsets -/

/-- `str::char_indices`, of a text that begins at an offset. -/
def charIndices : ℕ → List Char → List (ℕ × Char)
  | _, [] => []
  | offset, c :: cs => (offset, c) :: charIndices (offset + c.utf8Size) cs

/-- `str::len`. -/
def byteLength (cs : List Char) : ℕ := (cs.map Char.utf8Size).sum

/-- `str::is_char_boundary`: a character begins at the offset, or the text ends there. -/
def IsCharBoundary (input : List Char) (offset : ℕ) : Prop :=
  offset ∈ (charIndices 0 input).map Prod.fst ∨ offset = byteLength input

instance (input : List Char) (offset : ℕ) : Decidable (IsCharBoundary input offset) :=
  inferInstanceAs (Decidable (_ ∨ _))

/-- `&input[start..stop]`, which panics unless both ends are between characters. -/
def sliceOf (input : List Char) (start stop : ℕ) : Option (List Char) :=
  if start ≤ stop ∧ IsCharBoundary input start ∧ IsCharBoundary input stop then
    some (((charIndices 0 input).filter fun x => start ≤ x.1 ∧ x.1 < stop).map Prod.snd)
  else none

theorem byteLength_cons (c : Char) (cs : List Char) :
    byteLength (c :: cs) = c.utf8Size + byteLength cs := List.sum_cons

theorem byteLength_append (cs cs' : List Char) :
    byteLength (cs ++ cs') = byteLength cs + byteLength cs' := by
  rw [byteLength, List.map_append, List.sum_append]
  rfl

theorem charIndices_append (offset : ℕ) (cs cs' : List Char) :
    charIndices offset (cs ++ cs') =
      charIndices offset cs ++ charIndices (offset + byteLength cs) cs' := by
  induction cs generalizing offset with
  | nil => rfl
  | cons c cs ih =>
      rw [List.cons_append, charIndices, ih, charIndices, byteLength_cons, Nat.add_assoc]
      rfl

theorem map_snd_charIndices (offset : ℕ) (cs : List Char) :
    (charIndices offset cs).map Prod.snd = cs := by
  induction cs generalizing offset with
  | nil => rfl
  | cons c cs ih => rw [charIndices, List.map_cons, ih]

theorem offset_of_mem_charIndices {offset : ℕ} {cs : List Char} {x : ℕ × Char}
    (h : x ∈ charIndices offset cs) : offset ≤ x.1 ∧ x.1 < offset + byteLength cs := by
  induction cs generalizing offset with
  | nil => cases h
  | cons c cs ih =>
      have hpos := c.utf8Size_pos
      rw [byteLength_cons]
      rcases List.mem_cons.mp h with rfl | h
      · simp only
        omega
      · have := ih h
        omega

theorem isCharBoundary_append (cs cs' : List Char) :
    IsCharBoundary (cs ++ cs') (byteLength cs) := by
  cases cs' with
  | nil =>
      rw [List.append_nil]
      exact Or.inr rfl
  | cons c cs' =>
      refine Or.inl ?_
      rw [charIndices_append, Nat.zero_add, charIndices, List.map_append]
      exact List.mem_append_right _ List.mem_cons_self

/-- A slice between characters is what stands there. -/
theorem sliceOf_append (cs ds es : List Char) :
    sliceOf (cs ++ (ds ++ es)) (byteLength cs) (byteLength (cs ++ ds)) = some ds := by
  have hle : byteLength cs ≤ byteLength (cs ++ ds) := by
    rw [byteLength_append]
    exact Nat.le_add_right _ _
  have hstop : IsCharBoundary (cs ++ (ds ++ es)) (byteLength (cs ++ ds)) := by
    rw [← List.append_assoc]
    exact isCharBoundary_append _ _
  rw [sliceOf, if_pos ⟨hle, isCharBoundary_append _ _, hstop⟩, charIndices_append,
    charIndices_append, Nat.zero_add, ← byteLength_append, List.filter_append,
    List.filter_append, List.filter_eq_nil_iff.mpr, List.filter_eq_self.mpr,
    List.filter_eq_nil_iff.mpr, List.nil_append, List.append_nil, map_snd_charIndices]
  · intro x hx
    have := offset_of_mem_charIndices hx
    simp only [decide_eq_true_eq]
    omega
  · intro x hx
    have := offset_of_mem_charIndices hx
    rw [← byteLength_append] at this
    exact decide_eq_true this
  · intro x hx
    have := offset_of_mem_charIndices hx
    simp only [decide_eq_true_eq]
    omega

/-! ### The lexer -/

/-- The fields of `Lexer`, and a record of where it has stood: its offset, and that of the next
character; and of what it has sliced. -/
structure RawLexer where
  input : List Char
  chars : List (ℕ × Char)
  pos : ℕ
  line : ℕ
  column : ℕ
  stands : List (ℕ × ℕ)
  slices : List (ℕ × ℕ)

namespace RawLexer

/-- `Lexer::new`. -/
def new (input : String) : RawLexer where
  input := input.toList
  chars := charIndices 0 input.toList
  pos := 0
  line := 1
  column := 1
  stands := [(0, 0)]
  slices := []

def currentPosition (l : RawLexer) : Position :=
  { line := l.line, column := l.column, offset := l.pos }

/-- The offset of the next character, or of the end. -/
def nextOffset (input : List Char) (chars : List (ℕ × Char)) : ℕ :=
  (chars.head?.map Prod.fst).getD (byteLength input)

def advance (l : RawLexer) : RawLexer :=
  match l.chars with
  | [] => l
  | (offset, c) :: chars =>
    { l with
      chars
      pos := offset + c.utf8Size
      line := if c = '\n' then l.line + 1 else l.line
      column := if c = '\n' then 1 else l.column + 1
      stands := l.stands ++ [(offset + c.utf8Size, nextOffset l.input chars)] }

def peek (l : RawLexer) : Option Char := l.chars.head?.map Prod.snd

/-- A slice of the input. -/
def slice (l : RawLexer) (start stop : ℕ) : Option (List Char × RawLexer) :=
  (sliceOf l.input start stop).map fun text =>
    (text, { l with slices := l.slices ++ [(start, stop)] })

/-- A loop that advances over the characters that satisfy `p`. -/
def skipWhile (p : Char → Bool) : ℕ → RawLexer → Option RawLexer
  | 0, _ => none
  | fuel + 1, l => if l.peek.any p then skipWhile p fuel l.advance else some l

/-- One more step than there are characters left. -/
def fuel (l : RawLexer) : ℕ := l.chars.length + 1

def skipWhitespace (l : RawLexer) : Option RawLexer :=
  l.skipWhile UnicodeTables.isWhitespace l.fuel

/-- The loop of `read_string`. -/
def readStringLoop (start : Position) (quote : Char) :
    ℕ → List Char → RawLexer → Option (Except CqlError (List Char) × RawLexer)
  | 0, _, _ => none
  | fuel + 1, value, l =>
    match l.peek with
    | none =>
        some (.error (Lexer.syntaxError
          s!"Unterminated string starting at line {start.line}, column {start.column}" start), l)
    | some c =>
      if c = quote then some (.ok value, l.advance)
      else if c = '\\' then
        match l.advance.peek with
        | none =>
            some (.error (Lexer.syntaxError "Unterminated escape sequence"
              l.advance.currentPosition), l.advance)
        | some e =>
            readStringLoop start quote fuel (value ++ [Lexer.unescape e]) l.advance.advance
      else readStringLoop start quote fuel (value ++ [c]) l.advance

def readString (quote : Char) (l : RawLexer) : Option (Except CqlError Token × RawLexer) :=
  (readStringLoop l.currentPosition quote l.advance.fuel [] l.advance).map fun (value, l') =>
    (value.map fun value => ⟨.string (String.ofList value), l.currentPosition⟩, l')

/-- The lexer behind a number. -/
def skipNumber (l : RawLexer) : Option RawLexer :=
  let l := if l.peek = some '-' then l.advance else l
  (l.skipWhile Char.isDigit l.fuel).bind fun l =>
    if l.peek = some '.' then l.advance.skipWhile Char.isDigit l.advance.fuel else some l

def readNumber (l : RawLexer) : Option (Token × RawLexer) :=
  l.skipNumber.bind fun l' =>
    (l'.slice l.pos l'.pos).map fun (text, l') =>
      (⟨.number ((F64.parse text).getD (.finite 0)), l.currentPosition⟩, l')

variable (U : UnicodeTables)

def readIdentifier (l : RawLexer) : Option (Token × RawLexer) :=
  (l.skipWhile (Lexer.isIdentChar U) l.fuel).bind fun l' =>
    (l'.slice l.pos l'.pos).map fun (text, l') =>
      (⟨Lexer.wordType U (String.ofList text), l.currentPosition⟩, l')

/-- Whether a number begins here: behind a sign, the two slices look one byte ahead. -/
def startsNumber (l : RawLexer) (c : Char) : Option (Bool × RawLexer) :=
  if c.isDigit then some (true, l)
  else if c = '-' then
    (l.slice l.pos (byteLength l.input)).bind fun (text, l) =>
      if 1 < byteLength text then
        (l.slice (l.pos + 1) (byteLength l.input)).map fun (text, l) =>
          (text.head?.any Char.isDigit, l)
      else some (false, l)
  else some (false, l)

/-- A token of one type, and an advance. -/
def single (start : Position) (tokenType : TokenType) (l : RawLexer) :
    Except CqlError Token × RawLexer :=
  (.ok ⟨tokenType, start⟩, l)

/-- The operators that begin with `^`. -/
def readCaret (start : Position) (l : RawLexer) : Except CqlError Token × RawLexer :=
  if l.peek = some '~' then
    if l.advance.peek = some '=' then single start .startsCi l.advance.advance
    else
      (.error (Lexer.syntaxError
        s!"Expected '=' after '^~' at line {start.line}, column {start.column}" start), l.advance)
  else if l.peek = some '=' then single start .starts l.advance
  else
    (.error (Lexer.syntaxError
      s!"Expected '=' or '~=' after '^' at line {start.line}, column {start.column}" start), l)

/-- An operator of a character and `=`. -/
def readWithEq (start : Position) (c : Char) (tokenType : TokenType) (l : RawLexer) :
    Except CqlError Token × RawLexer :=
  if l.peek = some '=' then single start tokenType l.advance
  else
    (.error (Lexer.syntaxError
      s!"Expected '=' after '{c}' at line {start.line}, column {start.column}" start), l)

/-- An operator of a character, which `=` may follow. -/
def readMaybeEq (start : Position) (withEq without : TokenType) (l : RawLexer) :
    Except CqlError Token × RawLexer :=
  if l.peek = some '=' then single start withEq l.advance else single start without l

/-- The arms of `next_token` for operators and punctuation. -/
def readSymbol (start : Position) (c : Char) (l : RawLexer) : Except CqlError Token × RawLexer :=
  if c = '(' then single start .lparen l.advance
  else if c = ')' then single start .rparen l.advance
  else if c = ',' then single start .comma l.advance
  else if c = '=' then single start .eq l.advance
  else if c = '!' then readWithEq start '!' .neq l.advance
  else if c = '^' then readCaret start l.advance
  else if c = '~' then readWithEq start '~' .eqCi l.advance
  else if c = '>' then readMaybeEq start .gte .gt l.advance
  else if c = '<' then readMaybeEq start .lte .lt l.advance
  else
    (.error (Lexer.syntaxError
      s!"Unexpected character '{c}' at line {start.line}, column {start.column}" start), l)

def nextToken (l : RawLexer) : Option (Except CqlError Token × RawLexer) :=
  l.skipWhitespace.bind fun l =>
    match l.peek with
    | none => some (single l.currentPosition .eof l)
    | some c =>
      if c = '"' ∨ c = '\'' then l.readString c
      else
        (l.startsNumber c).bind fun (isNumber, l) =>
          if isNumber then l.readNumber.map fun (t, l) => (.ok t, l)
          else if U.isAlphabetic c ∨ c = '_' then
            (l.readIdentifier U).map fun (t, l) => (.ok t, l)
          else some (readSymbol l.currentPosition c l)

/-- The loop of `tokenize`. -/
def tokenizeLoop : ℕ → RawLexer → Option (Except CqlError (List Token) × RawLexer)
  | 0, _ => none
  | fuel + 1, l =>
    (l.nextToken U).bind fun (token, l) =>
      match token with
      | .error e => some (.error e, l)
      | .ok token =>
        if token.tokenType = .eof then some (.ok [token], l)
        else (tokenizeLoop fuel l).map fun (tokens, l) => (tokens.map (token :: ·), l)

def tokenize (l : RawLexer) : Option (Except CqlError (List Token) × RawLexer) :=
  tokenizeLoop U l.fuel l

/-! ### Sound states -/

/-- The characters that are left. -/
def rest (l : RawLexer) : List Char := l.chars.map Prod.snd

/-- What `Lexer` has of the state. -/
def lexer (l : RawLexer) : Lexer := { rest := l.rest, position := l.currentPosition }

/-- **The two places are the same**, between characters, and they always were; and what has been
sliced was between characters and in order. -/
structure Sound (l : RawLexer) : Prop where
  place : ∃ read, l.input = read ++ l.rest ∧ l.pos = byteLength read ∧
    l.chars = charIndices (byteLength read) l.rest
  stands : ∀ x ∈ l.stands, x.1 = x.2 ∧ IsCharBoundary l.input x.1
  slices : ∀ x ∈ l.slices, x.1 ≤ x.2 ∧ x.2 ≤ byteLength l.input ∧
    IsCharBoundary l.input x.1 ∧ IsCharBoundary l.input x.2

/-- A sound state, of which `Lexer` has this. -/
structure Sees (input : List Char) (l : RawLexer) (m : Lexer) : Prop where
  sound : l.Sound
  input_eq : l.input = input
  lexer_eq : l.lexer = m

variable {U} {input : List Char} {l l' : RawLexer} {m m' : Lexer}

theorem nextOffset_charIndices (read rest : List Char) :
    nextOffset (read ++ rest) (charIndices (byteLength read) rest) = byteLength read := by
  cases rest with
  | nil => rw [List.append_nil]; rfl
  | cons c rest => rfl

theorem Sound.new (input : String) : (new input).Sound where
  place := ⟨[], by simp [RawLexer.new, rest, map_snd_charIndices, byteLength]⟩
  stands x hx := by
    obtain rfl := List.mem_singleton.mp hx
    exact ⟨rfl, isCharBoundary_append [] input.toList⟩
  slices x hx := by cases hx

theorem sees_new (input : String) : (new input).Sees input.toList (.new input) where
  sound := .new input
  input_eq := rfl
  lexer_eq := by simp [lexer, rest, new, Lexer.new, map_snd_charIndices, currentPosition]

theorem Sees.peek (h : l.Sees input m) : l.peek = m.peek := by
  rw [← h.lexer_eq, RawLexer.peek, Lexer.peek, lexer, rest, List.head?_map]

theorem Sees.position (h : l.Sees input m) : l.currentPosition = m.position := by
  rw [← h.lexer_eq]
  rfl

theorem Sees.length (h : l.Sees input m) : l.chars.length = m.rest.length := by
  rw [← h.lexer_eq, lexer, rest, List.length_map]

/-- **An advance keeps the two places the same.** -/
theorem Sees.advance (h : l.Sees input m) : l.advance.Sees input m.advance := by
  obtain ⟨⟨⟨read, hinput, hpos, hchars⟩, hstands, hslices⟩, rfl, rfl⟩ := h
  cases hrest : l.rest with
  | nil =>
      rw [hrest, charIndices] at hchars
      have hstay : l.advance = l := by rw [RawLexer.advance, hchars]
      have hstay' : l.lexer.advance = l.lexer := by rw [Lexer.advance, lexer, hrest]
      rw [hstay, hstay']
      exact ⟨⟨⟨read, hinput, hpos, by rw [hchars, hrest]; rfl⟩, hstands, hslices⟩, rfl, rfl⟩
  | cons c rest =>
      rw [hrest, charIndices] at hchars
      rw [hrest] at hinput
      have hread : byteLength read + c.utf8Size = byteLength (read ++ [c]) := by
        rw [byteLength_append, byteLength_cons]
        rfl
      have hinput' : l.input = (read ++ [c]) ++ rest := by simp [hinput]
      have hleft : l.advance.rest = rest := by
        rw [RawLexer.advance, hchars]
        exact map_snd_charIndices _ _
      refine ⟨⟨⟨read ++ [c], ?_, ?_, ?_⟩, ?_, ?_⟩, ?_, ?_⟩
      · rw [hleft, ← hinput', RawLexer.advance, hchars]
      · rw [RawLexer.advance, hchars]
        exact hread
      · rw [hleft, RawLexer.advance, hchars, hread]
      · rw [RawLexer.advance, hchars]
        intro x hx
        rcases List.mem_append.mp hx with hx | hx
        · exact hstands x hx
        · obtain rfl := List.mem_singleton.mp hx
          simp only [hinput', hread]
          exact ⟨(nextOffset_charIndices _ _).symm, isCharBoundary_append _ _⟩
      · rw [RawLexer.advance, hchars]
        exact hslices
      · rw [RawLexer.advance, hchars]
      · have hnext : l.currentPosition.next c = l.advance.currentPosition := by
          simp only [RawLexer.advance, hchars, currentPosition, Position.next, hpos]
          split <;> rfl
        rw [Lexer.advance, lexer, lexer, hleft, hrest]
        dsimp only
        rw [hnext]

/-- A slice from where the lexer stood to where it stands. -/
theorem Sees.slice (h : l.Sees input m) (h' : l'.Sees input m') (hsuffix : m'.rest <:+ m.rest) :
    ∃ l'', l'.slice l.pos l'.pos = some (m.slice m', l'') ∧ l''.Sees input m' := by
  obtain ⟨⟨⟨read, hinput, hpos, -⟩, -, -⟩, rfl, rfl⟩ := h
  obtain ⟨⟨⟨read', hinput', hpos', hchars'⟩, hstands', hslices'⟩, heq, rfl⟩ := h'
  obtain ⟨taken, htaken⟩ := hsuffix
  change taken ++ l'.rest = l.rest at htaken
  have hread : read' = read ++ taken := by
    have hsplit : read' ++ l'.rest = read ++ taken ++ l'.rest := by
      rw [← hinput', heq, hinput, ← htaken, List.append_assoc]
    exact List.append_cancel_right hsplit
  have hslice : sliceOf l'.input l.pos l'.pos = some taken := by
    rw [heq, hinput, ← htaken, hpos, hpos', hread]
    exact sliceOf_append _ _ _
  have htext : l.lexer.slice l'.lexer = taken := by
    change l.rest.take (l.rest.length - l'.rest.length) = taken
    rw [← htaken, List.length_append, Nat.add_sub_cancel, List.take_left]
  refine ⟨{ l' with slices := l'.slices ++ [(l.pos, l'.pos)] }, ?_, ?_, heq, rfl⟩
  · rw [RawLexer.slice, hslice, htext]
    rfl
  · refine ⟨⟨read', hinput', hpos', hchars'⟩, hstands', fun x hx => ?_⟩
    rcases List.mem_append.mp hx with hx | hx
    · exact hslices' x hx
    · obtain rfl := List.mem_singleton.mp hx
      have hbound := hslice
      rw [sliceOf] at hbound
      split_ifs at hbound with hok
      refine ⟨hok.1, ?_, hok.2.1, hok.2.2⟩
      simp only [hpos', hinput', byteLength_append]
      exact Nat.le_add_right _ _

/-! ### The functions of the lexer -/

theorem skipWhile_step (p : Char → Bool) (m : Lexer) :
    m.skipWhile p = if m.peek.any p then m.advance.skipWhile p else m := by
  obtain ⟨rest, position⟩ := m
  cases rest with
  | nil => rfl
  | cons c rest =>
      have hpeek : (Lexer.mk (c :: rest) position).peek = some c := rfl
      rw [hpeek, Option.any_some]
      by_cases hc : p c = true
      · rw [if_pos hc, Lexer.skipWhile, Lexer.skipWhile, Lexer.advance]
        simp only [List.dropWhile_cons_of_pos hc, List.takeWhile_cons_of_pos hc, List.foldl_cons]
      · rw [if_neg hc, Lexer.skipWhile]
        simp only [List.dropWhile_cons_of_neg hc, List.takeWhile_cons_of_neg hc, List.foldl_nil]

/-- A loop over characters comes to an end. -/
theorem Sees.skipWhile (h : l.Sees input m) (p : Char → Bool) {fuel : ℕ}
    (hfuel : m.rest.length < fuel) :
    ∃ l', l.skipWhile p fuel = some l' ∧ l'.Sees input (m.skipWhile p) := by
  induction fuel generalizing l m with
  | zero => omega
  | succ fuel ih =>
      rw [RawLexer.skipWhile, skipWhile_step, h.peek]
      cases hpeek : m.peek with
      | none => exact ⟨l, rfl, h⟩
      | some c =>
          simp only [Option.any_some]
          split
          · have hlt := Lexer.length_advance hpeek
            exact ih h.advance (by omega)
          · exact ⟨l, rfl, h⟩

theorem Sees.skipWhile_fuel (h : l.Sees input m) (p : Char → Bool) :
    ∃ l', l.skipWhile p l.fuel = some l' ∧ l'.Sees input (m.skipWhile p) :=
  h.skipWhile p (h.length ▸ Nat.lt_succ_self _)

/-- A result without a panic, which is the one that `Lexer` has. -/
def Refines (input : List Char) {α : Type} (result : Option (Except CqlError α × RawLexer))
    (expected : Except CqlError (α × Lexer)) : Prop :=
  ∃ r l', result = some (r, l') ∧ l'.Sound ∧ l'.input = input ∧ r = expected.map Prod.fst ∧
    ∀ a m, expected = .ok (a, m) → l'.lexer = m

theorem Sees.refines_ok {α : Type} (h : l.Sees input m) (a : α) :
    Refines input (some (.ok a, l)) (.ok (a, m)) := by
  refine ⟨.ok a, l, rfl, h.sound, h.input_eq, rfl, fun a' m' heq => ?_⟩
  exact h.lexer_eq.trans (Prod.mk.inj (Except.ok.inj heq)).2

theorem Sees.refines_error {α : Type} (h : l.Sees input m) (e : CqlError) :
    Refines input (some ((.error e : Except CqlError α), l)) (.error e) :=
  ⟨.error e, l, rfl, h.sound, h.input_eq, rfl, fun _ _ heq => by cases heq⟩

/-- The loop of `read_string` comes to an end. -/
theorem Sees.readStringLoop (h : l.Sees input m) (start : Position) (quote : Char) {fuel : ℕ}
    (hfuel : m.rest.length < fuel) (value : List Char) :
    Refines input (l.readStringLoop start quote fuel value)
      (Lexer.readStringLoop start quote m.rest m.position value) := by
  induction fuel generalizing l m value with
  | zero => omega
  | succ fuel ih =>
      rw [RawLexer.readStringLoop, h.peek]
      cases hpeek : m.peek with
      | none =>
          rw [List.head?_eq_none_iff.mp hpeek, Lexer.readStringLoop]
          exact h.refines_error _
      | some c =>
          obtain ⟨rest, hrest⟩ := Lexer.peek_eq_some_iff.mp hpeek
          have hadv := h.advance
          have hm : m.advance = ⟨rest, m.position.next c⟩ := by rw [Lexer.advance, hrest]
          rw [hm] at hadv
          rw [hrest, List.length_cons] at hfuel
          rw [hrest]
          dsimp only
          split
          next hquote =>
            subst hquote
            rw [Lexer.readStringLoop_quote]
            exact hadv.refines_ok value
          next hquote =>
          split
          next hslash =>
            subst hslash
            rw [hadv.peek]
            cases rest with
            | nil =>
                rw [Lexer.readStringLoop, if_neg hquote, if_pos rfl]
                have hposition := hadv.position
                simp only at hposition
                simp only [Lexer.peek, List.head?_nil, hposition]
                exact hadv.refines_error _
            | cons e rest =>
                rw [Lexer.readStringLoop_escape hquote]
                simp only [Lexer.peek, List.head?_cons]
                exact ih hadv.advance (by simp only [Lexer.advance]; simp at hfuel; omega) _
          next hslash =>
            rw [Lexer.readStringLoop_char hquote hslash]
            exact ih hadv (by simp only; omega) _

theorem Sees.readString (h : l.Sees input m) (quote : Char) :
    Refines input (l.readString quote) (m.readString quote) := by
  have hlt : m.advance.rest.length < l.advance.fuel := by
    rw [RawLexer.fuel, h.advance.length]
    exact Nat.lt_succ_self _
  obtain ⟨r, l', hloop, hsound, hinput, hr, hl'⟩ :=
    h.advance.readStringLoop m.position quote hlt []
  rw [RawLexer.readString, h.position, hloop, Lexer.readString]
  refine ⟨_, l', rfl, hsound, hinput, ?_, ?_⟩
  · rw [hr]
    cases Lexer.readStringLoop m.position quote m.advance.rest m.advance.position [] <;> rfl
  · intro t m' heq
    obtain ⟨⟨v, m''⟩, hv, hrun⟩ := bind_eq_ok.mp heq
    cases hrun
    exact hl' v _ hv

/-- The characters of a kind are left out at the front. -/
theorem suffix_skipWhile (p : Char → Bool) (m : Lexer) : (m.skipWhile p).rest <:+ m.rest :=
  List.dropWhile_suffix p

theorem suffix_advance (m : Lexer) : m.advance.rest <:+ m.rest := by
  rw [Lexer.advance]
  split
  · exact List.suffix_rfl
  next c rest hrest =>
    rw [hrest]
    exact List.suffix_cons c rest

/-- A number: a sign and digits, then a point and digits. -/
theorem skipNumber_eq (m : Lexer) : ∃ d,
    (if m.peek = some '-' then m.advance else m).skipWhile Char.isDigit = d ∧
      m.skipNumber = if d.peek = some '.' then d.advance.skipWhile Char.isDigit else d :=
  ⟨_, rfl, rfl⟩

theorem suffix_skipNumber (m : Lexer) : m.skipNumber.rest <:+ m.rest := by
  obtain ⟨d, hd, hskip⟩ := skipNumber_eq m
  have hsign : ((if m.peek = some '-' then m.advance else m).skipWhile Char.isDigit).rest <:+
      m.rest := by
    refine (suffix_skipWhile _ _).trans ?_
    split
    · exact suffix_advance m
    · exact List.suffix_rfl
  rw [hd] at hsign
  rw [hskip]
  split
  · exact (suffix_skipWhile _ _).trans ((suffix_advance _).trans hsign)
  · exact hsign

theorem Sees.skipNumber (h : l.Sees input m) :
    ∃ l', l.skipNumber = some l' ∧ l'.Sees input m.skipNumber := by
  have hsign : (if l.peek = some '-' then l.advance else l).Sees input
      (if m.peek = some '-' then m.advance else m) := by
    rw [h.peek]
    split
    · exact h.advance
    · exact h
  obtain ⟨d, hd, hskip⟩ := skipNumber_eq m
  obtain ⟨l₁, hl₁, hsees⟩ := hsign.skipWhile_fuel Char.isDigit
  rw [hd] at hsees
  rw [RawLexer.skipNumber, hskip, hl₁, Option.bind_some, hsees.peek]
  split
  · exact hsees.advance.skipWhile_fuel Char.isDigit
  · exact ⟨l₁, rfl, hsees⟩

/-- **The text of a number** is sliced without a panic. -/
theorem Sees.readNumber (h : l.Sees input m) :
    ∃ l', l.readNumber = some (m.readNumber.1, l') ∧ l'.Sees input m.readNumber.2 := by
  obtain ⟨l₁, hl₁, hsees⟩ := h.skipNumber
  obtain ⟨l₂, hslice, hsees'⟩ := h.slice hsees (suffix_skipNumber m)
  rw [RawLexer.readNumber, hl₁, Option.bind_some, hslice, h.position]
  exact ⟨l₂, rfl, hsees'⟩

/-- **The text of an identifier** is sliced without a panic. -/
theorem Sees.readIdentifier (h : l.Sees input m) :
    ∃ l', l.readIdentifier U = some ((m.readIdentifier U).1, l') ∧
      l'.Sees input (m.readIdentifier U).2 := by
  obtain ⟨l₁, hl₁, hsees⟩ := h.skipWhile_fuel (Lexer.isIdentChar U)
  obtain ⟨l₂, hslice, hsees'⟩ := h.slice hsees (suffix_skipWhile _ m)
  rw [RawLexer.readIdentifier, hl₁, Option.bind_some, hslice, h.position]
  exact ⟨l₂, rfl, hsees'⟩

/-- A slice up to the end of the input. -/
theorem Sees.slice_end (h : l.Sees input m) {start : ℕ} {taken left : List Char}
    (hrest : m.rest = taken ++ left) (hstart : start = l.pos + byteLength taken) :
    ∃ l', l.slice start (byteLength l.input) = some (left, l') ∧ l'.Sees input m := by
  obtain ⟨⟨⟨read, hinput, hpos, hchars⟩, hstands, hslices⟩, heq, rfl⟩ := h
  change l.rest = taken ++ left at hrest
  have hsplit : l.input = (read ++ taken) ++ (left ++ []) := by
    rw [hinput, hrest]
    simp
  have hslice : sliceOf l.input start (byteLength l.input) = some left := by
    rw [hstart, hpos, ← byteLength_append, hsplit]
    have := sliceOf_append (read ++ taken) left []
    rwa [List.append_nil] at this ⊢
  refine ⟨{ l with slices := l.slices ++ [(start, byteLength l.input)] }, ?_, ?_, heq, rfl⟩
  · rw [RawLexer.slice, hslice]
    rfl
  · refine ⟨⟨read, hinput, hpos, hchars⟩, hstands, fun x hx => ?_⟩
    rcases List.mem_append.mp hx with hx | hx
    · exact hslices x hx
    · obtain rfl := List.mem_singleton.mp hx
      rw [sliceOf] at hslice
      split_ifs at hslice with hok
      exact ⟨hok.1, le_rfl, hok.2.1, hok.2.2⟩

/-- **The two slices behind a sign** are taken without a panic. -/
theorem Sees.startsNumber (h : l.Sees input m) {c : Char} (hpeek : m.peek = some c) :
    ∃ l', l.startsNumber c = some (m.startsNumber c, l') ∧ l'.Sees input m := by
  obtain ⟨rest, hrest⟩ := Lexer.peek_eq_some_iff.mp hpeek
  have hnext : m.advance.peek = rest.head? := by rw [Lexer.advance, hrest]; rfl
  rw [RawLexer.startsNumber, Lexer.startsNumber, hnext]
  by_cases hdigit : c.isDigit = true
  · rw [if_pos hdigit]
    exact ⟨l, by simp [hdigit], h⟩
  rw [if_neg hdigit]
  by_cases hsign : c = '-'
  · subst hsign
    obtain ⟨l₁, hl₁, hsees⟩ := h.slice_end (List.nil_append m.rest).symm (Nat.add_zero _).symm
    have hsize : byteLength ('-' :: rest) = 1 + byteLength rest := byteLength_cons _ _
    rw [if_pos rfl, hl₁, Option.bind_some, hrest]
    simp only [hsize]
    split
    next hlong =>
      have hsplit : m.rest = ['-'] ++ rest := hrest
      obtain ⟨l₂, hl₂, hsees'⟩ := hsees.slice_end hsplit rfl
      exact ⟨l₂, congrArg (Option.map _) hl₂, hsees'⟩
    next hshort =>
      have hnil : rest = [] := by
        cases rest with
        | nil => rfl
        | cons c rest =>
            have hpos := c.utf8Size_pos
            rw [byteLength_cons] at hshort
            omega
      exact ⟨l₁, by rw [hnil]; rfl, hsees⟩
  · rw [if_neg hsign]
    exact ⟨l, by simp [hdigit, hsign], h⟩

/-- The same with a result that is no failure of a slice. -/
abbrev SymbolRefines (input : List Char) (result : Except CqlError Token × RawLexer)
    (expected : Except CqlError (Token × Lexer)) : Prop :=
  Refines input (some result) expected

theorem Sees.single (h : l.Sees input m) (start : Position) (tokenType : TokenType) :
    SymbolRefines input (l.single start tokenType) (.ok (m.single start tokenType)) :=
  h.refines_ok _

theorem Sees.readWithEq (h : l.Sees input m) (start : Position) (c : Char)
    (tokenType : TokenType) :
    SymbolRefines input (l.readWithEq start c tokenType) (m.readWithEq start c tokenType) := by
  rw [RawLexer.readWithEq, Lexer.readWithEq, h.peek]
  split
  · exact h.advance.single start tokenType
  · exact h.refines_error _

theorem Sees.readMaybeEq (h : l.Sees input m) (start : Position)
    (withEq without : TokenType) :
    SymbolRefines input (l.readMaybeEq start withEq without)
      (.ok (m.readMaybeEq start withEq without)) := by
  rw [RawLexer.readMaybeEq, Lexer.readMaybeEq, h.peek]
  split
  · exact h.advance.single start withEq
  · exact h.single start without

theorem Sees.readCaret (h : l.Sees input m) (start : Position) :
    SymbolRefines input (l.readCaret start) (m.readCaret start) := by
  rw [RawLexer.readCaret, Lexer.readCaret, h.peek, h.advance.peek]
  split
  · split
    · exact h.advance.advance.single start .startsCi
    · exact h.advance.refines_error _
  · split
    · exact h.advance.single start .starts
    · exact h.refines_error _

theorem Sees.readSymbol (h : l.Sees input m) (start : Position) (c : Char) :
    SymbolRefines input (l.readSymbol start c) (m.readSymbol start c) := by
  rw [RawLexer.readSymbol, Lexer.readSymbol]
  have hadv := h.advance
  split
  · exact hadv.single start .lparen
  split
  · exact hadv.single start .rparen
  split
  · exact hadv.single start .comma
  split
  · exact hadv.single start .eq
  split
  · exact hadv.readWithEq start '!' .neq
  split
  · exact hadv.readCaret start
  split
  · exact hadv.readWithEq start '~' .eqCi
  split
  · exact hadv.readMaybeEq start .gte .gt
  split
  · exact hadv.readMaybeEq start .lte .lt
  · exact h.refines_error _

/-- **The next token**, without a panic. -/
theorem Sees.nextToken (h : l.Sees input m) :
    Refines input (l.nextToken U) (m.nextToken U) := by
  obtain ⟨l₁, hl₁, hsees⟩ := h.skipWhile_fuel UnicodeTables.isWhitespace
  change l.skipWhitespace = some l₁ at hl₁
  change l₁.Sees input m.skipWhitespace at hsees
  rw [RawLexer.nextToken, hl₁, Option.bind_some, hsees.peek, Lexer.nextToken]
  generalize m.skipWhitespace = m₁ at hsees
  cases hpeek : m₁.peek with
  | none =>
      rw [hsees.position]
      exact hsees.single _ .eof
  | some c =>
      dsimp only
      split
      · exact hsees.readString c
      obtain ⟨l₂, hl₂, hsees'⟩ := hsees.startsNumber hpeek
      rw [hl₂, Option.bind_some]
      dsimp only
      split
      · obtain ⟨l₃, hl₃, hsees''⟩ := hsees'.readNumber
        rw [hl₃]
        exact hsees''.refines_ok _
      split
      · obtain ⟨l₃, hl₃, hsees''⟩ := hsees'.readIdentifier (U := U)
        rw [hl₃]
        exact hsees''.refines_ok _
      · rw [hsees'.position]
        exact hsees'.readSymbol _ c

theorem refines_tokenizeLoop (h : l.Sees input m) {fuel : ℕ} (hfuel : m.rest.length < fuel) :
    ∃ l', l.tokenizeLoop U fuel = some (Lexer.tokenizeLoop U fuel m, l') ∧ l'.Sound ∧
      l'.input = input := by
  induction fuel generalizing l m with
  | zero => omega
  | succ fuel ih =>
      obtain ⟨r, l₁, hl₁, hsound, hinput, hr, hlexer⟩ := h.nextToken (U := U)
      rw [RawLexer.tokenizeLoop, hl₁, Option.bind_some, Lexer.tokenizeLoop]
      cases hnext : m.nextToken U with
      | error e =>
          rw [hnext] at hr
          rw [hr]
          exact ⟨l₁, rfl, hsound, hinput⟩
      | ok result =>
          obtain ⟨t, m₁⟩ := result
          rw [hnext] at hr
          rw [hr, ok_bind]
          simp only [Except.map]
          split
          · exact ⟨l₁, rfl, hsound, hinput⟩
          next hne =>
            have hlt := Lexer.nextToken_length_lt hnext hne
            obtain ⟨l₂, hl₂, hsound', hinput'⟩ :=
              ih ⟨hsound, hinput, hlexer t m₁ hnext⟩ (by omega)
            rw [hl₂]
            refine ⟨l₂, ?_, hsound', hinput'⟩
            cases Lexer.tokenizeLoop U fuel m₁ <;> rfl

/-- **The tokens of an input**, without a panic. -/
theorem tokenize_refines (U : UnicodeTables) (input : String) :
    ∃ l', (new input).tokenize U = some ((Lexer.new input).tokenize U, l') ∧ l'.Sound ∧
      l'.input = input.toList := by
  have hlength : (new input).chars.length = (Lexer.new input).rest.length :=
    (sees_new input).length
  rw [RawLexer.tokenize, Lexer.tokenize, RawLexer.fuel, hlength]
  exact refines_tokenizeLoop (sees_new input) (Nat.lt_succ_self _)

end RawLexer

end Cxdb
