import Cxdb.JoinedOperands
import Cxdb.UiParser
import Mathlib.Data.List.DropRight

/-!
# Keyword Fallback

`buildFallbackQuery` of `frontend/lib/cql/index.ts`: what is typed into the search field and is
no query becomes one, which looks for it in every field of text. Quotes in the term are escaped,
and nothing else is; both lexers take a backslash for an escape, and the one of the frontend takes
U+0000 for the end of its input.

## Main results

* `fallback_well_formed`: both parsers accept the query and find the term in it, exactly if the
  term has no backslash and no U+0000.
-/

open Precedence (Derives ReadsAs ReadsSeparator Level bind_eq_ok ok_bind)

namespace Cxdb

/-! ### The query -/

/-- `replace(/"/g, '\\"')`. -/
def escapeQuotes (s : List Char) : List Char :=
  s.flatMap fun c => if c = '"' then ['\\', '"'] else [c]

namespace Ui

/-- `trim`. -/
def trim (s : List Char) : List Char := (s.dropWhile isSpace).rdropWhile isSpace

/-- `/^\d+$/` of the trimmed term. -/
def isNumeric (term : List Char) : Bool := trim term ≠ [] && (trim term).all Char.isDigit

/-- A comparison with an escaped string. -/
def stringClause (operator : List Char) (escaped : List Char) (field : String) : List Char :=
  field.toList ++ ' ' :: operator ++ ' ' :: '"' :: escaped ++ ['"']

/-- The comparison with an identifier. -/
def idClause (digits : List Char) : List Char := "id = ".toList ++ digits

def prefixFields : List String := ["tag", "title", "user", "service", "host"]

/-- The clauses for a term. -/
def fallbackClauses (term : List Char) : List (List Char) :=
  let escaped := escapeQuotes term
  let clauses := prefixFields.map (stringClause ['^', '~', '='] escaped)
  let clauses := if isNumeric term then idClause (trim term) :: clauses else clauses
  clauses ++ [stringClause ['='] escaped "label"]

/-- `buildFallbackQuery`. -/
def buildFallbackQuery (term : String) : String :=
  String.ofList ([' ', 'O', 'R', ' '].intercalate (fallbackClauses term.toList))

end Ui

/-! ### String literals of an expression -/

/-- The string that a value was written as. -/
def Value.text : Value → Option String
  | .string s | .date s _ => some s
  | .number _ | .list _ => none

/-- The strings that a value was written with; lists do not nest. -/
def Value.literals : Value → List String
  | .list vs => vs.filterMap Value.text
  | v => v.text.toList

def Expression.literals : Expression → List String
  | .and left right | .or left right => left.literals ++ right.literals
  | .not inner => inner.literals
  | .comparison _ _ value => value.literals

/-! ### Escaped terms are read -/

section Escapes

variable {start position : Position} {value v y T : List Char}

/-- A character other than a quote is not escaped. -/
theorem escapeQuotes_cons {c : Char} (hc : c ≠ '"') (s : List Char) :
    escapeQuotes (c :: s) = c :: escapeQuotes s := by
  rw [escapeQuotes, List.flatMap_cons, if_neg hc]
  rfl

theorem escapeQuotes_quote (s : List Char) :
    escapeQuotes ('"' :: s) = '\\' :: '"' :: escapeQuotes s := rfl

/-- The server reads an escaped term without backslashes. -/
theorem Lexer.readStringLoop_escapeQuotes (hy : '\\' ∉ y) :
    ∃ position', Lexer.readStringLoop start '"' (escapeQuotes y ++ '"' :: T) position value =
      .ok (value ++ y, { rest := T, position := position' }) := by
  induction y generalizing position value with
  | nil => exact ⟨_, by rw [List.append_nil]; exact Lexer.readStringLoop_quote⟩
  | cons c y ih =>
      obtain ⟨hc, hy'⟩ := not_or.mp (List.mem_cons.not.mp hy)
      rw [List.append_cons value c y]
      by_cases hquote : c = '"'
      · subst hquote
        rw [escapeQuotes_quote, List.cons_append, List.cons_append,
          Lexer.readStringLoop_escape (by decide)]
        exact ih hy'
      · rw [escapeQuotes_cons hquote, List.cons_append,
          Lexer.readStringLoop_char hquote (Ne.symm hc)]
        exact ih hy'

/-- The frontend reads an escaped term without backslashes and U+0000. -/
theorem Ui.Lexer.readStringLoop_escapeQuotes (hy : '\\' ∉ y) (h0 : '\x00' ∉ y) :
    ∃ position', Ui.Lexer.readStringLoop start '"' (escapeQuotes y ++ '"' :: T) position value =
      .ok (value ++ y, { rest := T, position := position' }) := by
  induction y generalizing position value with
  | nil => exact ⟨_, by rw [List.append_nil]; exact Ui.Lexer.readStringLoop_quote (by decide)⟩
  | cons c y ih =>
      obtain ⟨hc, hy'⟩ := not_or.mp (List.mem_cons.not.mp hy)
      obtain ⟨hc0, h0'⟩ := not_or.mp (List.mem_cons.not.mp h0)
      rw [List.append_cons value c y]
      by_cases hquote : c = '"'
      · subst hquote
        rw [escapeQuotes_quote, List.cons_append, List.cons_append,
          Ui.Lexer.readStringLoop_escape (by decide)]
        exact ih hy' h0'
      · rw [escapeQuotes_cons hquote, List.cons_append,
          Ui.Lexer.readStringLoop_char (Ne.symm hc0) hquote (Ne.symm hc)]
        exact ih hy' h0'

/-- The frontend does not read past U+0000. -/
theorem Ui.Lexer.readStringLoop_nul_of_mem (hy : '\\' ∉ y) (h0 : '\x00' ∈ y) :
    Ui.Lexer.readStringLoop start '"' (escapeQuotes y ++ '"' :: T) position value =
      .error (Ui.Lexer.unterminated start) := by
  induction y generalizing position value with
  | nil => cases h0
  | cons c y ih =>
      obtain ⟨hc, hy'⟩ := not_or.mp (List.mem_cons.not.mp hy)
      by_cases hquote : c = '"'
      · subst hquote
        rw [escapeQuotes_quote, List.cons_append, List.cons_append,
          Ui.Lexer.readStringLoop_escape (by decide)]
        exact ih hy' ((List.mem_cons.mp h0).resolve_left (by decide))
      · rw [escapeQuotes_cons hquote, List.cons_append]
        by_cases hnul : c = '\x00'
        · subst hnul
          exact Ui.Lexer.readStringLoop_nul
        · rw [Ui.Lexer.readStringLoop_char hnul hquote (Ne.symm hc)]
          exact ih hy' ((List.mem_cons.mp h0).resolve_left (Ne.symm hnul))

/-- What has been read of a string is the beginning of it. -/
theorem Lexer.readStringLoop_prefix {l' : Lexer} {cs : List Char}
    (h : Lexer.readStringLoop start '"' cs position value = .ok (v, l')) :
    ∃ w, v = value ++ w := by
  induction cs, position, value using Lexer.readStringLoop.induct '"' with
  | case1 => cases h
  | case2 rest position value =>
      rw [Lexer.readStringLoop_quote] at h
      cases h
      exact ⟨[], (List.append_nil _).symm⟩
  | case3 position value hq =>
      rw [Lexer.readStringLoop, if_neg hq, if_pos rfl] at h
      cases h
  | case4 position value c rest hq ih =>
      rw [Lexer.readStringLoop_escape hq] at h
      obtain ⟨w, rfl⟩ := ih h
      exact ⟨_, List.append_assoc _ _ _⟩
  | case5 c rest position value hq hb ih =>
      rw [Lexer.readStringLoop_char hq hb] at h
      obtain ⟨w, rfl⟩ := ih h
      exact ⟨_, List.append_assoc _ _ _⟩

theorem replicate_append_cons {α : Type} (k : ℕ) (a : α) (s : List α) :
    List.replicate k a ++ a :: s = a :: (List.replicate k a ++ s) := by
  induction k with
  | zero => rfl
  | succ k ih => rw [List.replicate_succ, List.cons_append, ih, List.cons_append]

/-- A backslash of the term is never read as one: what is read differs from the term, and from the
term with backslashes before it. -/
theorem Lexer.readStringLoop_backslash {l' : Lexer}
    (h : Lexer.readStringLoop start '"' (escapeQuotes y ++ '"' :: T) position value =
      .ok (v, l')) :
    ∃ w, v = value ++ w ∧
      ∀ k, 0 < k ∨ '\\' ∈ y → w ≠ List.replicate k '\\' ++ y := by
  -- Two characters at a time, since a backslash takes the next character with it.
  induction hn : y.length using Nat.strong_induction_on generalizing y position value with
  | _ n ih =>
  -- A character that is read as itself.
  have hself : ∀ c y' position', c ≠ '\\' → y = c :: y' →
      Lexer.readStringLoop start '"' (escapeQuotes y' ++ '"' :: T) position' (value ++ [c]) =
        .ok (v, l') →
      ∃ w, v = value ++ w ∧ ∀ k, 0 < k ∨ '\\' ∈ y → w ≠ List.replicate k '\\' ++ y := by
    rintro c y' position' hc rfl hrun
    obtain ⟨w, rfl, hw⟩ := ih y'.length (by simp [← hn]) hrun rfl
    refine ⟨c :: w, by simp, ?_⟩
    intro k hk heq
    cases k with
    | zero =>
        have hmem : '\\' ∈ y' := by simpa [Ne.symm hc] using hk
        exact hw 0 (Or.inr hmem) (by simpa using heq)
    | succ k => exact hc (by simpa [List.replicate_succ] using (List.cons.inj heq).1)
  -- A backslash that makes another character of the next one.
  have hother : ∀ c w y', c ≠ '\\' → y = '\\' :: y' → v = value ++ c :: w →
      ∃ w, v = value ++ w ∧ ∀ k, 0 < k ∨ '\\' ∈ y → w ≠ List.replicate k '\\' ++ y := by
    rintro c w y' hc rfl rfl
    refine ⟨c :: w, rfl, fun k _ heq => hc ?_⟩
    rw [replicate_append_cons] at heq
    exact (List.cons.inj heq).1
  rcases y with _ | ⟨c, y⟩
  · change Lexer.readStringLoop start '"' ('"' :: T) position value = _ at h
    rw [Lexer.readStringLoop_quote] at h
    cases h
    refine ⟨[], (List.append_nil _).symm, fun k hk heq => ?_⟩
    have hpos : 0 < k := hk.resolve_right (List.not_mem_nil)
    have := congrArg List.length heq
    simp at this
    omega
  by_cases hb : c = '\\'
  case neg =>
    by_cases hquote : c = '"'
    · subst hquote
      rw [escapeQuotes_quote, List.cons_append, List.cons_append,
        Lexer.readStringLoop_escape (by decide)] at h
      exact hself _ y _ hb rfl h
    · rw [escapeQuotes_cons hquote, List.cons_append, Lexer.readStringLoop_char hquote hb] at h
      exact hself c y _ hb rfl h
  subst hb
  rw [escapeQuotes_cons (by decide), List.cons_append] at h
  rcases y with _ | ⟨d, y⟩
  · -- The quote at the end is escaped.
    change Lexer.readStringLoop start '"' ('\\' :: '"' :: T) position value = _ at h
    rw [Lexer.readStringLoop_escape (by decide)] at h
    obtain ⟨w, rfl⟩ := Lexer.readStringLoop_prefix h
    exact hother '"' w [] (by decide) rfl (by simp [Lexer.unescape])
  by_cases hquote : d = '"'
  · -- The backslash escapes that of the quote, which ends the string.
    subst hquote
    rw [escapeQuotes_quote, List.cons_append, List.cons_append,
      Lexer.readStringLoop_escape (by decide), Lexer.readStringLoop_quote] at h
    cases h
    refine ⟨['\\'], rfl, fun k _ heq => ?_⟩
    have := congrArg List.length heq
    simp at this
    omega
  rw [escapeQuotes_cons hquote, List.cons_append, Lexer.readStringLoop_escape (by decide)] at h
  obtain ⟨w, rfl, hw⟩ := ih y.length (by simp only [← hn, List.length_cons]; omega) h rfl
  by_cases hb : d = '\\'
  · subst hb
    refine ⟨'\\' :: w, by simp [Lexer.unescape], fun k _ heq => ?_⟩
    rw [replicate_append_cons, replicate_append_cons] at heq
    exact hw (k + 1) (Or.inl k.succ_pos) (by simpa [List.replicate_succ] using heq)
  · refine hother (Lexer.unescape d) w (d :: y) ?_ rfl (by simp)
    rw [Lexer.unescape]
    split_ifs
    · decide
    · decide
    · decide
    · exact hb

end Escapes

/-! ### The expression of a term -/

/-- What the clauses for a term say, where `value` is the term, and `number` its number if it has
one. -/
def fallbackExpressions (value : Value) (number : Option F64) : List Expression :=
  number.toList.map (fun n => .comparison "id" .eq (.number n)) ++
    (Ui.prefixFields.map fun f => .comparison f .startsCi value) ++ [.comparison "label" .eq value]

/-- Clause by clause. -/
theorem forall₂_fallbackClauses {R : List Char → Expression → Prop} {term : List Char}
    {value : Value} {number : Option F64} (hnumber : number.isSome = Ui.isNumeric term)
    (hid : ∀ n, number = some n →
      R (Ui.idClause (Ui.trim term)) (.comparison "id" .eq (.number n)))
    (hnames : ∀ f ∈ Ui.prefixFields,
      R (Ui.stringClause ['^', '~', '='] (escapeQuotes term) f) (.comparison f .startsCi value))
    (hlabel : R (Ui.stringClause ['='] (escapeQuotes term) "label")
      (.comparison "label" .eq value)) :
    List.Forall₂ R (Ui.fallbackClauses term) (fallbackExpressions value number) := by
  have hfields : List.Forall₂ R
      (Ui.prefixFields.map (Ui.stringClause ['^', '~', '='] (escapeQuotes term)))
      (Ui.prefixFields.map fun f => .comparison f .startsCi value) := by
    rw [List.forall₂_map_left_iff, List.forall₂_map_right_iff]
    exact List.forall₂_same.mpr hnames
  have hfront : List.Forall₂ R
      (if Ui.isNumeric term then Ui.idClause (Ui.trim term) ::
        Ui.prefixFields.map (Ui.stringClause ['^', '~', '='] (escapeQuotes term))
      else Ui.prefixFields.map (Ui.stringClause ['^', '~', '='] (escapeQuotes term)))
      (number.toList.map (fun n => .comparison "id" .eq (.number n)) ++
        Ui.prefixFields.map fun f => .comparison f .startsCi value) := by
    cases number with
    | none =>
        rw [← hnumber]
        exact hfields
    | some n =>
        rw [← hnumber]
        exact .cons (hid n rfl) hfields
  exact List.rel_append hfront (.cons hlabel .nil)

/-- Every string of the clauses is the term. -/
theorem literals_fallbackExpressions {value : Value} {number : Option F64} {e : Expression}
    (h : e ∈ fallbackExpressions value number) : ∀ s ∈ e.literals, s ∈ value.literals := by
  simp only [fallbackExpressions, List.mem_append, List.mem_map, List.mem_singleton] at h
  rcases h with (⟨n, -, rfl⟩ | ⟨f, -, rfl⟩) | rfl
  · rintro s ⟨⟩
  · exact fun s hs => hs
  · exact fun s hs => hs

theorem mem_literals_foldl_or {es : List Expression} {e : Expression} {s : String}
    (h : s ∈ (es.foldl Expression.or e).literals) : ∃ e' ∈ e :: es, s ∈ e'.literals := by
  induction es generalizing e with
  | nil => exact ⟨e, List.mem_cons_self, h⟩
  | cons e₁ es ih =>
      obtain ⟨e', he', hs⟩ := ih h
      rcases List.mem_cons.mp he' with rfl | he'
      · rcases List.mem_append.mp hs with hs | hs
        · exact ⟨e, by simp, hs⟩
        · exact ⟨e₁, by simp, hs⟩
      · exact ⟨e', by simp [he'], hs⟩

/-! ### The clauses, read by the frontend -/

/-- Digits that a number is read from. -/
theorem exists_parse_digits {digits : List Char} (hne : digits ≠ [])
    (h : ∀ c ∈ digits, c.isDigit = true) : ∃ n, F64.parse digits = some n := by
  obtain ⟨c, cs, rfl⟩ := List.exists_cons_of_ne_nil hne
  have hc : c ≠ '-' := by
    rintro rfl
    exact absurd (h _ List.mem_cons_self) (by decide)
  have hall : F64.parseUnsigned (c :: cs) = some (F64.digitsValue (c :: cs)) := by
    obtain ⟨htake, hdrop⟩ := @F64.takeWhile_isDigit (c :: cs) [] h (by simp)
    rw [List.append_nil] at htake hdrop
    rw [F64.parseUnsigned, htake, hdrop]
    rfl
  refine ⟨F64.ofRat (F64.digitsValue (c :: cs)), ?_⟩
  rw [F64.parse, hall]
  · rfl
  · rintro s ⟨⟩
    exact hc rfl

namespace Ui

/-- The texts that the lexer reads as comparisons. -/
abbrev ReadsComparison (s : List Char) (e : Expression) : Prop :=
  ReadsAs Lexer.nextToken (·.tokenType = .eof) Lexer.rest IsComparison s e

/-- The name of a field is a word, and no keyword. -/
theorem word_asStr (f : FieldName) :
    (∃ c w, f.asStr.toList = c :: w ∧ isWordStart c = true ∧ ∀ d ∈ w, isWordChar d = true) ∧
      keywordType f.asStr = none := by
  cases f <;>
    exact ⟨⟨_, _, rfl, by decide, List.all_eq_true.mp (by decide)⟩, by decide⟩

/-- The name of a field before a blank. -/
theorem Lexer.nextToken_asStr {l : Lexer} {blank rest : List Char} {f : FieldName}
    (hblank : blank = [] ∨ blank = [' ']) (hl : l.rest = blank ++ (f.asStr.toList ++ ' ' :: rest)) :
    ∃ token l', l.nextToken = .ok (token, l') ∧ l'.rest = ' ' :: rest ∧
      token.tokenType = .ident ∧ token.value = f.asStr := by
  obtain ⟨⟨c, w, hw, hc, hword⟩, hkey⟩ := word_asStr f
  have hname : String.ofList (c :: w) = f.asStr := by rw [← hw, String.ofList_toList]
  rw [hw, List.cons_append] at hl
  obtain ⟨token, l', hrun, hrest, htype, hvalue⟩ :=
    nextToken_word hblank hl hc hword (by simp; decide)
  rw [hname, hkey] at htype hvalue
  exact ⟨token, l', hrun, hrest, htype, hvalue rfl⟩

/-- The operator behind a blank. -/
def ReadsOperator (op : List Char) (ty : TokenType) : Prop :=
  ∀ (l : Lexer) (rest : List Char), l.rest = [' '] ++ (op ++ rest) →
    ∃ token l', l.nextToken = .ok (token, l') ∧ l'.rest = rest ∧ token.tokenType = ty

theorem readsStartsCi : ReadsOperator ['^', '~', '='] .startsCi :=
  fun _ _ hl => Lexer.nextToken_startsCi (Or.inr rfl) hl

theorem readsEq : ReadsOperator ['='] .eq := fun _ _ hl => Lexer.nextToken_eq (Or.inr rfl) hl

/-- A comparison of a field of text with the term. -/
theorem readsComparison_stringClause {f : FieldName} {operator : Operator} {ty : TokenType}
    {op term : List Char} (htype : fieldType f = .string) (hmem : operator ∈ fieldOperators f)
    (hne : operator ≠ .inList) (hty : operatorOf ty = some operator)
    (hop : ReadsOperator op ty) (hb : '\\' ∉ term) (h0 : '\x00' ∉ term) :
    ReadsComparison (stringClause op (escapeQuotes term) f.asStr)
      (.comparison f.asStr operator (.string (String.ofList term))) := by
  intro l blank rest hblank hl _
  obtain ⟨n, l₁, hn, hl₁, hntype, hnvalue⟩ := @Lexer.nextToken_asStr l blank
    (op ++ ' ' :: '"' :: (escapeQuotes term ++ '"' :: rest)) f hblank
    (by rw [hl]; simp [stringClause])
  obtain ⟨o, l₂, ho, hl₂, hotype⟩ := hop l₁ (' ' :: '"' :: (escapeQuotes term ++ '"' :: rest)) hl₁
  obtain ⟨t, l₃, ht, hl₃, httype, htvalue⟩ := @Lexer.nextToken_string l₂ rest [' '] term
    (escapeQuotes term ++ ['"']) (Or.inr rfl) (by rw [hl₂]; simp)
    (fun start position => by
      simpa using @Lexer.readStringLoop_escapeQuotes start position [] term rest hb h0)
  have hne_eof : ∀ {t : Token} {ty' : TokenType}, t.tokenType = ty' → ty' ≠ .eof →
      ¬ t.tokenType = .eof := fun h h' => h ▸ h'
  refine ⟨[n, o, t], l₃, .cons hn (hne_eof hntype (by decide)) (.cons ho ?_
    (.single ht (hne_eof httype (by decide)))), hl₃, ?_⟩
  · exact hne_eof hotype (ne_eof_of_operatorOf hty)
  · have hv : IsValue (fieldType f) t (.string (String.ofList term)) := by
      rw [← htvalue]
      exact .string httype (by rw [htype]; decide)
    rw [← hnvalue]
    exact .value hntype (by rw [hnvalue, FieldName.fromStr_asStr]) (by rw [hotype, hty]) hmem hne hv

/-- The comparison with an identifier. -/
theorem readsComparison_idClause {digits : List Char} {n : F64} (hne : digits ≠ [])
    (hdigits : ∀ c ∈ digits, c.isDigit = true) (hn : F64.parse digits = some n) :
    ReadsComparison (idClause digits) (.comparison "id" .eq (.number n)) := by
  intro l blank rest hblank hl hrest
  obtain ⟨i, l₁, hi, hl₁, hitype, hivalue⟩ := @Lexer.nextToken_asStr l blank
    ('=' :: ' ' :: (digits ++ rest)) .id hblank (by rw [hl]; simp [idClause, FieldName.asStr])
  obtain ⟨o, l₂, ho, hl₂, hotype⟩ := @Lexer.nextToken_eq l₁ (' ' :: (digits ++ rest)) [' ']
    (Or.inr rfl) hl₁
  obtain ⟨c, w, rfl⟩ := List.exists_cons_of_ne_nil hne
  obtain ⟨t, l₃, ht, hl₃, httype, htvalue⟩ := @Lexer.nextToken_digits l₂ c rest w [' ']
    (Or.inr rfl) hl₂ hdigits (fun d hd => by rw [hrest d hd]; decide)
  refine ⟨[i, o, t], l₃, .cons hi (by rw [hitype]; decide) (.cons ho (by rw [hotype]; decide)
    (.single ht (by rw [httype]; decide))), hl₃, ?_⟩
  change i.value = "id" at hivalue
  rw [← hivalue]
  refine .value hitype (by rw [hivalue]; rfl) (by rw [hotype]; rfl) (by decide) (by decide)
    (.number httype ?_ : IsValue (fieldType .id) t _)
  rw [htvalue, String.toList_ofList, hn]

/-- `OR` between two clauses. -/
theorem readsSeparator : ReadsSeparator Lexer.nextToken (·.tokenType = .eof) Lexer.rest
    queryLanguage [' ', 'O', 'R', ' '] := by
  refine ⟨⟨_, rfl⟩, fun l rest hl => ?_⟩
  obtain ⟨t, l', ht, hl', htype, -⟩ := @Lexer.nextToken_word l 'O' (' ' :: rest) ['R'] [' ']
    (Or.inr rfl) hl (by decide) (List.forall_mem_singleton.mpr (by decide)) (by simp; decide)
  have htype' : t.tokenType = .or := htype
  exact ⟨t, l', ht, by simp [htype'], congrArg TokenType.kind htype', hl'⟩

theorem Lexer.nextToken_nil {l : Lexer} (h : l.rest = []) :
    ∃ token l', l.nextToken = .ok (token, l') ∧ token.tokenType = .eof := by
  have hskip : l.skipWhitespace.rest = [] := by
    rw [skipWhitespace, skipWhile, h]
    rfl
  refine ⟨{ tokenType := .eof, value := "", position := l.skipWhitespace.position },
    l.skipWhitespace, ?_, rfl⟩
  rw [nextToken, hskip]
  rfl

/-- A term of blanks and digits only has no other character. -/
theorem not_isNumeric {term : List Char} {c : Char} (hc : c ∈ term) (hspace : isSpace c = false)
    (hdigit : c.isDigit = false) : isNumeric term = false := by
  have hleft : c ∈ term.dropWhile isSpace := by
    rw [← List.takeWhile_append_dropWhile (p := isSpace) (l := term)] at hc
    refine (List.mem_append.mp hc).resolve_left fun htake => ?_
    rw [List.mem_takeWhile_imp htake] at hspace
    cases hspace
  have hboth : c ∈ trim term := by
    rw [trim, List.rdropWhile, List.mem_reverse]
    rw [← List.mem_reverse, ← List.takeWhile_append_dropWhile (p := isSpace)
      (l := (term.dropWhile isSpace).reverse)] at hleft
    refine (List.mem_append.mp hleft).resolve_left fun htake => ?_
    rw [List.mem_takeWhile_imp htake] at hspace
    cases hspace
  rw [isNumeric, Bool.and_eq_false_iff, List.all_eq_false]
  exact Or.inr ⟨c, hboth, by simp [hdigit]⟩

/-- The query of a term that is no number begins with the first of the prefix fields. -/
theorem exists_toList_eq {term : String} (h : isNumeric term.toList = false) :
    ∃ T, (buildFallbackQuery term).toList =
      FieldName.tag.asStr.toList ++ ' ' :: (['^', '~', '='] ++
        ' ' :: '"' :: (escapeQuotes term.toList ++ '"' :: T)) := by
  rw [buildFallbackQuery, String.toList_ofList, fallbackClauses, h, if_neg (by decide),
    prefixFields, List.map_cons, List.cons_append, Precedence.intercalate_eq]
  generalize List.flatMap _ _ = T
  exact ⟨T, by simp [stringClause, FieldName.asStr]⟩

/-- The fields that are searched for a prefix. -/
theorem exists_of_mem_prefixFields {field : String} (h : field ∈ prefixFields) :
    ∃ f : FieldName, field = f.asStr ∧ fieldType f = .string ∧ .startsCi ∈ fieldOperators f := by
  simp only [prefixFields, List.mem_cons, List.not_mem_nil, or_false] at h
  rcases h with rfl | rfl | rfl | rfl | rfl
  · exact ⟨.tag, rfl, rfl, by decide⟩
  · exact ⟨.title, rfl, rfl, by decide⟩
  · exact ⟨.user, rfl, rfl, by decide⟩
  · exact ⟨.service, rfl, rfl, by decide⟩
  · exact ⟨.host, rfl, rfl, by decide⟩

/-- The number that a term of digits is. -/
theorem exists_number (term : List Char) : ∃ number : Option F64,
    number.isSome = isNumeric term ∧ ∀ n, number = some n → trim term ≠ [] ∧
      (∀ c ∈ trim term, c.isDigit = true) ∧ F64.parse (trim term) = some n := by
  by_cases h : isNumeric term = true
  · have h' := h
    rw [isNumeric, Bool.and_eq_true, decide_eq_true_eq, List.all_eq_true] at h'
    obtain ⟨n, hn⟩ := exists_parse_digits h'.1 h'.2
    exact ⟨some n, h.symm, fun m hm => ⟨h'.1, h'.2, hn.trans hm⟩⟩
  · exact ⟨none, (Bool.eq_false_of_not_eq_true h).symm, nofun⟩

/-- **The frontend's parser** finds nothing but the term in the query. -/
theorem parse_buildFallbackQuery {term : String} (hb : '\\' ∉ term.toList)
    (h0 : '\x00' ∉ term.toList) :
    ∃ q, parse (buildFallbackQuery term) = .ok q ∧ ∀ s ∈ q.ast.literals, s = term := by
  obtain ⟨number, hnumber, hdigits⟩ := exists_number term.toList
  have hclauses : List.Forall₂ ReadsComparison (fallbackClauses term.toList)
      (fallbackExpressions (.string term) number) := by
    refine forall₂_fallbackClauses hnumber (fun n hn => ?_) (fun f hf => ?_) ?_
    · obtain ⟨hne, hall, hparse⟩ := hdigits n hn
      exact readsComparison_idClause hne hall hparse
    · obtain ⟨field, rfl, htype, hmem⟩ := exists_of_mem_prefixFields hf
      have hclause := @readsComparison_stringClause field .startsCi .startsCi _ term.toList htype
        hmem (by decide) rfl readsStartsCi hb h0
      rwa [String.ofList_toList] at hclause
    · have hclause := @readsComparison_stringClause .label .eq .eq _ term.toList rfl (by decide)
        (by decide) rfl readsEq hb h0
      rwa [String.ofList_toList] at hclause
  have hrest : (Lexer.new (buildFallbackQuery term)).rest =
      [' ', 'O', 'R', ' '].intercalate (fallbackClauses term.toList) := by
    rw [Lexer.new, buildFallbackQuery, String.toList_ofList]
  obtain ⟨ts, l, e, es, hes, hreads, hl, hd⟩ := Precedence.reads_intercalate readsSeparator
    hclauses (by simp [fallbackClauses]) hrest
  obtain ⟨t, l', ht, hend⟩ := Lexer.nextToken_nil hl
  refine ⟨{ raw := buildFallbackQuery term, ast := es.foldl .or e },
    parse_eq_ok_iff.mpr ⟨rfl, ts, t, l, l', hreads, ht, hend, hd⟩, fun s hs => ?_⟩
  obtain ⟨e', he', hs⟩ := mem_literals_foldl_or hs
  rw [← hes] at he'
  exact List.mem_singleton.mp (literals_fallbackExpressions he' s hs)

end Ui

/-! ### The clauses, read by the server -/

section Server

variable {U : UnicodeTables}

/-- The tokens of an input, in order. -/
theorem Lexer.tokenizeLoop_eq_run (fuel : ℕ) (l : Lexer) :
    Lexer.tokenizeLoop U fuel l =
      TokenStreams.run (Lexer.nextToken U) (·.tokenType = .eof) fuel l := by
  induction fuel generalizing l with
  | zero => rfl
  | succ fuel ih =>
      rw [Lexer.tokenizeLoop, TokenStreams.run]
      cases hnext : l.nextToken U with
      | error => rfl
      | ok r =>
          obtain ⟨t, l'⟩ := r
          rw [ok_bind]
          dsimp only
          rw [ih]
          by_cases heof : t.tokenType = .eof
          · rw [if_pos heof, if_pos heof]
            rfl
          · rw [if_neg heof, if_neg heof]
            cases TokenStreams.run (Lexer.nextToken U) (·.tokenType = .eof) fuel l' <;> rfl

theorem Lexer.tokenize_eq_ok_iff {l : Lexer} {tokens : List Token} :
    l.tokenize U = .ok tokens ↔ ∃ ts e l' l'', tokens = ts ++ [e] ∧
      TokenStreams.Reads (Lexer.nextToken U) (·.tokenType = .eof) l ts l' ∧
      l'.nextToken U = .ok (e, l'') ∧ e.tokenType = .eof := by
  rw [Lexer.tokenize, Lexer.tokenizeLoop_eq_run]
  exact @TokenStreams.run_eq_ok_iff _ _ _ (Lexer.nextToken U) (·.tokenType = .eof) l _
    (·.rest.length) Lexer.nextToken_length_lt _ (Nat.lt_succ_self _) tokens

variable (U) in
/-- The texts that the lexer reads as comparisons. -/
abbrev ReadsComparison (s : List Char) (e : Expression) : Prop :=
  ReadsAs (Lexer.nextToken U) (·.tokenType = .eof) Lexer.rest
    (fun ts e => IsComparison U (ts.map (·.tokenType)) e) s e

variable (U) in
/-- The value of a string: a date if it has the form of one. -/
def stringValue (s : String) : Value :=
  if (relativePattern U s).isSome then .date s true else .string s

theorem isValue_stringValue (s : String) : IsValue U (.string s) (stringValue U s) := by
  rw [stringValue]
  cases h : relativePattern U s with
  | none => exact .string h
  | some => exact .date h

theorem literals_stringValue (s : String) : (stringValue U s).literals = [s] := by
  rw [stringValue]
  split <;> rfl

/-- A quote begins a string literal. -/
theorem Lexer.nextToken_quote {l : Lexer} {cs : List Char} (hl : l.rest = [' '] ++ '"' :: cs) :
    ∃ start position, l.nextToken U =
      (Lexer.readStringLoop start '"' cs position []).map fun (v, l') =>
        Lexer.single start (.string (String.ofList v)) l' := by
  have hskip := Lexer.skipWhitespace_blank (Or.inr rfl) hl (by simp; decide)
  generalize hm : l.skipWhitespace = m at hskip
  have hadv : m.advance.rest = cs := by rw [Lexer.advance, hskip]
  refine ⟨m.position, m.advance.position, ?_⟩
  rw [Lexer.nextToken, hm, Lexer.peek, hskip, List.head?_cons]
  dsimp only
  rw [if_pos (Or.inl rfl), Lexer.readString, hadv]
  rfl

/-- A string literal with an escaped term. -/
theorem Lexer.nextToken_escapeQuotes {l : Lexer} {term rest : List Char} (hb : '\\' ∉ term)
    (hl : l.rest = [' '] ++ '"' :: (escapeQuotes term ++ '"' :: rest)) :
    ∃ token l', l.nextToken U = .ok (token, l') ∧ l'.rest = rest ∧
      token.tokenType = .string (String.ofList term) := by
  obtain ⟨start, position, hnext⟩ := @Lexer.nextToken_quote U l _ hl
  obtain ⟨position', hrun⟩ := @Lexer.readStringLoop_escapeQuotes start position [] term rest hb
  rw [hrun] at hnext
  exact ⟨_, _, hnext, rfl, rfl⟩

theorem Lexer.nextToken_nil {l : Lexer} (h : l.rest = []) :
    ∃ token l', l.nextToken U = .ok (token, l') ∧ token.tokenType = .eof := by
  have hskip : l.skipWhitespace.rest = [] := by
    rw [Lexer.skipWhitespace, Lexer.skipWhile, h]
    rfl
  refine ⟨{ tokenType := .eof, position := l.skipWhitespace.position }, l.skipWhitespace, ?_, rfl⟩
  rw [Lexer.nextToken, Lexer.peek, hskip]
  rfl

variable (hU : U.Lawful)
include hU

/-- The name of a field and an operator behind it. -/
theorem Lexer.reads_field {l : Lexer} {blank rest : List Char} {f : FieldName} {ty : TokenType}
    (hblank : blank = [] ∨ blank = [' ']) (hty : ty = .startsCi ∨ ty = .eq)
    (hl : l.rest = blank ++ (f.asStr.toList ++ ' ' :: (ty.lexeme ++ ' ' :: rest))) :
    ∃ n o l', TokenStreams.Reads (Lexer.nextToken U) (·.tokenType = .eof) l [n, o] l' ∧
      l'.rest = ' ' :: rest ∧ n.tokenType = .ident f.asStr ∧ o.tokenType = ty := by
  have hstops : ∀ cs, Stops (' ' :: cs) := by
    intro cs c hc
    exact Or.inl (Option.some.inj hc).symm
  obtain ⟨n, l₁, hn, hntype, hl₁⟩ := nextToken_lexeme hU
    (show (TokenType.ident f.asStr).Lexable by simp [TokenType.Lexable, FieldName.fromStr_asStr])
    hblank hl (Or.inr (hstops _))
  have hlexable : ty.Lexable := by rcases hty with rfl | rfl <;> trivial
  have hne : ty ≠ .eof := by rcases hty with rfl | rfl <;> decide
  obtain ⟨o, l₂, ho, hotype, hl₂⟩ := nextToken_lexeme hU hlexable (Or.inr rfl : [' '] = [] ∨ _)
    hl₁ (Or.inr (hstops _))
  exact ⟨n, o, l₂, .cons hn (by simp [hntype]) (.single ho (by simp [hotype, hne])), hl₂, hntype,
    hotype⟩

/-- A comparison of a field with the term. -/
theorem readsComparison_stringClause {f : FieldName} {ty : TokenType} {operator : Operator}
    {term : List Char} (hty : ty = .startsCi ∧ operator = .startsCi ∨ ty = .eq ∧ operator = .eq)
    (hb : '\\' ∉ term) :
    ReadsComparison U (Ui.stringClause ty.lexeme (escapeQuotes term) f.asStr)
      (.comparison f.asStr operator (stringValue U (String.ofList term))) := by
  intro l blank rest hblank hl _
  obtain ⟨n, o, l₁, hno, hl₁, hntype, hotype⟩ := @Lexer.reads_field U hU l blank
    ('"' :: (escapeQuotes term ++ '"' :: rest)) f ty hblank (hty.imp And.left And.left)
    (by rw [hl]; simp [Ui.stringClause])
  obtain ⟨t, l₂, ht, hl₂, httype⟩ := @Lexer.nextToken_escapeQuotes U l₁ term rest hb hl₁
  refine ⟨[n, o, t], l₂, hno.append (.single ht (by simp [httype])), hl₂, ?_⟩
  simp only [List.map_cons, List.map_nil, hntype, hotype, httype]
  refine .value (FieldName.fromStr_asStr f) ?_ ?_ (isValue_stringValue _)
  · rcases hty with ⟨rfl, rfl⟩ | ⟨rfl, rfl⟩ <;> rfl
  · rcases hty with ⟨-, rfl⟩ | ⟨-, rfl⟩ <;> decide

/-- The comparison with an identifier. -/
theorem readsComparison_idClause {digits : List Char} {n : F64} (hne : digits ≠ [])
    (hdigits : ∀ c ∈ digits, c.isDigit = true) (hn : F64.parse digits = some n) :
    ReadsComparison U (Ui.idClause digits) (.comparison "id" .eq (.number n)) := by
  intro l blank rest hblank hl hrest
  obtain ⟨i, o, l₁, hio, hl₁, hitype, hotype⟩ := @Lexer.reads_field U hU l blank
    (digits ++ rest) .id .eq hblank (Or.inr rfl)
    (by rw [hl]; simp [Ui.idClause, FieldName.asStr, TokenType.lexeme])
  obtain ⟨t, l₂, ht, httype, hl₂⟩ := @nextToken_number U l₁ rest n [] digits [] [' ']
    ⟨Or.inl rfl, hne, hdigits, Or.inl rfl⟩ (Or.inr rfl) (by rw [hl₁]; simp) (by simpa using hn)
    (fun c hc => Or.inl (hrest c hc))
  refine ⟨[i, o, t], l₂, hio.append (.single ht (by simp [httype])), hl₂, ?_⟩
  simp only [List.map_cons, List.map_nil, hitype, hotype, httype]
  exact .value (FieldName.fromStr_asStr .id) rfl (by decide) .number

/-- `OR` between two clauses. -/
theorem readsSeparator : ReadsSeparator (Lexer.nextToken U) (·.tokenType = .eof) Lexer.rest
    (queryLanguage U) [' ', 'O', 'R', ' '] := by
  refine ⟨⟨_, rfl⟩, fun l rest hl => ?_⟩
  obtain ⟨t, l', ht, htype, hl'⟩ := @nextToken_lexeme U hU l (' ' :: rest) .or [' '] trivial
    (Or.inr rfl) hl (Or.inr fun c hc => Or.inl (Option.some.inj hc).symm)
  exact ⟨t, l', ht, by simp [htype], congrArg TokenType.kind htype, hl'⟩

/-- **The server's parser** finds nothing but the term in the query. -/
theorem parse_buildFallbackQuery {term : String} (hb : '\\' ∉ term.toList) :
    ∃ q, parse U (Ui.buildFallbackQuery term) = .ok q ∧ ∀ s ∈ q.ast.literals, s = term := by
  obtain ⟨number, hnumber, hdigits⟩ := Ui.exists_number term.toList
  have hclauses : List.Forall₂ (ReadsComparison U) (Ui.fallbackClauses term.toList)
      (fallbackExpressions (stringValue U term) number) := by
    refine forall₂_fallbackClauses hnumber (fun n hn => ?_) (fun f hf => ?_) ?_
    · obtain ⟨hne, hall, hparse⟩ := hdigits n hn
      exact readsComparison_idClause hU hne hall hparse
    · obtain ⟨field, rfl, -⟩ := Ui.exists_of_mem_prefixFields hf
      have hclause := @readsComparison_stringClause U hU field .startsCi .startsCi term.toList
        (Or.inl ⟨rfl, rfl⟩) hb
      rwa [String.ofList_toList] at hclause
    · have hclause := @readsComparison_stringClause U hU .label .eq .eq term.toList
        (Or.inr ⟨rfl, rfl⟩) hb
      rwa [String.ofList_toList] at hclause
  have hrest : (Lexer.new (Ui.buildFallbackQuery term)).rest =
      [' ', 'O', 'R', ' '].intercalate (Ui.fallbackClauses term.toList) := by
    rw [Lexer.new, Ui.buildFallbackQuery, String.toList_ofList]
  obtain ⟨ts, l, e, es, hes, hreads, hl, hd⟩ := Precedence.reads_intercalate (readsSeparator hU)
    hclauses (by simp [Ui.fallbackClauses]) hrest
  obtain ⟨t, l', ht, hend⟩ := @Lexer.nextToken_nil U l hl
  refine ⟨{ raw := Ui.buildFallbackQuery term, ast := es.foldl .or e }, parse_eq_ok_iff.mpr
    ⟨rfl, ts, t, Lexer.tokenize_eq_ok_iff.mpr ⟨ts, t, l, l', rfl, hreads, ht, hend⟩, hend, hd⟩,
    fun s hs => ?_⟩
  obtain ⟨e', he', hs⟩ := mem_literals_foldl_or hs
  rw [← hes] at he'
  have hmem := literals_fallbackExpressions he' s hs
  rw [literals_stringValue] at hmem
  exact List.mem_singleton.mp hmem

/-! ### Terms that are not found -/

omit hU in
/-- A value keeps the string that it was written as. -/
theorem IsValue.mem_literals {t : TokenType} {v : Value} {s : String} (h : IsValue U t v)
    (ht : t = .string s) : v.text = some s ∧ s ∈ v.literals := by
  subst ht
  cases h with
  | string => exact ⟨rfl, List.mem_singleton_self s⟩
  | date => exact ⟨rfl, List.mem_singleton_self s⟩

omit hU in
theorem IsValues.mem_literals {ts : List TokenType} {vs : List Value} {s : String}
    (h : IsValues U ts vs) (hs : .string s ∈ ts) : s ∈ vs.filterMap Value.text := by
  induction h with
  | one h => exact List.mem_filterMap.mpr ⟨_, List.mem_singleton_self _,
      (h.mem_literals (List.mem_singleton.mp hs).symm).1⟩
  | more h _ ih =>
      rcases List.mem_cons.mp hs with ht | hs
      · exact List.mem_filterMap.mpr ⟨_, List.mem_cons_self, (h.mem_literals ht.symm).1⟩
      · obtain ⟨v, hv, htext⟩ :=
          List.mem_filterMap.mp (ih ((List.mem_cons.mp hs).resolve_left (by simp)))
        exact List.mem_filterMap.mpr ⟨v, List.mem_cons_of_mem _ hv, htext⟩

omit hU in
theorem IsComparison.mem_literals {ts : List TokenType} {e : Expression} {s : String}
    (h : IsComparison U ts e) (hs : .string s ∈ ts) : s ∈ e.literals := by
  cases h with
  | @value name f o t operator v _ hop _ hv =>
      have ho : o ≠ .string s := by
        rintro rfl
        cases hop
      have ht : t = .string s := by simpa [Ne.symm ho, eq_comm] using hs
      exact (hv.mem_literals ht).2
  | @inList name f ts vs _ hvs =>
      exact hvs.mem_literals (by simpa using hs)

omit hU in
/-- Every string token of a query is kept in its tree. -/
theorem mem_literals_of_derives {level : Level} {ts : List Token} {e : Expression}
    (h : Derives (queryLanguage U) (fun ts e => IsComparison U (ts.map (·.tokenType)) e) level ts e)
    {t : Token} (ht : t ∈ ts) {s : String} (hs : t.tokenType = .string s) : s ∈ e.literals := by
  have hkind : ∀ {u : Token} {k : Precedence.Kind}, u.tokenType.kind = k → k ≠ .other → t ≠ u := by
    rintro u k hu hk rfl
    rw [hs] at hu
    exact hk hu.symm
  induction h with
  | orOne _ ih | andOne _ ih | unaryOne _ ih => exact ih ht
  | orMore _ hk _ ihl ihr | andMore _ hk _ ihl ihr =>
      rcases List.mem_append.mp ht with ht | ht
      · exact List.mem_append_left _ (ihl ht)
      · exact List.mem_append_right _
          (ihr ((List.mem_cons.mp ht).resolve_left (hkind hk (by decide))))
  | unaryNot hk _ ih => exact ih ((List.mem_cons.mp ht).resolve_left (hkind hk (by decide)))
  | operand h => exact h.mem_literals (hs ▸ List.mem_map_of_mem ht)
  | paren ho _ hc ih =>
      rw [List.mem_append, List.mem_cons, List.mem_singleton] at ht
      rcases ht with (rfl | ht) | rfl
      · exact absurd rfl (hkind ho (by decide))
      · exact ih ht
      · exact absurd rfl (hkind hc (by decide))

/-- A term with a backslash is not found in what the server reads. -/
theorem exists_literal_ne {term : String} {q : CqlQuery} (hb : '\\' ∈ term.toList)
    (h : parse U (Ui.buildFallbackQuery term) = .ok q) : ∃ s ∈ q.ast.literals, s ≠ term := by
  obtain ⟨T, hT⟩ := Ui.exists_toList_eq (Ui.not_isNumeric hb (by decide) (by decide))
  obtain ⟨n, o, l₁, hno, hl₁, -⟩ := @Lexer.reads_field U hU
    (Lexer.new (Ui.buildFallbackQuery term)) []
    ('"' :: (escapeQuotes term.toList ++ '"' :: T)) .tag .startsCi (Or.inl rfl) (Or.inl rfl)
    (by rw [Lexer.new, hT]; rfl)
  obtain ⟨-, ts, e, htokens, he, hd⟩ := parse_eq_ok_iff.mp h
  obtain ⟨ts', e', l, l', heq, hreads, hlast, -⟩ := Lexer.tokenize_eq_ok_iff.mp htokens
  obtain ⟨rfl, rfl⟩ : ts = ts' ∧ e = e' := by simpa using heq
  obtain ⟨vs, rfl, hvs⟩ := hno.of_prefix hreads hlast he
  -- The first string is read from the escaped term.
  obtain ⟨start, position, hnext⟩ := @Lexer.nextToken_quote U l₁ _ hl₁
  have hstring : ∀ t m, l₁.nextToken U = .ok (t, m) →
      ∃ w, t.tokenType = .string (String.ofList w) ∧ w ≠ term.toList := by
    intro t m ht
    rw [hnext] at ht
    cases hloop : Lexer.readStringLoop start '"' (escapeQuotes term.toList ++ '"' :: T) position
        [] with
    | error =>
        rw [hloop] at ht
        cases ht
    | ok r =>
        obtain ⟨v, m'⟩ := r
        obtain ⟨w, rfl, hw⟩ := Lexer.readStringLoop_backslash hloop
        rw [hloop] at ht
        cases ht
        exact ⟨v, rfl, hw 0 (Or.inr hb)⟩
  cases hvs with
  | nil =>
      obtain ⟨w, hw, -⟩ := hstring _ _ hlast
      rw [hw] at he
      cases he
  | @cons _ _ _ t vs hfirst _ _ =>
      obtain ⟨w, hw, hne⟩ := hstring _ _ hfirst
      refine ⟨String.ofList w, mem_literals_of_derives hd (by simp) hw, ?_⟩
      rintro rfl
      exact hne String.toList_ofList.symm

end Server

/-- A term with U+0000 and without backslashes is an unterminated string for the frontend. -/
theorem Ui.parse_ne_ok {term : String} (hb : '\\' ∉ term.toList) (h0 : '\x00' ∈ term.toList)
    (q : CqlQuery) : Ui.parse (Ui.buildFallbackQuery term) ≠ .ok q := by
  obtain ⟨T, hT⟩ := Ui.exists_toList_eq (Ui.not_isNumeric h0 (by decide) (by decide))
  obtain ⟨n, l₁, hn, hl₁, hntype, -⟩ := @Ui.Lexer.nextToken_asStr
    (Ui.Lexer.new (Ui.buildFallbackQuery term)) []
    (['^', '~', '='] ++ ' ' :: '"' :: (escapeQuotes term.toList ++ '"' :: T)) .tag (Or.inl rfl)
    (by rw [Ui.Lexer.new, hT]; rfl)
  obtain ⟨o, l₂, ho, hl₂, hotype⟩ := Ui.readsStartsCi l₁ _ hl₁
  have hreads : Ui.Lexer.Reads (Ui.Lexer.new (Ui.buildFallbackQuery term)) [n, o] l₂ :=
    .cons hn (by rw [hntype]; decide) (.single ho (by rw [hotype]; decide))
  have herr : ∃ err, l₂.nextToken = .error err := by
    have hskip := Ui.Lexer.skipWhitespace_blank (Or.inr rfl)
      (hl₂ : l₂.rest = [' '] ++ '"' :: _) (by decide)
    generalize hm : l₂.skipWhitespace = m at hskip
    refine ⟨Ui.Lexer.unterminated m.position, ?_⟩
    rw [Ui.Lexer.nextToken_cons hm hskip, if_pos (Or.inl rfl), Ui.Lexer.readString,
      Ui.Lexer.advance_rest hskip, Ui.Lexer.readStringLoop_nul_of_mem hb h0]
    rfl
  obtain ⟨err, herr⟩ := herr
  intro hparse
  rw [Ui.parse] at hparse
  obtain ⟨tokens, htokens, -⟩ := bind_eq_ok.mp hparse
  exact @TokenStreams.Reads.run_ne_ok _ _ _ Ui.Lexer.nextToken (·.tokenType = .eof) _ _ _ _
    (·.rest.length) Ui.Lexer.length_lt_of_nextToken hreads err herr _ (Nat.lt_succ_self _)
    tokens htokens

/-- **The keyword fallback.** For every term, the fallback query is accepted by the parser of the
frontend and by that of the server with nothing but the term for a string in the expression, if and
only if the term has no backslash and no U+0000. -/
theorem fallback_well_formed {U : UnicodeTables} (hU : U.Lawful) (term : String) :
    ((∃ q, Ui.parse (Ui.buildFallbackQuery term) = .ok q ∧ ∀ s ∈ q.ast.literals, s = term) ∧
      ∃ q, parse U (Ui.buildFallbackQuery term) = .ok q ∧ ∀ s ∈ q.ast.literals, s = term) ↔
    '\\' ∉ term.toList ∧ '\x00' ∉ term.toList := by
  constructor
  · rintro ⟨⟨q, hq, -⟩, q', hq', hterm⟩
    have hb : '\\' ∉ term.toList := by
      intro hb
      obtain ⟨s, hs, hne⟩ := exists_literal_ne hU hb hq'
      exact hne (hterm s hs)
    exact ⟨hb, fun h0 => Ui.parse_ne_ok hb h0 q hq⟩
  · rintro ⟨hb, h0⟩
    exact ⟨Ui.parse_buildFallbackQuery hb h0, parse_buildFallbackQuery hU hb⟩

set_option maxRecDepth 2000 in
theorem fallback_well_formed_quoted :
    (∃ q, Ui.parse (Ui.buildFallbackQuery "say \"7\"\n") = .ok q ∧
        ∀ s ∈ q.ast.literals, s = "say \"7\"\n") ∧
      ∃ q, parse .ascii (Ui.buildFallbackQuery "say \"7\"\n") = .ok q ∧
        ∀ s ∈ q.ast.literals, s = "say \"7\"\n" :=
  (fallback_well_formed UnicodeTables.ascii_lawful "say \"7\"\n").mpr
    ⟨by decide, by decide⟩

/-- Both parsers find `ab` in the query for `a\b`, and not the term. -/
theorem fallback_drops_backslash :
    (Ui.parse (Ui.buildFallbackQuery "a\\b")).toOption.map (·.ast.literals) =
        some (List.replicate 6 "ab") ∧
      (parse .ascii (Ui.buildFallbackQuery "a\\b")).toOption.map (·.ast.literals) =
        some (List.replicate 6 "ab") ∧
      ¬ ∀ term : String, term ≠ "" →
        (∃ q, Ui.parse (Ui.buildFallbackQuery term) = .ok q ∧ ∀ s ∈ q.ast.literals, s = term) ∧
          ∃ q, parse .ascii (Ui.buildFallbackQuery term) = .ok q ∧
            ∀ s ∈ q.ast.literals, s = term := by
  refine ⟨by decide +kernel, by decide +kernel, fun h => ?_⟩
  obtain ⟨-, q, hq, hterm⟩ := h "a\\b" (by decide)
  obtain ⟨s, hs, hne⟩ :=
    exists_literal_ne UnicodeTables.ascii_lawful (by decide : '\\' ∈ "a\\b".toList) hq
  exact hne (hterm s hs)

end Cxdb
