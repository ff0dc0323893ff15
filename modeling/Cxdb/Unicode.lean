import Mathlib.Data.Char
import Mathlib.Data.List.Basic

/-!
# Unicode Tables

The properties and case mappings of characters that the query language looks up. The
tables are those of the Unicode standard as the languages' libraries have them; they are
a parameter, and what is relied on is what they say of ASCII (`UnicodeTables.Lawful`).

## Main results

* `UnicodeTables.ascii_lawful`: the tables cut down to ASCII are lawful.
-/

/-- Character properties and case mappings. -/
structure UnicodeTables where
  /-- `char::is_alphabetic`. -/
  isAlphabetic : Char → Bool
  /-- `char::is_numeric`. -/
  isNumeric : Char → Bool
  /-- The class `\d` of regular expressions: general category Nd. -/
  isDecimal : Char → Bool
  /-- `str::to_uppercase`. -/
  toUppercase : String → String
  /-- `str::to_lowercase`. -/
  toLowercase : String → String

namespace UnicodeTables

/-- `char::is_alphanumeric`. -/
def isAlphanumeric (U : UnicodeTables) (c : Char) : Bool := U.isAlphabetic c || U.isNumeric c

/-- `char::is_whitespace`: the characters with the property White_Space. -/
def isWhitespace (c : Char) : Bool :=
  ('\t' ≤ c ∧ c ≤ '\r') || c = ' ' || c = '\u0085' || c = '\u00a0' || c = '\u1680' ||
    ('\u2000' ≤ c ∧ c ≤ '\u200a') || c = '\u2028' || c = '\u2029' || c = '\u202f' ||
    c = '\u205f' || c = '\u3000'

/-- What the tables say of ASCII. -/
structure Lawful (U : UnicodeTables) : Prop where
  isAlphabetic : ∀ c : Char, c.toNat < 128 → U.isAlphabetic c = c.isAlpha
  isNumeric : ∀ c : Char, c.toNat < 128 → U.isNumeric c = c.isDigit
  isDecimal : ∀ c : Char, c.toNat < 128 → U.isDecimal c = c.isDigit
  toUppercase : ∀ s : String, (∀ c ∈ s.toList, c.toNat < 128) →
    U.toUppercase s = String.ofList (s.toList.map Char.toUpper)
  toLowercase : ∀ s : String, (∀ c ∈ s.toList, c.toNat < 128) →
    U.toLowercase s = String.ofList (s.toList.map Char.toLower)

/-- The tables cut down to ASCII. -/
def ascii : UnicodeTables where
  isAlphabetic := Char.isAlpha
  isNumeric := Char.isDigit
  isDecimal := Char.isDigit
  toUppercase s := String.ofList (s.toList.map Char.toUpper)
  toLowercase s := String.ofList (s.toList.map Char.toLower)

theorem ascii_lawful : ascii.Lawful where
  isAlphabetic _ _ := rfl
  isNumeric _ _ := rfl
  isDecimal _ _ := rfl
  toUppercase _ _ := rfl
  toLowercase _ _ := rfl

/-- A digit is no blank and no quote. -/
theorem not_blank_of_isDigit {c : Char} (h : c.isDigit = true) :
    isWhitespace c = false ∧ ¬(c = '"' ∨ c = '\'') := by
  have hlt : c.toNat < 58 := by
    simp only [Char.isDigit, Bool.and_eq_true, decide_eq_true_eq, UInt32.le_iff_toNat_le] at h
    exact Nat.lt_succ_of_le h.2
  have htable : ∀ n < 58, (Char.ofNat n).isDigit = true →
      isWhitespace (Char.ofNat n) = false ∧
        ¬(Char.ofNat n = '"' ∨ Char.ofNat n = '\'') := by decide
  have := htable c.toNat hlt
  rw [Char.ofNat_toNat] at this
  exact this h

end UnicodeTables
