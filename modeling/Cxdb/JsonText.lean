import Cxdb.Decimal

/-!
# JSON Texts

The text that `serde_json` writes for a value, without any white space. A string is written
with escapes for quotes, backslashes and control characters and otherwise as it is, so a
text has no control characters, whatever the strings inside. The keys of an object are
sorted.

## Main results

* `Value.text_printable`: a text has no control characters.
* `Value.text_object`: the text of an object stands in braces.
-/

namespace JsonText

/-- A value, as far as the events of the server need it. -/
inductive Value where
  | bool (b : Bool)
  | number (n : ℕ)
  | string (s : String)
  | array (items : List Value)
  | object (fields : List (String × Value))

/-! ### Objects -/

/-- `Map::insert` on the fields in the order of their keys. -/
def insertField (key : String) (v : Value) : List (String × Value) → List (String × Value)
  | [] => [(key, v)]
  | field :: fields =>
      if key < field.1 then (key, v) :: field :: fields
      else if key = field.1 then (key, v) :: fields
      else field :: insertField key v fields

/-- The object with these fields, of which a later one replaces an earlier one. -/
def Value.ofFields (fields : List (String × Value)) : Value :=
  .object (fields.foldl (fun m field => insertField field.1 field.2 m) [])

/-! ### Texts -/

/-- A character of a string. -/
def escape (c : Char) : List Char :=
  if c = '"' then ['\\', '"']
  else if c = '\\' then ['\\', '\\']
  else if c = '\x08' then ['\\', 'b']
  else if c = '\x0c' then ['\\', 'f']
  else if c = '\n' then ['\\', 'n']
  else if c = '\r' then ['\\', 'r']
  else if c = '\t' then ['\\', 't']
  else if c < ' ' then
    ['\\', 'u', '0', '0', Nat.digitChar (c.toNat / 16), Nat.digitChar (c.toNat % 16)]
  else [c]

/-- A string in quotes. -/
def quoted (s : String) : List Char := '"' :: s.toList.flatMap escape ++ ['"']

mutual

/-- The text of a value. -/
def Value.text : Value → List Char
  | .bool true => "true".toList
  | .bool false => "false".toList
  | .number n => (Decimal.print n).toList
  | .string s => quoted s
  | .array items => '[' :: Value.texts items ++ [']']
  | .object fields => '\x7b' :: Value.fieldTexts fields ++ ['\x7d']

/-- The items of an array. -/
def Value.texts : List Value → List Char
  | [] => []
  | [v] => v.text
  | v :: vs => v.text ++ ',' :: Value.texts vs

/-- The fields of an object. -/
def Value.fieldTexts : List (String × Value) → List Char
  | [] => []
  | [field] => Value.fieldText field
  | field :: fields => Value.fieldText field ++ ',' :: Value.fieldTexts fields

def Value.fieldText : String × Value → List Char
  | (key, v) => quoted key ++ ':' :: v.text

end

/-! ### No control characters -/

/-- No character is a control character. -/
def Printable (cs : List Char) : Prop := ∀ c ∈ cs, ' ' ≤ c

instance (cs : List Char) : Decidable (Printable cs) :=
  List.decidableBAll (fun c => ' ' ≤ c) cs

theorem Printable.append {as bs : List Char} (ha : Printable as) (hb : Printable bs) :
    Printable (as ++ bs) := List.forall_mem_append.mpr ⟨ha, hb⟩

theorem Printable.cons {c : Char} {cs : List Char} (hc : ' ' ≤ c) (hcs : Printable cs) :
    Printable (c :: cs) := List.forall_mem_cons.mpr ⟨hc, hcs⟩

theorem Printable.singleton {c : Char} (hc : ' ' ≤ c) : Printable [c] :=
  List.forall_mem_singleton.mpr hc

theorem printable_append {s t : String} (hs : Printable s.toList) (ht : Printable t.toList) :
    Printable (s ++ t).toList := by
  rw [String.toList_append]
  exact hs.append ht

theorem digitChar_printable {n : ℕ} (h : n < 16) : ' ' ≤ Nat.digitChar n := by
  revert n
  decide

/-- An escaped character. -/
theorem escape_printable (c : Char) : Printable (escape c) := by
  rw [escape]
  iterate 7
    split
    · exact .cons (by decide) (.singleton (by decide))
  split
  next hlt =>
    have hsmall : c.toNat < 32 := hlt
    have h₁ := digitChar_printable (n := c.toNat / 16) (by omega)
    have h₂ := digitChar_printable (n := c.toNat % 16) (Nat.mod_lt _ (by decide))
    exact .cons (by decide) (.cons (by decide) (.cons (by decide) (.cons (by decide)
      (.cons h₁ (.singleton h₂)))))
  next hge => exact .singleton (Char.not_lt.mp hge)

theorem quoted_printable (s : String) : Printable (quoted s) := by
  refine .cons (by decide) (.append (fun c hc => ?_) (.singleton (by decide)))
  obtain ⟨a, -, ha⟩ := List.mem_flatMap.mp hc
  exact escape_printable a c ha

theorem print_printable (n : ℕ) : Printable (Decimal.print n).toList := by
  intro c hc
  rw [Decimal.print, String.toList_ofList] at hc
  have hdigit := F64.isDigit_of_mem_paddedDigits hc
  simp only [Char.isDigit, Bool.and_eq_true, decide_eq_true_eq] at hdigit
  exact UInt32.le_trans (by decide : ' '.val ≤ '0'.val) hdigit.1

mutual

/-- **A text has no control characters.** -/
theorem Value.text_printable : ∀ v : Value, Printable v.text
  | .bool true | .bool false => by rw [Value.text]; decide
  | .number n => print_printable n
  | .string s => quoted_printable s
  | .array items =>
      .cons (by decide) ((Value.texts_printable items).append (.singleton (by decide)))
  | .object fields =>
      .cons (by decide) ((Value.fieldTexts_printable fields).append (.singleton (by decide)))

theorem Value.texts_printable : ∀ vs : List Value, Printable (Value.texts vs)
  | [] => by simp [Value.texts, Printable]
  | [v] => v.text_printable
  | v :: v' :: vs =>
      v.text_printable.append (.cons (by decide) (Value.texts_printable (v' :: vs)))

theorem Value.fieldTexts_printable : ∀ fields, Printable (Value.fieldTexts fields)
  | [] => by simp [Value.fieldTexts, Printable]
  | [field] => Value.fieldText_printable field
  | field :: field' :: fields =>
      (Value.fieldText_printable field).append
        (.cons (by decide) (Value.fieldTexts_printable (field' :: fields)))

theorem Value.fieldText_printable : ∀ field, Printable (Value.fieldText field)
  | (key, v) => (quoted_printable key).append (.cons (by decide) v.text_printable)

end

/-- The text of an object stands in braces. -/
theorem Value.text_object (fields : List (String × Value)) :
    (Value.object fields).text = '\x7b' :: Value.fieldTexts fields ++ ['\x7d'] := rfl

end JsonText
