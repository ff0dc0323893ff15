import Mathlib.Data.List.DropRight
import Cxdb.JsonText
import Cxdb.JsonValue
import Cxdb.Session
import Cxdb.TextPieces
import Cxdb.Unicode

/-!
# Payloads of the Providers

What the two providers of `cxtx` have in common: the frames of a stream, and the texts that are
made of JSON values. Reading JSON is left to the `serde_json` crate, which is a parameter, and so
is how it writes a double.

## Main results

* `contentToText_parts`: the text of a list of parts is that of the parts, line by line.
-/

open TextPieces

namespace Cxdb

/-- What is left to `serde_json`. -/
structure SerdeJson where
  /-- `from_str`. -/
  fromStr : String → Except String JsonValue
  /-- The text of a finite double. -/
  doubleText : UInt64 → String

structure SseFrame where
  event : Option String
  data : String
  raw : String

/-- A body, as a text without invalid characters and as what it is read as. -/
structure ResponseBody where
  lossy : String
  json : Except String JsonValue

/-! ### Strings -/

def trimStart (s : String) : String :=
  String.ofList (s.toList.dropWhile UnicodeTables.isWhitespace)

def trim (s : String) : String :=
  String.ofList ((s.toList.dropWhile UnicodeTables.isWhitespace).rdropWhile
    UnicodeTables.isWhitespace)

/-! ### Reading values -/

namespace JsonValue

/-- A string field, empty when it is missing or something else. -/
def strField (v : JsonValue) (key : String) : String :=
  ((v.get key).bind asStr).getD ""

/-- The text of a field `type`. -/
def typeIs (v : JsonValue) (name : String) : Bool := (v.get "type").bind asStr = some name

theorem typeIs_inj {v : JsonValue} {s t : String} (hs : v.typeIs s) (ht : v.typeIs t) :
    s = t := by
  simp only [typeIs, decide_eq_true_eq] at hs ht
  exact Option.some.inj (hs.symm.trans ht)

/-- `get(key).unwrap_or(&Value::Null)`. -/
def fieldOrNull (v : JsonValue) (key : String) : JsonValue := (v.get key).getD .null

/-- The items of an array field. -/
def arrayField (v : JsonValue) (key : String) : Option (List JsonValue) :=
  (v.get key).bind asArray

end JsonValue

/-! ### Writing values -/

section Text

variable (serde : SerdeJson)

def numberText : JsonNumber → String
  | .posInt n => Decimal.print n.toNat
  | .negInt n => "-" ++ Decimal.print n.1.natAbs
  | .float bits => serde.doubleText bits

mutual

/-- `serde_json::to_string`. -/
def JsonValue.text : JsonValue → String
  | .null => "null"
  | .bool b => if b then "true" else "false"
  | .number n => numberText serde n
  | .string s => String.ofList (JsonText.quoted s)
  | .array items => "[" ++ JsonValue.itemTexts items ++ "]"
  | .object fields => "\x7b" ++ JsonValue.fieldTexts fields ++ "\x7d"

/-- The items of an array, between commas. -/
def JsonValue.itemTexts : List JsonValue → String
  | [] => ""
  | [v] => v.text
  | v :: vs => v.text ++ "," ++ JsonValue.itemTexts vs

/-- The fields of an object, between commas. -/
def JsonValue.fieldTexts : List (String × JsonValue) → String
  | [] => ""
  | [field] => JsonValue.fieldText field
  | field :: fields => JsonValue.fieldText field ++ "," ++ JsonValue.fieldTexts fields

def JsonValue.fieldText : String × JsonValue → String
  | (key, v) => String.ofList (JsonText.quoted key) ++ ":" ++ v.text

end

/-- A string as it is, and anything else as JSON. -/
def jsonishToString : JsonValue → String
  | .string s => s
  | v => v.text serde

mutual

/-- The text of a content, whatever its shape. -/
def contentToText : JsonValue → String
  | .null => ""
  | .string s => s
  | .array values => joinLines ((contentTexts values).filter (· ≠ ""))
  | .object fields =>
      match ((JsonValue.object fields).get "text").bind JsonValue.asStr with
      | some text => text
      | none =>
          match contentField fields with
          | some text => text
          | none => jsonishToString serde (.object fields)
  | .bool b => jsonishToString serde (.bool b)
  | .number n => jsonishToString serde (.number n)

def contentTexts : List JsonValue → List String
  | [] => []
  | v :: vs => contentToText v :: contentTexts vs

/-- The text of the field `content`. -/
def contentField : List (String × JsonValue) → Option String
  | [] => none
  | field :: fields =>
      match keyedText field with
      | some text => some text
      | none => contentField fields

def keyedText : String × JsonValue → Option String
  | (key, v) => if key = "content" then some (contentToText v) else none

end

theorem contentTexts_eq (values : List JsonValue) :
    contentTexts serde values = values.map (contentToText serde) := by
  induction values with
  | nil => rw [contentTexts, List.map_nil]
  | cons v vs ih => rw [contentTexts, ih, List.map_cons]

/-- A value with a text. -/
theorem contentToText_of_text {v : JsonValue} {text : String}
    (h : (v.get "text").bind JsonValue.asStr = some text) : contentToText serde v = text := by
  cases v with
  | object fields => rw [contentToText, h]
  | null | bool | number | string | array => simp [JsonValue.get] at h

/-- **A list of parts** has their texts, line by line. -/
theorem contentToText_parts {parts : List JsonValue} {texts : List String}
    (h : List.Forall₂ (fun part text => (part.get "text").bind JsonValue.asStr = some text)
      parts texts) :
    contentToText serde (.array parts) = joinLines (texts.filter (· ≠ "")) := by
  rw [contentToText, contentTexts_eq]
  congr 2
  induction h with
  | nil => rfl
  | cons hpart _ ih => rw [List.map_cons, contentToText_of_text serde hpart, ih]

theorem jsonishToString_object (fields : List (String × JsonValue)) :
    jsonishToString serde (.object fields) = (JsonValue.object fields).text serde := rfl

/-- An object is not the mark of a stream's end. -/
theorem trim_object_ne_done (fields : List (String × JsonValue)) :
    trim ((JsonValue.object fields).text serde) ≠ "[DONE]" := by
  have htext : ((JsonValue.object fields).text serde).toList =
      '{' :: (JsonValue.fieldTexts serde fields).toList ++ ['}'] := by
    rw [JsonValue.text, String.toList_append, String.toList_append]
    rfl
  have hopen : UnicodeTables.isWhitespace '{' = false := by decide
  have hclose : UnicodeTables.isWhitespace '}' = false := by decide
  intro h
  have hchars := congrArg String.toList h
  rw [trim, htext, List.cons_append, List.dropWhile_cons_of_neg (by simp [hopen]),
    ← List.cons_append, List.rdropWhile_concat_neg _ _ _ (by simp [hclose]),
    String.toList_ofList] at hchars
  have hhead := congrArg List.head? hchars
  simp at hhead

theorem text_emptyObject : (JsonValue.object []).text serde = "\x7b\x7d" := by
  rw [JsonValue.text, JsonValue.fieldTexts]
  rfl

end Text

/-! ### Histories -/

/-- The items of each value, one after another, up to the first error. -/
def parseEach (parse : JsonValue → Except String (List HistoryItem)) :
    List JsonValue → Except String (List HistoryItem)
  | [] => .ok []
  | v :: vs =>
      match parse v with
      | .error e => .error e
      | .ok items =>
          match parseEach parse vs with
          | .error e => .error e
          | .ok rest => .ok (items ++ rest)

/-- The text and the tool calls of an assistant's turn. -/
def HistoryItem.said : HistoryItem → Option (String × List ToolCallRecord)
  | .assistantTurn text toolCalls _ _ => some (text, toolCalls)
  | _ => none

/-- What the turn says. -/
def TurnEnvelope.said (turn : TurnEnvelope) : Option (String × List ToolCallRecord) :=
  match turn.item.body with
  | .history item => item.said
  | _ => none

/-- The turn of an item, if there is one. -/
def SessionRuntime.capture (session : SessionRuntime) (exchangeId : String) :
    Option HistoryItem → List TurnEnvelope × SessionRuntime
  | none => ([], session)
  | some item =>
      let (turn, session) := session.appendHistoryItem exchangeId item
      ([turn], session)

theorem said_capture (session : SessionRuntime) (exchangeId : String)
    (item : Option HistoryItem) :
    (session.capture exchangeId item).1.map TurnEnvelope.said =
      (item.map HistoryItem.said).toList := by
  cases item <;> rfl

end Cxdb
