import Cxdb.GoStrings

/-!
# XML Documents as Texts

A document is a sequence of tags and of texts, in which `&`, `<` and `>` are escaped. So a
tag is found in it as a text, and nothing but a tag is taken for one.

## Main results

* `index_tagBytes_append`: a tag is not found in what does not hold it.
* `index_tagBytes`: it is found where it stands first.
* `Document.firstText_cases`: the first element of a name.
-/

open ByteFormat GoStrings

namespace XmlText

/-- The parts of a document. -/
inductive Piece where
  /-- What stands between `<` and `>`. -/
  | tag (inner : Bytes)
  | text (t : Bytes)
  deriving DecidableEq

/-- A character of a text: `&amp;`, `&lt;`, `&gt;`, or itself. -/
def escapeByte (b : UInt8) : Bytes :=
  if b = 38 then [38, 97, 109, 112, 59]
  else if b = 60 then [38, 108, 116, 59]
  else if b = 62 then [38, 103, 116, 59]
  else [b]

/-- A text in a document. -/
def escapeText (text : Bytes) : Bytes := text.flatMap escapeByte

/-- A tag in a document. -/
def tagBytes (inner : Bytes) : Bytes := 60 :: (inner ++ [62])

def Piece.bytes : Piece → Bytes
  | .tag inner => tagBytes inner
  | .text t => escapeText t

def piecesBytes (pieces : List Piece) : Bytes := pieces.flatMap Piece.bytes

@[simp] theorem piecesBytes_nil : piecesBytes [] = [] := rfl

@[simp] theorem piecesBytes_cons (piece : Piece) (pieces : List Piece) :
    piecesBytes (piece :: pieces) = piece.bytes ++ piecesBytes pieces := List.flatMap_cons

@[simp] theorem piecesBytes_append (pieces pieces' : List Piece) :
    piecesBytes (pieces ++ pieces') = piecesBytes pieces ++ piecesBytes pieces' :=
  List.flatMap_append

/-- A document begins with a tag, and its tags hold no brackets. -/
structure Document where
  pieces : List Piece
  begins : ∃ inner rest, pieces = .tag inner :: rest
  brackets : ∀ inner, .tag inner ∈ pieces → 60 ∉ inner ∧ 62 ∉ inner

def Document.bytes (d : Document) : Bytes := piecesBytes d.pieces

theorem Document.bytes_head (d : Document) : d.bytes.head? = some 60 := by
  obtain ⟨inner, rest, h⟩ := d.begins
  rw [bytes, h, piecesBytes_cons]
  rfl

/-- The text that pieces begin with. -/
def leadingText : List Piece → Option Bytes
  | .text t :: _ => some t
  | _ => none

/-- The text of the first element of this name. -/
def firstText (name : Bytes) : List Piece → Option Bytes
  | [] => none
  | .text _ :: rest => firstText name rest
  | .tag inner :: rest => if inner = name then leadingText rest else firstText name rest

/-- The elements of this name hold a text and nothing else. -/
def Document.HoldsTexts (d : Document) (name : Bytes) : Prop :=
  ∀ before after, d.pieces = before ++ .tag name :: after →
    ∃ t rest, after = .text t :: .tag (47 :: name) :: rest

/-- An element that is the only one of its name holds a text. -/
theorem Document.holdsTexts_of_eq (d : Document) {name t : Bytes} {before rest : List Piece}
    (h : d.pieces = before ++ .tag name :: .text t :: .tag (47 :: name) :: rest)
    (hbefore : .tag name ∉ before) (hrest : .tag name ∉ .text t :: .tag (47 :: name) :: rest) :
    d.HoldsTexts name := by
  intro before' after hpieces
  rw [h] at hpieces
  obtain ⟨-, -, rfl⟩ := (List.append_cons_inj_of_notMem hbefore hrest).mp hpieces
  exact ⟨t, rest, rfl⟩

/-! ### Escapes -/

/-- Texts without brackets and ampersands are not changed. -/
def Plain (text : Bytes) : Prop := 38 ∉ text ∧ 60 ∉ text ∧ 62 ∉ text

instance (text : Bytes) : Decidable (Plain text) := inferInstanceAs (Decidable (_ ∧ _))

theorem Plain.escapeText_eq {text : Bytes} (h : Plain text) : escapeText text = text := by
  induction text with
  | nil => rfl
  | cons b text ih =>
      obtain ⟨⟨hamp, h₁⟩, ⟨hlt, h₂⟩, hgt, h₃⟩ : (38 ≠ b ∧ 38 ∉ text) ∧ (60 ≠ b ∧ 60 ∉ text) ∧
          62 ≠ b ∧ 62 ∉ text := by
        simpa only [Plain, List.mem_cons, not_or] using h
      rw [escapeText, List.flatMap_cons, escapeByte, if_neg hamp.symm, if_neg hlt.symm,
        if_neg hgt.symm]
      exact congrArg (b :: ·) (ih ⟨h₁, h₂, h₃⟩)

/-- A text is plain if it is written without an ampersand. -/
theorem plain_of_escapeText {text : Bytes} (h : 38 ∉ escapeText text) : Plain text := by
  have hescape : ∀ b ∈ text, 38 ∉ escapeByte b := fun b hb hmem =>
    h (List.mem_flatMap.mpr ⟨b, hb, hmem⟩)
  exact ⟨fun hb => hescape 38 hb (by decide), fun hb => hescape 60 hb (by decide),
    fun hb => hescape 62 hb (by decide)⟩

theorem escapeText_bracket (text : Bytes) : 60 ∉ escapeText text := by
  rw [escapeText, List.mem_flatMap]
  rintro ⟨b, -, hb⟩
  rw [escapeByte] at hb
  split at hb
  · revert hb
    decide
  split at hb
  · revert hb
    decide
  next hlt =>
    split at hb
    · revert hb
      decide
    · exact hlt (List.mem_singleton.mp hb).symm

/-! ### Finding a tag -/

theorem eq_of_append_cons {b : UInt8} {as bs cs ds : Bytes} (has : b ∉ as) (hbs : b ∉ bs)
    (h : as ++ b :: cs = bs ++ b :: ds) : as = bs := by
  induction as generalizing bs with
  | nil =>
      cases bs with
      | nil => rfl
      | cons b' bs => exact absurd (List.cons.inj h).1 (List.ne_of_not_mem_cons hbs)
  | cons a as ih =>
      cases bs with
      | nil => exact absurd (List.cons.inj h).1.symm (List.ne_of_not_mem_cons has)
      | cons b' bs =>
          obtain ⟨rfl, htail⟩ := List.cons.inj h
          rw [ih (List.not_mem_of_not_mem_cons has) (List.not_mem_of_not_mem_cons hbs) htail]

/-- Two tags are not prefixes of each other. -/
theorem eq_of_tagBytes {name inner rest : Bytes} (hname : 62 ∉ name) (hinner : 62 ∉ inner)
    (h : tagBytes name <+: tagBytes inner ++ rest) : name = inner := by
  obtain ⟨rest', h⟩ := h
  rw [tagBytes, tagBytes, List.cons_append, List.cons_append, List.append_assoc,
    List.append_assoc] at h
  have hnames : name ++ 62 :: rest' = inner ++ 62 :: rest := (List.cons.inj h).2
  exact eq_of_append_cons hname hinner hnames

/-- **A tag is not found in what does not hold it.** -/
theorem index_tagBytes_append {name : Bytes} (hname : 62 ∉ name) {pieces : List Piece}
    (hbrackets : ∀ inner, .tag inner ∈ pieces → 60 ∉ inner ∧ 62 ∉ inner)
    (h : .tag name ∉ pieces) (rest : Bytes) :
    index (tagBytes name) (piecesBytes pieces ++ rest) =
      (index (tagBytes name) rest).map (· + (piecesBytes pieces).length) := by
  induction pieces with
  | nil => simp
  | cons piece pieces ih =>
      obtain ⟨hpiece, hpieces⟩ := not_or.mp (mt List.mem_cons.mpr h)
      have hrest := ih (fun inner hinner => hbrackets inner (List.mem_cons_of_mem _ hinner))
        hpieces
      rw [piecesBytes_cons, List.append_assoc, List.length_append]
      cases piece with
      | text t =>
          rw [Piece.bytes, tagBytes, index_append (escapeText_bracket t), ← tagBytes, hrest,
            Option.map_map]
          congr 1
          funext n
          simp only [Function.comp_apply]
          omega
      | tag inner =>
          obtain ⟨hopen, hclose⟩ := hbrackets inner List.mem_cons_self
          have hprefix : ¬tagBytes name <+:
              60 :: ((inner ++ [62]) ++ (piecesBytes pieces ++ rest)) := fun hp =>
            hpiece (congrArg Piece.tag (eq_of_tagBytes hname hclose hp))
          have hinner : (60 : UInt8) ∉ inner ++ [62] := by
            simpa using hopen
          rw [Piece.bytes, show tagBytes inner = 60 :: (inner ++ [62]) from rfl, List.cons_append,
            index_cons hprefix, tagBytes, index_append hinner, ← tagBytes, hrest,
            Option.map_map, Option.map_map]
          congr 1
          funext n
          simp only [Function.comp_apply, List.length_cons]
          omega

/-- A tag that is not there is not found. -/
theorem index_tagBytes_none {name : Bytes} (hname : 62 ∉ name) {pieces : List Piece}
    (hbrackets : ∀ inner, .tag inner ∈ pieces → 60 ∉ inner ∧ 62 ∉ inner)
    (h : .tag name ∉ pieces) : index (tagBytes name) (piecesBytes pieces) = none := by
  have hindex := index_tagBytes_append hname hbrackets h []
  rw [List.append_nil] at hindex
  rw [hindex]
  rfl

/-- **A tag is found where it stands first.** -/
theorem index_tagBytes {name : Bytes} (hname : 62 ∉ name) {before : List Piece}
    (hbrackets : ∀ inner, .tag inner ∈ before → 60 ∉ inner ∧ 62 ∉ inner)
    (h : .tag name ∉ before) (after : List Piece) :
    index (tagBytes name) (piecesBytes (before ++ .tag name :: after)) =
      some (piecesBytes before).length := by
  rw [piecesBytes_append, piecesBytes_cons, index_tagBytes_append hname hbrackets h,
    Piece.bytes, index_self_append, Option.map_some, Nat.zero_add]

/-! ### Elements -/

theorem firstText_none {name : Bytes} {pieces : List Piece} (h : .tag name ∉ pieces) :
    firstText name pieces = none := by
  induction pieces with
  | nil => rfl
  | cons piece pieces ih =>
      obtain ⟨hpiece, hpieces⟩ := not_or.mp (mt List.mem_cons.mpr h)
      cases piece with
      | text t => exact ih hpieces
      | tag inner =>
          rw [firstText, if_neg fun hinner => hpiece (congrArg Piece.tag hinner.symm)]
          exact ih hpieces

theorem firstText_append {name : Bytes} {before : List Piece} (h : .tag name ∉ before)
    (t : Bytes) (after : List Piece) :
    firstText name (before ++ .tag name :: .text t :: after) = some t := by
  induction before with
  | nil =>
      rw [List.nil_append, firstText, if_pos rfl, leadingText]
  | cons piece before ih =>
      obtain ⟨hpiece, hbefore⟩ := not_or.mp (mt List.mem_cons.mpr h)
      cases piece with
      | text t => exact ih hbefore
      | tag inner =>
          rw [List.cons_append, firstText,
            if_neg fun hinner => hpiece (congrArg Piece.tag hinner.symm)]
          exact ih hbefore

/-- **The first element** of a name that holds texts: it is not there, or the document reads
as its tag, its escaped text and its closing tag, and no such tag stands before. -/
theorem Document.firstText_cases (d : Document) {name : Bytes} (h : d.HoldsTexts name) :
    (firstText name d.pieces = none ∧ .tag name ∉ d.pieces) ∨
      ∃ before t rest, firstText name d.pieces = some t ∧ .tag name ∉ before ∧
        d.pieces = before ++ .tag name :: .text t :: .tag (47 :: name) :: rest := by
  by_cases hmem : Piece.tag name ∈ d.pieces
  · obtain ⟨before, after, hpieces, hbefore⟩ := List.eq_append_cons_of_mem hmem
    obtain ⟨t, rest, rfl⟩ := h before after hpieces
    refine .inr ⟨before, t, rest, ?_, hbefore, hpieces⟩
    rw [hpieces, firstText_append hbefore]
  · exact .inl ⟨firstText_none hmem, hmem⟩

end XmlText
