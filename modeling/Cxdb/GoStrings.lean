import Cxdb.ByteFormat

/-!
# Searching in Texts

What Go's `strings` and `utf8` do with a text: find the first place where another text
stands, replace it wherever it stands, and read the text as runes.

## Main results

* `index_append`: a text that does not begin inside the first part is found behind it.
* `replaceAll_self_append`, `replaceAll_cons`: replacing from the left to the right.
* `runes_ascii`: ASCII is read byte by byte.
-/

open ByteFormat

namespace GoStrings

variable {α : Type} [DecidableEq α]

/-! ### The first place -/

/-- `strings.Index`. -/
def index (pattern : List α) : List α → Option ℕ
  | [] => if pattern = [] then some 0 else none
  | a :: as => if pattern <+: a :: as then some 0 else (index pattern as).map (· + 1)

theorem index_self_append (pattern rest : List α) : index pattern (pattern ++ rest) = some 0 := by
  cases h : pattern ++ rest with
  | nil =>
      rw [index, if_pos (List.append_eq_nil_iff.mp h).1]
  | cons a as =>
      rw [index, if_pos (h ▸ List.prefix_append pattern rest)]

theorem index_cons {pattern : List α} {a : α} {as : List α} (h : ¬pattern <+: a :: as) :
    index pattern (a :: as) = (index pattern as).map (· + 1) := if_neg h

/-- **A part where the text cannot begin is passed over.** -/
theorem index_append {a : α} {pattern as : List α} (h : a ∉ as) (bs : List α) :
    index (a :: pattern) (as ++ bs) = (index (a :: pattern) bs).map (· + as.length) := by
  induction as with
  | nil => simp
  | cons b as ih =>
      obtain ⟨hb, has⟩ := not_or.mp (mt List.mem_cons.mpr h)
      have hprefix : ¬(a :: pattern) <+: b :: (as ++ bs) := fun hp =>
        hb (List.cons_prefix_cons.mp hp).1
      rw [List.cons_append, index_cons hprefix, ih has, Option.map_map]
      rfl

/-! ### Replacing -/

/-- `strings.ReplaceAll` behind the characters of the last place that are to be left out. -/
def replaceFrom (old new : List α) : ℕ → List α → List α
  | _, [] => []
  | skip + 1, _ :: as => replaceFrom old new skip as
  | 0, a :: as =>
      if old <+: a :: as then new ++ replaceFrom old new (old.length - 1) as
      else a :: replaceFrom old new 0 as

/-- `strings.ReplaceAll` of a text that is not empty. -/
def replaceAll (old new as : List α) : List α := replaceFrom old new 0 as

theorem replaceAll_nil (old new : List α) : replaceAll old new [] = [] := rfl

theorem replaceAll_cons {old : List α} (new : List α) {a : α} {as : List α}
    (h : ¬old <+: a :: as) : replaceAll old new (a :: as) = a :: replaceAll old new as :=
  if_neg h

theorem replaceFrom_length (old new : List α) (as bs : List α) :
    replaceFrom old new as.length (as ++ bs) = replaceAll old new bs := by
  induction as with
  | nil => rfl
  | cons a as ih => rw [List.length_cons, List.cons_append, replaceFrom, ih]

theorem replaceAll_self_append {a : α} (old new as : List α) :
    replaceAll (a :: old) new (a :: old ++ as) = new ++ replaceAll (a :: old) new as := by
  have hprefix : (a :: old) <+: a :: (old ++ as) := List.prefix_append (a :: old) as
  rw [replaceAll, List.cons_append, replaceFrom, if_pos hprefix, List.length_cons,
    Nat.add_sub_cancel, replaceFrom_length]

/-! ### Runes -/

/-- A byte that goes on with a character. -/
def isContinuation (b : UInt8) : Bool := 128 ≤ b ∧ b ≤ 191

/-- The character that an encoding stands for. -/
def runeOf (code : ℕ) : Char := Char.ofNat code

/-- `utf8.DecodeRune`: the first character and its length; a byte that begins none is read as
the replacement character. -/
def decodeRune (b : UInt8) (bs : Bytes) : Char × ℕ :=
  let b₁ := (bs[0]?).getD 0
  let b₂ := (bs[1]?).getD 0
  let b₃ := (bs[2]?).getD 0
  let low (b : UInt8) : ℕ := b.toNat % 64
  if b < 128 then (runeOf b.toNat, 1)
  else if 194 ≤ b ∧ b ≤ 223 ∧ isContinuation b₁ then
    (runeOf (b.toNat % 32 * 64 + low b₁), 2)
  else if 224 ≤ b ∧ b ≤ 239 ∧ isContinuation b₁ ∧ isContinuation b₂ ∧
      (b = 224 → 160 ≤ b₁) ∧ (b = 237 → b₁ ≤ 159) then
    (runeOf ((b.toNat % 16 * 64 + low b₁) * 64 + low b₂), 3)
  else if 240 ≤ b ∧ b ≤ 244 ∧ isContinuation b₁ ∧ isContinuation b₂ ∧ isContinuation b₃ ∧
      (b = 240 → 144 ≤ b₁) ∧ (b = 244 → b₁ ≤ 143) then
    (runeOf (((b.toNat % 8 * 64 + low b₁) * 64 + low b₂) * 64 + low b₃), 4)
  else ('\ufffd', 1)

/-- The runes behind the bytes of the last one. -/
def runesFrom : ℕ → Bytes → List Char
  | _, [] => []
  | skip + 1, _ :: bs => runesFrom skip bs
  | 0, b :: bs => (decodeRune b bs).1 :: runesFrom ((decodeRune b bs).2 - 1) bs

/-- A text as a list of runes. -/
def runes (bs : Bytes) : List Char := runesFrom 0 bs

/-- ASCII is read byte by byte. -/
theorem runes_ascii {bs : Bytes} (h : ∀ b ∈ bs, b < 128) :
    runes bs = bs.map fun b => Char.ofNat b.toNat := by
  induction bs with
  | nil => rfl
  | cons b bs ih =>
      have hb : decodeRune b bs = (Char.ofNat b.toNat, 1) := by
        rw [decodeRune]
        exact if_pos (h b List.mem_cons_self)
      rw [runes, runesFrom, hb, List.map_cons, ← ih fun b hb => h b (List.mem_cons_of_mem _ hb)]
      rfl

end GoStrings
