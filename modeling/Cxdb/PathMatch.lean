import Cxdb.GoStrings

/-!
# Shell Patterns for Paths

Go's `filepath.Match` on a system whose separator is `/`. A pattern is cut at its stars into
chunks; a chunk that follows a star may begin anywhere before the next separator, and the first
place where it matches is taken. A pattern that is malformed matches nothing.

## Main results

* `match_literal`: a pattern without operators matches itself only.
-/

open ByteFormat GoStrings

namespace PathMatch

/-- The separator of paths. -/
def separator : UInt8 := 47

/-- What a pattern says of one character. -/
inductive Term where
  /-- A byte that stands for itself. -/
  | byte (b : UInt8)
  /-- `?`. -/
  | any
  /-- `[…]`, with the ranges it lists. -/
  | ranges (negated : Bool) (ranges : List (Char × Char))
  deriving DecidableEq

/-- A part of a pattern up to the next star, and whether a star stands before it. -/
structure Chunk where
  star : Bool
  terms : List Term
  deriving DecidableEq

/-! ### Reading patterns -/

/-- `getEsc`: a character of a class, which is not the last of the pattern. -/
def getEsc : Bytes → Option (Char × Bytes)
  | [] => none
  | b :: bs =>
      if b = 45 ∨ b = 93 then none
      else
        match if b = 92 then bs else b :: bs with
        | [] => none
        | c :: cs =>
            let (r, n) := decodeRune c cs
            let rest := (c :: cs).drop n
            if (r = '\ufffd' ∧ n = 1) ∨ rest = [] then none else some (r, rest)

/-- The ranges of a class and what follows it; `n` bounds how many there are. -/
def readRanges : ℕ → List (Char × Char) → Bytes → Option (List (Char × Char) × Bytes)
  | 0, _, _ => none
  | n + 1, ranges, bs =>
      if bs.head? = some 93 ∧ ranges ≠ [] then some (ranges, bs.tail)
      else
        (getEsc bs).bind fun (lo, bs) =>
          if bs.head? = some 45 then
            (getEsc bs.tail).bind fun (hi, bs) => readRanges n (ranges ++ [(lo, hi)]) bs
          else readRanges n (ranges ++ [(lo, lo)]) bs

/-- Put a term in front of a pattern. -/
def consTerm (t : Term) : List Chunk → List Chunk
  | ⟨false, ts⟩ :: chunks => ⟨false, t :: ts⟩ :: chunks
  | chunks => ⟨false, [t]⟩ :: chunks

/-- Put a star in front of a pattern. -/
def consStar : List Chunk → List Chunk
  | ⟨_, ts⟩ :: chunks => ⟨true, ts⟩ :: chunks
  | [] => [⟨true, []⟩]

/-- The chunks of a pattern, unless it is malformed; `n` bounds its length. -/
def readChunks : ℕ → Bytes → Option (List Chunk)
  | _, [] => some []
  | 0, _ :: _ => none
  | n + 1, b :: bs =>
      if b = 42 then (readChunks n bs).map consStar
      else if b = 63 then (readChunks n bs).map (consTerm .any)
      else if b = 91 then
        let negated := bs.head? = some 94
        (readRanges bs.length [] (if negated then bs.tail else bs)).bind fun (ranges, bs) =>
          (readChunks n bs).map (consTerm (.ranges negated ranges))
      else if b = 92 then
        match bs with
        | [] => none
        | c :: bs => (readChunks n bs).map (consTerm (.byte c))
      else (readChunks n bs).map (consTerm (.byte b))

/-! ### Matching -/

/-- `matchChunk`: what is left of a text that begins as the terms say. -/
def matchChunk : List Term → Bytes → Option Bytes
  | [], text => some text
  | _ :: _, [] => none
  | .byte b :: ts, c :: text => if b = c then matchChunk ts text else none
  | .any :: ts, c :: text =>
      if c = separator then none else matchChunk ts ((c :: text).drop (decodeRune c text).2)
  | .ranges negated rs :: ts, c :: text =>
      let (r, n) := decodeRune c text
      if rs.any (fun range => range.1 ≤ r ∧ r ≤ range.2) = negated then none
      else matchChunk ts ((c :: text).drop n)

/-- The first place behind the beginning of a text where a chunk matches, without a separator
before it; at the end of a pattern nothing may be left. -/
def matchLater (terms : List Term) (last : Bool) : Bytes → Option Bytes
  | [] => none
  | c :: text =>
      if c = separator then none
      else
        match matchChunk terms text with
        | some rest => if last ∧ rest ≠ [] then matchLater terms last text else some rest
        | none => matchLater terms last text

/-- The loop of `filepath.Match`. -/
def matchChunks : List Chunk → Bytes → Bool
  | [], text => text.isEmpty
  | ⟨star, terms⟩ :: chunks, text =>
      if star ∧ terms = [] then separator ∉ text
      else
        let later := if star then matchLater terms chunks.isEmpty text else none
        let rest :=
          match matchChunk terms text with
          | some rest => if rest = [] ∨ chunks ≠ [] then some rest else later
          | none => later
        match rest with
        | some rest => matchChunks chunks rest
        | none => false

/-- `filepath.Match`, where an error counts as no match. -/
def pathMatch (pattern text : Bytes) : Bool :=
  match readChunks pattern.length pattern with
  | some chunks => matchChunks chunks text
  | none => false

/-! ### Patterns without operators -/

/-- The bytes that are no operators. -/
def literal (b : UInt8) : Prop := b ≠ 42 ∧ b ≠ 63 ∧ b ≠ 91 ∧ b ≠ 92

theorem readChunks_literal {n : ℕ} {bs : Bytes} (hn : bs.length ≤ n) (h : ∀ b ∈ bs, literal b)
    (hne : bs ≠ []) : readChunks n bs = some [⟨false, bs.map .byte⟩] := by
  induction bs generalizing n with
  | nil => exact absurd rfl hne
  | cons b bs ih =>
      obtain ⟨n, rfl⟩ : ∃ k, n = k + 1 := ⟨n - 1, by simp at hn; omega⟩
      obtain ⟨hstar, hany, hclass, hescape⟩ := h b List.mem_cons_self
      simp only [readChunks.eq_def (n + 1) (b :: bs), if_neg hstar, if_neg hany, if_neg hclass,
        if_neg hescape]
      cases bs with
      | nil => cases n <;> rfl
      | cons c bs =>
          rw [ih (Nat.le_of_succ_le_succ hn) (fun b hb => h b (List.mem_cons_of_mem _ hb))
            (List.cons_ne_nil c bs)]
          rfl

theorem matchChunk_bytes (bs text : Bytes) :
    matchChunk (bs.map .byte) text = if bs <+: text then some (text.drop bs.length) else none := by
  induction bs generalizing text with
  | nil => simp [matchChunk]
  | cons b bs ih =>
      cases text with
      | nil => simp [matchChunk]
      | cons c text =>
          rw [List.map_cons, matchChunk, ih]
          by_cases hb : b = c <;> simp [hb, List.cons_prefix_cons]

/-- **A pattern without operators** matches itself, and nothing else. -/
theorem match_literal {pattern : Bytes} (h : ∀ b ∈ pattern, literal b) (text : Bytes) :
    pathMatch pattern text = decide (pattern = text) := by
  by_cases hne : pattern = []
  · subst hne
    cases text <;> rfl
  · rw [pathMatch, readChunks_literal le_rfl h hne]
    have hterms : pattern.map Term.byte ≠ [] := mt List.map_eq_nil_iff.mp hne
    simp only [matchChunks, matchChunk_bytes, Bool.false_eq_true, false_and, if_false, ne_eq,
      not_true_eq_false, or_false]
    by_cases hp : pattern <+: text
    · obtain ⟨rest, rfl⟩ := hp
      cases rest with
      | nil => simp
      | cons b rest => simp
    · have hne' : pattern ≠ text := fun heq => hp (heq ▸ List.prefix_refl pattern)
      simp [hp, hne']

end PathMatch
