import Cxdb.GoStrings

/-!
# Globs as Regular Expressions

A glob, in which `*` stands for any characters and every other character for itself, is
matched by way of a regular expression: the glob is quoted, its quoted stars are replaced by
`.*`, and what comes out is anchored at both ends.

## Main results

* `parse_globRegexp`: the regular expression of a glob is well formed.
* `matchString_iff`: it matches the texts that the glob matches with stars that stand for
  parts of one line.
-/

open GoStrings

namespace GlobRegexp

/-! ### Globs -/

/-- A text matches a glob: stars stand for characters that satisfy `p`. -/
inductive Matches (p : Char → Prop) : List Char → List Char → Prop where
  | nil : Matches p [] []
  | star {glob text : List Char} (part : List Char) (hpart : ∀ c ∈ part, p c)
      (h : Matches p glob text) : Matches p ('*' :: glob) (part ++ text)
  | char {glob text : List Char} (c : Char) (hc : c ≠ '*') (h : Matches p glob text) :
      Matches p (c :: glob) (c :: text)

theorem Matches.mono {p q : Char → Prop} {glob text : List Char} (h : Matches p glob text)
    (hpq : ∀ c ∈ text, p c → q c) : Matches q glob text := by
  induction h with
  | nil => exact .nil
  | star part hpart _ ih =>
      exact .star part (fun c hc => hpq c (List.mem_append_left _ hc) (hpart c hc))
        (ih fun c hc => hpq c (List.mem_append_right _ hc))
  | char c hc _ ih => exact .char c hc (ih fun c hc => hpq c (List.mem_cons_of_mem _ hc))

theorem matches_star_iff {p : Char → Prop} {glob text : List Char} :
    Matches p ('*' :: glob) text ↔
      ∃ part rest, text = part ++ rest ∧ (∀ c ∈ part, p c) ∧ Matches p glob rest := by
  constructor
  · intro h
    generalize hstar : '*' :: glob = stars at h
    cases h with
    | nil => cases hstar
    | star part hpart h =>
        obtain rfl := (List.cons.inj hstar).2
        exact ⟨part, _, rfl, hpart, h⟩
    | char c hc h => exact absurd (List.cons.inj hstar).1.symm hc
  · rintro ⟨part, rest, rfl, hpart, h⟩
    exact .star part hpart h

theorem matches_char_iff {p : Char → Prop} {c : Char} (hc : c ≠ '*') {glob text : List Char} :
    Matches p (c :: glob) text ↔ ∃ rest, text = c :: rest ∧ Matches p glob rest := by
  constructor
  · intro h
    generalize hchar : c :: glob = chars at h
    cases h with
    | nil => cases hchar
    | star part hpart h => exact absurd (List.cons.inj hchar).1 hc
    | char c' hc' h =>
        obtain ⟨rfl, rfl⟩ := List.cons.inj hchar
        exact ⟨_, rfl, h⟩
  · rintro ⟨rest, rfl, h⟩
    exact .char c hc h

/-! ### Regular expressions -/

/-- The parts of a regular expression. -/
inductive Atom where
  /-- `^`. -/
  | beginText
  /-- `$`. -/
  | endText
  /-- A character that stands for itself. -/
  | char (c : Char)
  /-- `.*`: characters of one line. -/
  | anyChars
  deriving DecidableEq

/-- The characters with a meaning of their own. -/
def metaChars : List Char :=
  ['\\', '.', '+', '*', '?', '(', ')', '|', '[', ']', '\x7b', '\x7d', '^', '$']

/-- `regexp.Compile` of the texts with no other operators than `^`, `$` and `.*`. -/
def parse : List Char → Option (List Atom)
  | [] => some []
  | '\\' :: c :: text => if c ∈ metaChars then (parse text).map (.char c :: ·) else none
  | '.' :: '*' :: text => (parse text).map (.anyChars :: ·)
  | '^' :: text => (parse text).map (.beginText :: ·)
  | '$' :: text => (parse text).map (.endText :: ·)
  | c :: text => if c ∈ metaChars then none else (parse text).map (.char c :: ·)

/-- What follows matches behind some characters that satisfy `p`. -/
def skipping (p : Char → Bool) (next : Bool → List Char → Bool) : Bool → List Char → Bool
  | atBegin, [] => next atBegin []
  | atBegin, c :: text =>
      next atBegin (c :: text) || (p c && skipping p next false text)

/-- The atoms match from here on; the flag says that the text begins here. -/
def matchHere : List Atom → Bool → List Char → Bool
  | [], _, _ => true
  | .beginText :: atoms, atBegin, text => atBegin && matchHere atoms atBegin text
  | .endText :: atoms, atBegin, text => text.isEmpty && matchHere atoms atBegin text
  | .char _ :: _, _, [] => false
  | .char a :: atoms, _, c :: text => a = c && matchHere atoms false text
  | .anyChars :: atoms, atBegin, text =>
      skipping (· ≠ '\n') (matchHere atoms) atBegin text

/-- `MatchString`: the atoms match somewhere in the text. -/
def matchString (atoms : List Atom) (text : List Char) : Bool :=
  skipping (fun _ => true) (matchHere atoms) true text

/-! ### The regular expression of a glob -/

/-- `regexp.QuoteMeta`. -/
def quoteMeta (text : List Char) : List Char :=
  text.flatMap fun c => if c ∈ metaChars then ['\\', c] else [c]

/-- The anchored regular expression. -/
def globRegexp (glob : List Char) : List Char :=
  replaceAll ['\\', '*'] ['.', '*'] ('^' :: quoteMeta glob ++ ['$'])

/-- What a character of a glob becomes. -/
def globText (c : Char) : List Char :=
  if c = '*' then ['.', '*'] else if c ∈ metaChars then ['\\', c] else [c]

/-- What it means. -/
def globAtom (c : Char) : Atom := if c = '*' then .anyChars else .char c

/-- No quoted text begins with a star. -/
theorem quoteMeta_head (glob : List Char) : (quoteMeta glob ++ ['$']).head? ≠ some '*' := by
  cases glob with
  | nil => decide
  | cons c glob =>
      rw [quoteMeta, List.flatMap_cons]
      split
      · simp
      next hc =>
        rintro h
        obtain rfl : c = '*' := by simpa using h
        exact hc (by decide)

/-- **Only the quoted stars are replaced.** -/
theorem replaceAll_quoteMeta (glob : List Char) :
    replaceAll ['\\', '*'] ['.', '*'] (quoteMeta glob ++ ['$']) =
      glob.flatMap globText ++ ['$'] := by
  induction glob with
  | nil => decide
  | cons c glob ih =>
      have hquote : quoteMeta (c :: glob) ++ ['$'] =
          (if c ∈ metaChars then ['\\', c] else [c]) ++ (quoteMeta glob ++ ['$']) := by
        rw [quoteMeta, List.flatMap_cons, List.append_assoc]
        rfl
      have hrest : ∀ a : Char, ¬['\\', '*'] <+: a :: (quoteMeta glob ++ ['$']) := by
        intro a h
        obtain ⟨rest, hrest⟩ := (List.cons_prefix_cons.mp h).2
        exact quoteMeta_head glob (by rw [← hrest]; rfl)
      rw [hquote, List.flatMap_cons, List.append_assoc, ← ih, globText]
      by_cases hstar : c = '*'
      · subst hstar
        exact replaceAll_self_append ['*'] ['.', '*'] _
      rw [if_neg hstar]
      by_cases hmeta : c ∈ metaChars
      · have hfirst : ¬['\\', '*'] <+: '\\' :: c :: (quoteMeta glob ++ ['$']) := fun h =>
          hstar (List.cons_prefix_cons.mp (List.cons_prefix_cons.mp h).2).1.symm
        rw [if_pos hmeta, List.cons_append, List.cons_append, List.nil_append,
          replaceAll_cons _ hfirst, replaceAll_cons _ (hrest c)]
        rfl
      · rw [if_neg hmeta, List.cons_append, List.nil_append, replaceAll_cons _ (hrest c)]
        rfl

theorem globRegexp_eq (glob : List Char) :
    globRegexp glob = '^' :: (glob.flatMap globText ++ ['$']) := by
  have hcaret : ¬['\\', '*'] <+: '^' :: (quoteMeta glob ++ ['$']) := fun h =>
    absurd (List.cons_prefix_cons.mp h).1 (by decide)
  rw [globRegexp, List.cons_append, replaceAll_cons _ hcaret, replaceAll_quoteMeta]

/-- A character without a meaning of its own stands for itself. -/
theorem parse_char {c : Char} (h : c ∉ metaChars) (text : List Char) :
    parse (c :: text) = (parse text).map (.char c :: ·) := by
  rw [parse.eq_def]
  split
  · contradiction
  next heq =>
    obtain rfl := (List.cons.inj heq).1
    exact absurd (by decide) h
  next heq =>
    obtain rfl := (List.cons.inj heq).1
    exact absurd (by decide) h
  next heq =>
    obtain rfl := (List.cons.inj heq).1
    exact absurd (by decide) h
  next heq =>
    obtain rfl := (List.cons.inj heq).1
    exact absurd (by decide) h
  next heq =>
    obtain ⟨rfl, rfl⟩ := List.cons.inj heq
    exact if_neg h

/-- A quoted character stands for itself. -/
theorem parse_quoted {c : Char} (h : c ∈ metaChars) (text : List Char) :
    parse ('\\' :: c :: text) = (parse text).map (.char c :: ·) := by
  rw [parse]
  exact if_pos h

/-- **The regular expression of a glob** is anchored at both ends. -/
theorem parse_globRegexp (glob : List Char) :
    parse (globRegexp glob) = some (.beginText :: (glob.map globAtom ++ [.endText])) := by
  have hglob : parse (glob.flatMap globText ++ ['$']) =
      some (glob.map globAtom ++ [.endText]) := by
    induction glob with
    | nil => rfl
    | cons c glob ih =>
        rw [List.flatMap_cons, List.append_assoc, List.map_cons, List.cons_append, globText,
          globAtom]
        by_cases hstar : c = '*'
        · rw [if_pos hstar, if_pos hstar, List.cons_append, List.cons_append, List.nil_append,
            parse, ih]
          rfl
        rw [if_neg hstar, if_neg hstar]
        by_cases hmeta : c ∈ metaChars
        · rw [if_pos hmeta, List.cons_append, List.cons_append, List.nil_append,
            parse_quoted hmeta, ih]
          rfl
        · rw [if_neg hmeta, List.cons_append, List.nil_append, parse_char hmeta, ih]
          rfl
  rw [globRegexp_eq, parse, hglob]
  rfl

/-! ### Matching -/

/-- Some characters are passed over. -/
theorem skipping_iff {p : Char → Bool} {next : Bool → List Char → Bool}
    {q : List Char → Prop} (h : ∀ atBegin text, next atBegin text = true ↔ q text)
    (atBegin : Bool) (text : List Char) :
    skipping p next atBegin text = true ↔
      ∃ part rest, text = part ++ rest ∧ (∀ c ∈ part, p c = true) ∧ q rest := by
  induction text generalizing atBegin with
  | nil =>
      rw [skipping, h]
      constructor
      · exact fun hq => ⟨[], [], rfl, by simp, hq⟩
      · rintro ⟨part, rest, htext, -, hq⟩
        rwa [(List.append_eq_nil_iff.mp htext.symm).2] at hq
  | cons c text ih =>
      rw [skipping, Bool.or_eq_true, Bool.and_eq_true, h, ih]
      constructor
      · rintro (hq | ⟨hc, part, rest, rfl, hpart, hq⟩)
        · exact ⟨[], c :: text, rfl, by simp, hq⟩
        · exact ⟨c :: part, rest, rfl, List.forall_mem_cons.mpr ⟨hc, hpart⟩, hq⟩
      · rintro ⟨part, rest, htext, hpart, hq⟩
        cases part with
        | nil =>
            rw [List.nil_append] at htext
            exact .inl (htext ▸ hq)
        | cons c' part =>
            obtain ⟨rfl, rfl⟩ := List.cons.inj htext
            obtain ⟨hc, hpart⟩ := List.forall_mem_cons.mp hpart
            exact .inr ⟨hc, part, rest, rfl, hpart, hq⟩

/-- The atoms of a glob match what the glob matches. -/
theorem matchHere_iff (glob : List Char) (atBegin : Bool) (text : List Char) :
    matchHere (glob.map globAtom ++ [.endText]) atBegin text = true ↔
      Matches (· ≠ '\n') glob text := by
  induction glob generalizing atBegin text with
  | nil =>
      rw [List.map_nil, List.nil_append, matchHere, matchHere, Bool.and_true,
        List.isEmpty_iff]
      constructor
      · rintro rfl
        exact .nil
      · rintro ⟨⟩
        rfl
  | cons c glob ih =>
      rw [List.map_cons, List.cons_append, globAtom]
      by_cases hstar : c = '*'
      · subst hstar
        rw [if_pos rfl, matchHere, skipping_iff ih, matches_star_iff]
        simp only [decide_eq_true_eq]
      · rw [if_neg hstar, matches_char_iff hstar]
        cases text with
        | nil => exact ⟨fun h => (Bool.false_ne_true h).elim, fun ⟨_, h, _⟩ => nomatch h⟩
        | cons c' text =>
            rw [matchHere, Bool.and_eq_true, decide_eq_true_eq, ih]
            constructor
            · rintro ⟨rfl, h⟩
              exact ⟨text, rfl, h⟩
            · rintro ⟨rest, htext, h⟩
              obtain ⟨rfl, rfl⟩ := List.cons.inj htext
              exact ⟨rfl, h⟩

/-- **The regular expression of a glob matches** the texts that the glob matches, with stars
that stand for parts of one line. -/
theorem matchString_iff (glob text : List Char) :
    matchString (.beginText :: (glob.map globAtom ++ [.endText])) text = true ↔
      Matches (· ≠ '\n') glob text := by
  rw [matchString, ← matchHere_iff glob true]
  cases text with
  | nil =>
      rw [skipping, matchHere, Bool.true_and]
  | cons c text =>
      have hnot : skipping (fun _ => true)
          (matchHere (.beginText :: (glob.map globAtom ++ [.endText]))) false text = false := by
        induction text with
        | nil => rfl
        | cons c text ih =>
            rw [skipping, matchHere, Bool.false_and, Bool.false_or, Bool.true_and]
            exact ih
      rw [skipping, hnot, Bool.and_false, Bool.or_false, matchHere, Bool.true_and]

end GlobRegexp
