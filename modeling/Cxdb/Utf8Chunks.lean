import Mathlib.Data.List.Basic
import Mathlib.Data.List.Forall2
import Cxdb.ByteFormat

/-!
# Text in Chunks of Bytes

A text of UTF-8 arrives in chunks, and each chunk is decoded on its own, with a replacement
character for every byte sequence that is no character. A character whose bytes are in one chunk
is decoded as it is. Of one whose bytes are in several chunks nothing is left but replacement
characters, one at least for each of the chunks.

## Main results

* `lossy_encode`: text is decoded as it is.
* `lossy_chunks`: what is decoded of a text that is cut into chunks.
* `exists_pieces`: the same, with a list of the characters and what is seen of each.
-/

namespace Utf8Chunks

open ByteFormat

/-- The bytes of a text. -/
def encode (cs : List Char) : Bytes := cs.flatMap String.utf8EncodeChar

theorem encode_cons (c : Char) (cs : List Char) :
    encode (c :: cs) = String.utf8EncodeChar c ++ encode cs := rfl

theorem length_encode_cons (c : Char) (cs : List Char) :
    (encode (c :: cs)).length = c.utf8Size + (encode cs).length := by
  rw [encode_cons, List.length_append, String.length_utf8EncodeChar]

theorem encode_append (cs cs' : List Char) : encode (cs ++ cs') = encode cs ++ encode cs' :=
  List.flatMap_append

/-- The bytes of lines with a separator. -/
theorem encode_intercalate (sep : List Char) (lines : List (List Char)) :
    encode (List.intercalate sep lines) =
      List.intercalate (encode sep) (lines.map encode) := by
  cases lines with
  | nil => rfl
  | cons line lines =>
      induction lines generalizing line with
      | nil => simp [List.intercalate]
      | cons line' lines ih =>
          rw [List.intercalate_cons_cons, List.map_cons, List.map_cons,
            List.intercalate_cons_cons, encode_append, encode_append, ih line', List.map_cons]

/-- The character that the bytes begin with, if they begin with one. -/
def decodeChar (bs : Bytes) : Option Char := bs.toByteArray.utf8DecodeChar? 0

/-- U+FFFD. -/
def replacement : Char := '\uFFFD'

/-- Which bytes can follow the first byte of a character. -/
def followers (lead : UInt8) : List (UInt8 × UInt8) :=
  if 0xC2 ≤ lead ∧ lead ≤ 0xDF then [(0x80, 0xBF)]
  else if lead = 0xE0 then [(0xA0, 0xBF), (0x80, 0xBF)]
  else if lead = 0xED then [(0x80, 0x9F), (0x80, 0xBF)]
  else if 0xE1 ≤ lead ∧ lead ≤ 0xEF then [(0x80, 0xBF), (0x80, 0xBF)]
  else if lead = 0xF0 then [(0x90, 0xBF), (0x80, 0xBF), (0x80, 0xBF)]
  else if 0xF1 ≤ lead ∧ lead ≤ 0xF3 then [(0x80, 0xBF), (0x80, 0xBF), (0x80, 0xBF)]
  else if lead = 0xF4 then [(0x80, 0x8F), (0x80, 0xBF), (0x80, 0xBF)]
  else []

/-- How many bytes are as they should be. -/
def matching : List (UInt8 × UInt8) → Bytes → ℕ
  | r :: rs, b :: bs => if r.1 ≤ b ∧ b ≤ r.2 then 1 + matching rs bs else 0
  | _, _ => 0

/-- The bytes that one replacement character stands for: as far as a character could go on. -/
def badLength : Bytes → ℕ
  | [] => 0
  | b :: bs => 1 + matching (followers b) bs

/-- `from_utf8_lossy`, for at most `n` characters. -/
def lossyFrom : ℕ → Bytes → List Char
  | 0, _ => []
  | _ + 1, [] => []
  | n + 1, b :: bs =>
      match decodeChar (b :: bs) with
      | some c => c :: lossyFrom n ((b :: bs).drop c.utf8Size)
      | none => replacement :: lossyFrom n ((b :: bs).drop (badLength (b :: bs)))

/-- `from_utf8_lossy`. -/
def lossy (bs : Bytes) : List Char := lossyFrom bs.length bs

/-! ### Decoding -/

theorem lossyFrom_of_le {n : ℕ} {bs : Bytes} (h : bs.length ≤ n) : lossyFrom n bs = lossy bs := by
  have hfuel : ∀ (n m : ℕ) (bs : Bytes), bs.length ≤ n → bs.length ≤ m →
      lossyFrom n bs = lossyFrom m bs := by
    intro n
    induction n with
    | zero =>
        intro m bs hn _
        obtain rfl := List.length_eq_zero_iff.mp (Nat.le_zero.mp hn)
        cases m <;> rfl
    | succ n ih =>
        intro m bs hn hm
        cases bs with
        | nil => cases m <;> rfl
        | cons b bs =>
            obtain ⟨m, rfl⟩ : ∃ k, m = k + 1 := ⟨m - 1, by simp at hm; omega⟩
            have hdrop : ∀ k, 0 < k → lossyFrom n ((b :: bs).drop k) =
                lossyFrom m ((b :: bs).drop k) := by
              intro k hk
              simp only [List.length_cons] at hn hm
              refine ih m _ ?_ ?_ <;> rw [List.length_drop, List.length_cons] <;> omega
            rw [lossyFrom, lossyFrom]
            cases decodeChar (b :: bs) with
            | some c => simp only [hdrop _ c.utf8Size_pos]
            | none => simp only [hdrop (badLength (b :: bs)) (by rw [badLength]; omega)]
  exact hfuel n bs.length bs h le_rfl

theorem lossy_nil : lossy [] = [] := rfl

theorem decodeChar_append (c : Char) (rest : Bytes) :
    decodeChar (String.utf8EncodeChar c ++ rest) = some c := by
  rw [decodeChar, List.toByteArray_append]
  exact ByteArray.utf8DecodeChar?_utf8EncodeChar_append

/-- A character is decoded only where its bytes are. -/
theorem eq_of_decodeChar {bs : Bytes} {c : Char} (h : decodeChar bs = some c) :
    ∃ rest, bs = String.utf8EncodeChar c ++ rest := by
  obtain ⟨l, hl⟩ := ByteArray.exists_of_utf8DecodeChar?_eq_some h
  refine ⟨l.data.toList, ?_⟩
  have hdata := congrArg (fun b : ByteArray => b.data.toList) hl
  simpa only [ByteArray.data_append, Array.toList_append, List.toList_data_toByteArray] using hdata

theorem lossy_char (c : Char) (rest : Bytes) :
    lossy (String.utf8EncodeChar c ++ rest) = c :: lossy rest := by
  have hlen := String.length_utf8EncodeChar c
  obtain ⟨b, bs, hcons⟩ : ∃ b bs, String.utf8EncodeChar c ++ rest = b :: bs := by
    cases he : String.utf8EncodeChar c with
    | nil =>
        have := c.utf8Size_pos
        rw [he, List.length_nil] at hlen
        omega
    | cons b bs => exact ⟨b, bs ++ rest, rfl⟩
  have hdecode := decodeChar_append c rest
  have hdrop : (String.utf8EncodeChar c ++ rest).drop c.utf8Size = rest := by
    rw [← hlen, List.drop_left]
  have hrest : rest.length ≤ bs.length := by
    have htotal := congrArg List.length hcons
    have := c.utf8Size_pos
    rw [List.length_append, hlen, List.length_cons] at htotal
    omega
  rw [lossy, hcons, List.length_cons, lossyFrom, ← hcons, hdecode]
  simp only [hdrop, lossyFrom_of_le hrest]

/-- **Text is decoded as it is.** -/
theorem lossy_encode (cs : List Char) (rest : Bytes) :
    lossy (encode cs ++ rest) = cs ++ lossy rest := by
  induction cs with
  | nil => rfl
  | cons c cs ih =>
      rw [encode_cons, List.append_assoc, lossy_char, ih, List.cons_append]

theorem lossy_bad {b : UInt8} {bs : Bytes} (h : decodeChar (b :: bs) = none) :
    lossy (b :: bs) = replacement :: lossy (bs.drop (matching (followers b) bs)) := by
  rw [lossy, List.length_cons, lossyFrom, h]
  simp only [badLength, Nat.add_comm 1, List.drop_succ_cons]
  rw [lossyFrom_of_le (by simp)]

/-! ### Parts of a character -/

/-- Bytes that no character begins with. -/
def Tail (bs : Bytes) : Prop := ∀ b ∈ bs, ¬ b.IsUTF8FirstByte

set_option maxRecDepth 2000 in
theorem followers_eq_nil {b : UInt8} (h : ¬ b.IsUTF8FirstByte) : followers b = [] := by
  have hall : ∀ n : Fin 256, ¬ (UInt8.ofFin n).IsUTF8FirstByte → followers (UInt8.ofFin n) = [] := by
    decide
  exact hall b.toFin h

theorem decodeChar_eq_none {b : UInt8} {bs : Bytes} (h : ¬ b.IsUTF8FirstByte) :
    decodeChar (b :: bs) = none := by
  rw [decodeChar, ← Option.not_isSome_iff_eq_none]
  intro hsome
  refine h ?_
  have hfirst := ByteArray.isUTF8FirstByte_of_isSome_utf8DecodeChar? hsome
  simpa using hfirst

/-- Each of these bytes is replaced. -/
theorem lossy_tail {q : Bytes} (hq : Tail q) (rest : Bytes) :
    lossy (q ++ rest) = List.replicate q.length replacement ++ lossy rest := by
  induction q with
  | nil => rfl
  | cons b q ih =>
      have hb := hq b List.mem_cons_self
      rw [List.cons_append, lossy_bad (decodeChar_eq_none hb), followers_eq_nil hb]
      have hmatching : matching [] (q ++ rest) = 0 := by
        cases q ++ rest <;> rfl
      rw [hmatching, List.drop_zero, ih fun b' hb' => hq b' (List.mem_cons_of_mem _ hb')]
      rfl

theorem tail_of_encode {c : Char} {p s : Bytes} (h : String.utf8EncodeChar c = p ++ s)
    (hp : p ≠ []) : Tail s := by
  intro b hb
  obtain ⟨i, hi, rfl⟩ := List.getElem_of_mem hb
  have hlen : p.length + i < (String.utf8EncodeChar c).length := by
    rw [h, List.length_append]
    omega
  have hpos : 0 < p.length := List.length_pos_of_ne_nil hp
  have hfirst := @UInt8.isUTF8FirstByte_getElem_utf8EncodeChar c (p.length + i) hlen
  have hget : (String.utf8EncodeChar c)[p.length + i] = s[i] := by
    simp only [h]
    rw [List.getElem_append_right (by omega)]
    simp
  rw [hget] at hfirst
  exact fun hs => by have := hfirst.mp hs; omega

/-- A part of a character at the end of a chunk is replaced. -/
theorem lossy_part {c : Char} {p s : Bytes} (h : String.utf8EncodeChar c = p ++ s)
    (hp : p ≠ []) (hs : s ≠ []) : ∃ k, lossy p = List.replicate (k + 1) replacement := by
  obtain ⟨b, bs, rfl⟩ := List.exists_cons_of_ne_nil hp
  have hnone : decodeChar (b :: bs) = none := by
    cases hd : decodeChar (b :: bs) with
    | none => rfl
    | some c' =>
        obtain ⟨rest, hrest⟩ := eq_of_decodeChar hd
        have hc : some c' = some c := by
          rw [← decodeChar_append c' (rest ++ s), ← decodeChar_append c [], List.append_nil, h,
            hrest, List.append_assoc]
        obtain rfl := Option.some.inj hc
        have hlen := congrArg List.length h
        have hlen' := congrArg List.length hrest
        have := List.length_pos_of_ne_nil hs
        simp only [List.length_append] at hlen hlen'
        omega
  have htail : Tail bs := fun b' hb' =>
    tail_of_encode (c := c) (p := [b]) (s := bs ++ s) (by rw [h]; rfl) (List.cons_ne_nil _ _) b'
      (List.mem_append_left _ hb')
  refine ⟨(bs.drop (matching (followers b) bs)).length, ?_⟩
  have hrest := lossy_tail (q := bs.drop (matching (followers b) bs))
    (fun b' hb' => htail b' (List.mem_of_mem_drop hb')) []
  rw [List.append_nil] at hrest
  rw [lossy_bad hnone, hrest]
  rw [lossy_nil, List.append_nil, List.replicate_succ]

/-! ### Chunks -/

/-- Where chunks begin and end, when the first one begins at `o`. -/
def cutsFrom : ℕ → List Bytes → List ℕ
  | o, [] => [o]
  | o, b :: chunks => o :: cutsFrom (o + b.length) chunks

/-- The characters of a text at `o`, and whether a cut is between the bytes of each. -/
def marked (cuts : List ℕ) : ℕ → List Char → List (Char × Bool)
  | _, [] => []
  | o, c :: cs =>
      (c, cuts.any fun n => o < n && n < o + c.utf8Size) :: marked cuts (o + c.utf8Size) cs

theorem marked_map_fst (cuts : List ℕ) (o : ℕ) (cs : List Char) :
    (marked cuts o cs).map Prod.fst = cs := by
  induction cs generalizing o with
  | nil => rfl
  | cons c cs ih => rw [marked, List.map_cons, ih]

theorem marked_append (cuts : List ℕ) (o : ℕ) (cs cs' : List Char) :
    marked cuts o (cs ++ cs') =
      marked cuts o cs ++ marked cuts (o + (encode cs).length) cs' := by
  induction cs generalizing o with
  | nil => rfl
  | cons c cs ih =>
      rw [List.cons_append, marked, marked, ih, length_encode_cons, Nat.add_assoc,
        List.cons_append]

/-- Cuts before a text do not matter for it. -/
theorem marked_cons_of_le {cuts : List ℕ} {n o : ℕ} (h : n ≤ o) (cs : List Char) :
    marked (n :: cuts) o cs = marked cuts o cs := by
  induction cs generalizing o with
  | nil => rfl
  | cons c cs ih =>
      rw [marked, marked, ih (h.trans (Nat.le_add_right _ _)), List.any_cons]
      simp [Nat.not_lt.mpr h]

/-- A text between two cuts is not cut. -/
theorem marked_between {cuts : List ℕ} {o : ℕ} {cs : List Char}
    (h : ∀ n ∈ cuts, o + (encode cs).length ≤ n) : marked cuts o cs = cs.map (·, false) := by
  induction cs generalizing o with
  | nil => rfl
  | cons c cs ih =>
      rw [length_encode_cons] at h
      rw [marked, List.map_cons, ih fun n hn => by have := h n hn; omega]
      congr 2
      rw [List.any_eq_false]
      intro n hn
      have := h n hn
      simp only [Bool.and_eq_true, decide_eq_true_eq]
      omega

theorem le_of_mem_cutsFrom {o n : ℕ} {chunks : List Bytes} (h : n ∈ cutsFrom o chunks) :
    o ≤ n := by
  induction chunks generalizing o with
  | nil => exact (List.mem_singleton.mp h).ge
  | cons b chunks ih =>
      rcases List.mem_cons.mp h with rfl | h
      · exact le_rfl
      · exact (Nat.le_add_right _ _).trans (ih h)

theorem self_mem_cutsFrom (o : ℕ) (chunks : List Bytes) : o ∈ cutsFrom o chunks := by
  cases chunks <;> simp [cutsFrom]

/-- What is decoded of a character: itself, or replacement characters, two at least, when it is
cut. -/
def Shows (m : Char × Bool) (seen : List Char) : Prop :=
  if m.2 then ∃ k, seen = List.replicate (k + 2) replacement else seen = [m.1]

/-- What is decoded of a text, character by character. -/
def Shown (ms : List (Char × Bool)) (seen : List Char) : Prop :=
  ∃ pieces, List.Forall₂ Shows ms pieces ∧ seen = pieces.flatten

theorem Shown.append {ms ms' : List (Char × Bool)} {seen seen' : List Char} (h : Shown ms seen)
    (h' : Shown ms' seen') : Shown (ms ++ ms') (seen ++ seen') := by
  obtain ⟨pieces, hpieces, rfl⟩ := h
  obtain ⟨pieces', hpieces', rfl⟩ := h'
  exact ⟨pieces ++ pieces', List.rel_append hpieces hpieces', (List.flatten_append ..).symm⟩

theorem Shown.unmarked (cs : List Char) : Shown (cs.map (·, false)) cs := by
  induction cs with
  | nil => exact ⟨[], .nil, rfl⟩
  | cons c cs ih =>
      have hc : Shown [(c, false)] [c] := ⟨[[c]], .cons rfl .nil, rfl⟩
      exact hc.append ih

/-- Where a text is cut: between two characters or inside one. -/
theorem encode_eq_append {cs : List Char} {b r : Bytes} (h : encode cs = b ++ r) :
    (∃ cs₁ cs₂, cs = cs₁ ++ cs₂ ∧ b = encode cs₁ ∧ r = encode cs₂) ∨
      ∃ cs₁ c cs₂ p s, cs = cs₁ ++ c :: cs₂ ∧ String.utf8EncodeChar c = p ++ s ∧ p ≠ [] ∧
        s ≠ [] ∧ b = encode cs₁ ++ p ∧ r = s ++ encode cs₂ := by
  induction cs generalizing b with
  | nil =>
      obtain ⟨rfl, rfl⟩ := List.append_eq_nil_iff.mp h.symm
      exact .inl ⟨[], [], rfl, rfl, rfl⟩
  | cons c cs ih =>
      rw [encode_cons] at h
      rcases List.append_eq_append_iff.mp h with ⟨as, hb, hcs⟩ | ⟨as, hc, hr⟩
      · rcases ih hcs with ⟨cs₁, cs₂, rfl, rfl, rfl⟩ | ⟨cs₁, c', cs₂, p, s, rfl, hc', hp, hs, rfl, rfl⟩
        · exact .inl ⟨c :: cs₁, cs₂, rfl, hb, rfl⟩
        · exact .inr ⟨c :: cs₁, c', cs₂, p, s, rfl, hc', hp, hs,
            by rw [hb, ← List.append_assoc]; rfl, rfl⟩
      · by_cases hb : b = []
        · subst hb
          exact .inl ⟨[], c :: cs, rfl, rfl, by rw [encode_cons, hr, hc, List.nil_append]⟩
        · by_cases has : as = []
          · subst has
            exact .inl ⟨[c], cs, rfl, by simpa [encode] using hc.symm, hr⟩
          · exact .inr ⟨[], c, cs, b, as, rfl, hc, hb, has, rfl, hr⟩

/-- **A text in chunks.** Of what is left of a character that was cut there are replacement
characters; the characters behind it are seen as they are, unless they are cut. -/
theorem lossy_chunks (o : ℕ) (chunks : List Bytes) (q : Bytes) (cs : List Char) (hq : Tail q)
    (h : chunks.flatten = q ++ encode cs) :
    ∃ k seen, (k = 0 ↔ q = []) ∧ Shown (marked (cutsFrom o chunks) (o + q.length) cs) seen ∧
      chunks.flatMap lossy = List.replicate k replacement ++ seen := by
  induction chunks generalizing o q cs with
  | nil =>
      obtain ⟨rfl, hcs⟩ := List.append_eq_nil_iff.mp h.symm
      obtain rfl : cs = [] := by
        cases cs with
        | nil => rfl
        | cons c cs =>
            have hlen := congrArg List.length hcs
            have := c.utf8Size_pos
            rw [length_encode_cons, List.length_nil] at hlen
            omega
      exact ⟨0, [], by simp, ⟨[], .nil, rfl⟩, rfl⟩
  | cons b chunks ih =>
      rw [List.flatten_cons] at h
      rw [cutsFrom, marked_cons_of_le (Nat.le_add_right _ _), List.flatMap_cons]
      rcases List.append_eq_append_iff.mp h with ⟨q', rfl, hrest⟩ | ⟨b', rfl, hrest⟩
      · -- the chunk lies within what is left of the character
        obtain ⟨k, seen, hk, hseen, htext⟩ := ih (o + b.length) q' cs
          (fun x hx => hq x (List.mem_append_right _ hx)) hrest
        have hlossy := lossy_tail (q := b) (fun x hx => hq x (List.mem_append_left _ hx)) []
        rw [List.append_nil] at hlossy
        refine ⟨b.length + k, seen, ?_, ?_, ?_⟩
        · simp [hk]
        · rwa [List.length_append, ← Nat.add_assoc]
        · rw [hlossy, htext, lossy_nil, List.append_nil, ← List.append_assoc,
            List.replicate_append_replicate]
      · -- the chunk goes on with characters of the text
        have hcut : ∀ n ∈ cutsFrom (o + (q ++ b').length) chunks, o + (q ++ b').length ≤ n :=
          fun n hn => le_of_mem_cutsFrom hn
        have hlossy := lossy_tail hq b'
        rcases encode_eq_append hrest with ⟨cs₁, cs₂, rfl, rfl, hcs₂⟩ |
          ⟨cs₁, c, cs₂, p, s, rfl, hc, hp, hs, rfl, hcs₂⟩
        · obtain ⟨k, seen, hk, hseen, htext⟩ := ih (o + (q ++ encode cs₁).length) [] cs₂ nofun hcs₂
          obtain rfl := hk.mpr rfl
          have hcs₁ := lossy_encode cs₁ []
          rw [List.append_nil] at hcs₁
          refine ⟨q.length, cs₁ ++ seen, by simp, ?_, ?_⟩
          · rw [marked_append]
            refine .append ?_ ?_
            · rw [marked_between fun n hn => by
                have := hcut n hn
                rw [List.length_append] at this
                omega]
              exact .unmarked cs₁
            · rw [List.length_append, ← Nat.add_assoc, List.length_nil, Nat.add_zero] at hseen
              rwa [List.length_append, ← Nat.add_assoc]
          · rw [hlossy, hcs₁, htext, lossy_nil, List.append_nil, List.replicate_zero,
              List.nil_append, List.append_assoc]
        · obtain ⟨k, seen, hk, hseen, htext⟩ := ih (o + (q ++ (encode cs₁ ++ p)).length) s cs₂
            (tail_of_encode hc hp) hcs₂
          obtain ⟨k, rfl⟩ := Nat.exists_eq_succ_of_ne_zero (mt hk.mp hs)
          obtain ⟨j, hj⟩ := lossy_part hc hp hs
          refine ⟨q.length, cs₁ ++ (List.replicate (j + k + 2) replacement ++ seen), by simp,
            ?_, ?_⟩
          · rw [marked_append]
            refine .append ?_ ?_
            · rw [marked_between fun n hn => by
                have := hcut n hn
                simp only [List.length_append] at this
                omega]
              exact .unmarked cs₁
            · have hsize : c.utf8Size = p.length + s.length := by
                rw [← String.length_utf8EncodeChar, hc, List.length_append]
              have hp' := List.length_pos_of_ne_nil hp
              have hs' := List.length_pos_of_ne_nil hs
              -- the end of the chunk is inside this character
              have hmark : (cutsFrom (o + (q ++ (encode cs₁ ++ p)).length) chunks).any
                  (fun n => o + q.length + (encode cs₁).length < n &&
                    n < o + q.length + (encode cs₁).length + c.utf8Size) = true := by
                rw [List.any_eq_true]
                refine ⟨_, self_mem_cutsFrom _ _, ?_⟩
                simp only [List.length_append, Bool.and_eq_true, decide_eq_true_eq]
                omega
              rw [marked, hmark]
              have hcut : Shown [(c, true)] (List.replicate (j + k + 2) replacement) :=
                ⟨[List.replicate (j + k + 2) replacement], .cons ⟨j + k, rfl⟩ .nil, by simp⟩
              refine hcut.append ?_
              convert hseen using 2
              simp only [List.length_append]
              omega
          · rw [hlossy, lossy_encode, hj, htext]
            rw [show j + k + 2 = (j + 1) + (k + 1) by omega, List.replicate_add (j + 1)]
            simp only [List.append_assoc]

/-- A character of a text, and what is seen of it. Only a character of several bytes is cut. -/
structure Piece where
  char : Char
  isCut : Bool
  seen : List Char
  shows : Shows (char, isCut) seen
  large : isCut = true → 1 < char.utf8Size

namespace Piece

theorem seen_of_uncut {p : Piece} (h : p.isCut = false) : p.seen = [p.char] := by
  have hp := p.shows
  rwa [Shows, if_neg (by simp [h])] at hp

theorem seen_of_cut {p : Piece} (h : p.isCut = true) :
    ∃ k, p.seen = List.replicate (k + 2) replacement := by
  have hp := p.shows
  rwa [Shows, if_pos h] at hp

/-- A cut character is not ASCII. -/
theorem lt_of_cut {p : Piece} (h : p.isCut = true) : 127 < p.char.val := by
  have hlarge := p.large h
  by_contra hle
  rw [UInt32.not_lt, ← Char.utf8Size_eq_one_iff] at hle
  omega

end Piece

theorem large_of_marked {cuts : List ℕ} {o : ℕ} {cs : List Char} {m : Char × Bool}
    (h : m ∈ marked cuts o cs) (hm : m.2 = true) : 1 < m.1.utf8Size := by
  induction cs generalizing o with
  | nil => exact absurd h List.not_mem_nil
  | cons c cs ih =>
      rcases List.mem_cons.mp h with rfl | h
      · obtain ⟨n, -, hn⟩ := List.any_eq_true.mp hm
        simp only [Bool.and_eq_true, decide_eq_true_eq] at hn
        dsimp only
        omega
      · exact ih h

/-- **A text in chunks, character by character.** -/
theorem exists_pieces {chunks : List Bytes} {cs : List Char} (h : chunks.flatten = encode cs) :
    ∃ ps : List Piece, ps.map (fun p => (p.char, p.isCut)) = marked (cutsFrom 0 chunks) 0 cs ∧
      chunks.flatMap lossy = ps.flatMap Piece.seen := by
  obtain ⟨k, seen, hk, ⟨pieces, hpieces, rfl⟩, htext⟩ := lossy_chunks 0 chunks [] cs nofun h
  obtain rfl := hk.mpr rfl
  have hlist : ∀ {ms : List (Char × Bool)} {pieces : List (List Char)},
      List.Forall₂ Shows ms pieces → (∀ m ∈ ms, m.2 = true → 1 < m.1.utf8Size) →
        ∃ ps : List Piece, ps.map (fun p => (p.char, p.isCut)) = ms ∧
          pieces.flatten = ps.flatMap Piece.seen := by
    intro ms pieces hshows
    induction hshows with
    | nil => exact fun _ => ⟨[], rfl, rfl⟩
    | @cons m piece ms pieces hm _ ih =>
        intro hlarge
        obtain ⟨ps, hps, hseen⟩ := ih fun m' hm' => hlarge m' (List.mem_cons_of_mem _ hm')
        refine ⟨⟨m.1, m.2, piece, hm, hlarge m List.mem_cons_self⟩ :: ps, ?_, ?_⟩
        · rw [List.map_cons, hps]
        · rw [List.flatten_cons, hseen, List.flatMap_cons]
  obtain ⟨ps, hps, hseen⟩ := hlist hpieces fun m hm => large_of_marked hm
  rw [List.length_nil, Nat.add_zero] at hps
  exact ⟨ps, hps, by rw [htext, hseen, List.replicate_zero, List.nil_append]⟩

end Utf8Chunks
