import Cxdb.ByteFormat
import Mathlib.Data.Nat.Digits.Lemmas

/-!
# Chunked Bodies

The chunked transfer coding of HTTP: a message is sent as its length in hexadecimal, a line
break, its bytes and another line break. A receiver takes the chunks off the stream and sees
the bytes of the messages, one after another.

## Main results

* `readChunk_chunk`: the first chunk is read back, whatever follows.
* `dechunk_chunks`: the receiver sees the messages.
-/

open ByteFormat

namespace ChunkedBody

/-! ### Hexadecimal numbers -/

/-- A digit of `{:x}`. -/
def hexDigit (n : ℕ) : UInt8 :=
  if n < 10 then UInt8.ofNat (48 + n) else UInt8.ofNat (87 + n)

/-- The value of a hexadecimal digit, in lower or upper case. -/
def hexValue (b : UInt8) : Option ℕ :=
  if 48 ≤ b ∧ b ≤ 57 then some (b.toNat - 48)
  else if 97 ≤ b ∧ b ≤ 102 then some (b.toNat - 87)
  else if 65 ≤ b ∧ b ≤ 70 then some (b.toNat - 55)
  else none

/-- `{:x}`. -/
def hexText (n : ℕ) : Bytes :=
  if n = 0 then [hexDigit 0] else ((Nat.digits 16 n).map hexDigit).reverse

theorem hexValue_hexDigit {n : ℕ} (h : n < 16) : hexValue (hexDigit n) = some n := by
  revert n
  decide

/-- The text of a number consists of digits that denote it. -/
theorem hexText_eq (n : ℕ) : ∃ ds : List ℕ, ds ≠ [] ∧ (∀ d ∈ ds, d < 16) ∧
    Nat.ofDigits 16 ds = n ∧ hexText n = (ds.map hexDigit).reverse := by
  by_cases hn : n = 0
  · exact ⟨[0], by simp, by simp, by simp [hn], by simp [hexText, hn]⟩
  · refine ⟨Nat.digits 16 n, Nat.digits_ne_nil_iff_ne_zero.mpr hn,
      fun d hd => Nat.digits_lt_base (by decide) hd, Nat.ofDigits_digits 16 n, ?_⟩
    rw [hexText, if_neg hn]

/-! ### Chunks -/

/-- The line break of HTTP. -/
def crlf : Bytes := [13, 10]

/-- A message as it is sent. -/
def chunk (message : Bytes) : Bytes :=
  hexText message.length ++ crlf ++ message ++ crlf

/-- The size of the next chunk, and what follows its line. -/
def readSize (bs : Bytes) : Option (ℕ × Bytes) :=
  let digits := bs.takeWhile fun b => (hexValue b).isSome
  match bs.dropWhile fun b => (hexValue b).isSome with
  | 13 :: 10 :: rest =>
      if digits = [] then none
      else some (Nat.ofDigits 16 (digits.filterMap hexValue).reverse, rest)
  | _ => none

/-- The next chunk; `none` at the last one, which is empty, and where a chunk is not all
there. -/
def readChunk (bs : Bytes) : Option (Bytes × Bytes) :=
  match readSize bs with
  | none => none
  | some (size, body) =>
      if size = 0 then none
      else
        match body.drop size with
        | 13 :: 10 :: rest => some (body.take size, rest)
        | _ => none

theorem readSize_length {bs rest : Bytes} {size : ℕ} (h : readSize bs = some (size, rest)) :
    rest.length < bs.length := by
  rw [readSize] at h
  split at h
  next hbs =>
    split at h
    · cases h
    · obtain ⟨-, rfl⟩ := Prod.mk.inj (Option.some.inj h)
      have hle := (List.dropWhile_suffix (l := bs) fun b => (hexValue b).isSome).length_le
      rw [hbs] at hle
      exact lt_of_lt_of_le (by simp only [List.length_cons]; omega) hle
  · cases h

theorem readChunk_length {bs data rest : Bytes} (h : readChunk bs = some (data, rest)) :
    rest.length < bs.length := by
  rw [readChunk] at h
  split at h
  · cases h
  next size body hsize =>
    split at h
    · cases h
    split at h
    next hbody =>
      obtain ⟨-, rfl⟩ := Prod.mk.inj (Option.some.inj h)
      have hle := (List.drop_suffix size body).length_le
      rw [hbody] at hle
      simp only [List.length_cons] at hle
      exact lt_of_le_of_lt (by omega) (readSize_length hsize)
    · cases h

/-- What the receiver of a chunked stream sees. -/
def dechunk (bs : Bytes) : Bytes :=
  match _h : readChunk bs with
  | none => []
  | some (data, rest) => data ++ dechunk rest
termination_by bs.length
decreasing_by exact readChunk_length _h

/-! ### Reading back -/

theorem readSize_hexText (n : ℕ) (rest : Bytes) :
    readSize (hexText n ++ crlf ++ rest) = some (n, rest) := by
  obtain ⟨ds, hne, hlt, hvalue, htext⟩ := hexText_eq n
  have hdigits : ∀ b ∈ hexText n, (hexValue b).isSome = true := by
    intro b hb
    rw [htext, List.mem_reverse] at hb
    obtain ⟨d, hd, rfl⟩ := List.mem_map.mp hb
    rw [hexValue_hexDigit (hlt d hd)]
    rfl
  have hvalues : (hexText n).filterMap hexValue = ds.reverse := by
    rw [htext, ← List.map_reverse, List.filterMap_map]
    have hsome : ∀ d ∈ ds.reverse, (hexValue ∘ hexDigit) d = some d := fun d hd =>
      hexValue_hexDigit (hlt d (List.mem_reverse.mp hd))
    rw [List.filterMap_congr hsome, List.filterMap_some]
  have hbreak : (crlf ++ rest).takeWhile (fun b => (hexValue b).isSome) = [] ∧
      (crlf ++ rest).dropWhile (fun b => (hexValue b).isSome) = 13 :: 10 :: rest :=
    ⟨rfl, rfl⟩
  rw [readSize, List.append_assoc, List.takeWhile_append_of_pos hdigits,
    List.dropWhile_append_of_pos hdigits, hbreak.1, hbreak.2, List.append_nil]
  have hnonempty : hexText n ≠ [] := by simpa [htext] using hne
  simp only [if_neg hnonempty, hvalues, List.reverse_reverse, hvalue]

/-- **A chunk is read back.** -/
theorem readChunk_chunk {message : Bytes} (h : message ≠ []) (rest : Bytes) :
    readChunk (chunk message ++ rest) = some (message, rest) := by
  have hchunk : chunk message ++ rest =
      hexText message.length ++ crlf ++ (message ++ crlf ++ rest) := by
    simp only [chunk, List.append_assoc]
  have hlength : message.length ≠ 0 := fun h0 => h (List.length_eq_zero_iff.mp h0)
  have hdrop : (message ++ crlf ++ rest).drop message.length = 13 :: 10 :: rest := by
    rw [List.append_assoc, List.drop_left]
    rfl
  rw [readChunk, hchunk, readSize_hexText]
  simp only [if_neg hlength, hdrop]
  rw [List.append_assoc, List.take_left]

/-- **The receiver sees the messages.** -/
theorem dechunk_chunks {messages : List Bytes} (h : ∀ m ∈ messages, m ≠ []) :
    dechunk (messages.flatMap chunk) = messages.flatten := by
  induction messages with
  | nil =>
      rw [dechunk]
      rfl
  | cons m messages ih =>
      obtain ⟨hm, hrest⟩ := List.forall_mem_cons.mp h
      rw [List.flatMap_cons, dechunk, readChunk_chunk hm, List.flatten_cons]
      exact congrArg (m ++ ·) (ih hrest)

end ChunkedBody
