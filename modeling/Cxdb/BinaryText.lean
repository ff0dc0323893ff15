import Cxdb.ByteFormat

/-!
# Bytes as Text

Hexadecimal text, two digits for each byte, and base64 text with padding: four characters for
three bytes, of an alphabet to which the hexadecimal digits belong. Padded text is read only if
it is canonical: no bits are left over.

## Main results

* `Hex.decode_encode`, `Base64.decode_encode`: what is written is read back.
* `Base64.decode_plain`, `Base64.decode_odd`: a text of the alphabet is read whenever its length
  is a multiple of four, whatever it was written for.
* `Base64.decode_hex_even`: so is the hexadecimal text of an even number of bytes.
-/

open ByteFormat

/-! ### Hexadecimal text -/

namespace Hex

/-- The digit of a number below sixteen. -/
def digit (n : ℕ) : Char := if n < 10 then Char.ofNat (48 + n) else Char.ofNat (87 + n)

/-- The number of a digit, in lower or upper case. -/
def value (c : Char) : Option ℕ :=
  if '0' ≤ c ∧ c ≤ '9' then some (c.toNat - 48)
  else if 'a' ≤ c ∧ c ≤ 'f' then some (c.toNat - 87)
  else if 'A' ≤ c ∧ c ≤ 'F' then some (c.toNat - 55)
  else none

def encode (bs : Bytes) : List Char :=
  bs.flatMap fun b => [digit (b.toNat / 16), digit (b.toNat % 16)]

def decode : List Char → Option Bytes
  | [] => some []
  | [_] => none
  | h :: l :: rest => do
    let high ← value h
    let low ← value l
    let bs ← decode rest
    some (UInt8.ofNat (high * 16 + low) :: bs)

theorem value_digit {n : ℕ} (h : n < 16) : value (digit n) = some n := by
  revert n
  decide

/-- **What is written is read back.** -/
theorem decode_encode (bs : Bytes) : decode (encode bs) = some bs := by
  induction bs with
  | nil => rfl
  | cons b bs ih =>
      have hb := b.toNat_lt
      have hhigh := value_digit (show b.toNat / 16 < 16 by omega)
      have hlow := value_digit (show b.toNat % 16 < 16 by omega)
      have hsplit : encode (b :: bs) =
          digit (b.toNat / 16) :: digit (b.toNat % 16) :: encode bs := rfl
      rw [hsplit, decode, hhigh, hlow, ih]
      simp only [Option.bind_eq_bind, Option.bind_some]
      rw [Nat.mul_comm, Nat.div_add_mod, UInt8.ofNat_toNat]

theorem length_encode (bs : Bytes) : (encode bs).length = 2 * bs.length := by
  induction bs with
  | nil => rfl
  | cons b bs ih =>
      have hsplit : encode (b :: bs) =
          digit (b.toNat / 16) :: digit (b.toNat % 16) :: encode bs := rfl
      rw [hsplit, List.length_cons, List.length_cons, ih, List.length_cons]
      omega

/-- A written text consists of digits. -/
theorem exists_digit_of_mem_encode {bs : Bytes} {c : Char} (h : c ∈ encode bs) :
    ∃ n < 16, c = digit n := by
  obtain ⟨b, -, hc⟩ := List.mem_flatMap.mp h
  have hb := b.toNat_lt
  simp only [List.mem_cons, List.not_mem_nil, or_false] at hc
  rcases hc with rfl | rfl
  · exact ⟨b.toNat / 16, by omega, rfl⟩
  · exact ⟨b.toNat % 16, by omega, rfl⟩

end Hex

/-! ### Base64 text -/

namespace Base64

/-- The character of a number below 64. -/
def char (n : ℕ) : Char :=
  if n < 26 then Char.ofNat (65 + n)
  else if n < 52 then Char.ofNat (71 + n)
  else if n < 62 then Char.ofNat (n - 4)
  else if n = 62 then '+'
  else '/'

/-- The number of a character of the alphabet. -/
def value (c : Char) : Option ℕ :=
  if 'A' ≤ c ∧ c ≤ 'Z' then some (c.toNat - 65)
  else if 'a' ≤ c ∧ c ≤ 'z' then some (c.toNat - 71)
  else if '0' ≤ c ∧ c ≤ '9' then some (c.toNat + 4)
  else if c = '+' then some 62
  else if c = '/' then some 63
  else none

def encode : Bytes → List Char
  | [] => []
  | [x] => [char (x.toNat / 4), char (x.toNat % 4 * 16), '=', '=']
  | [x, y] =>
      [char (x.toNat / 4), char (x.toNat % 4 * 16 + y.toNat / 16), char (y.toNat % 16 * 4), '=']
  | x :: y :: z :: rest =>
      char (x.toNat / 4) :: char (x.toNat % 4 * 16 + y.toNat / 16) ::
        char (y.toNat % 16 * 4 + z.toNat / 64) :: char (z.toNat % 64) :: encode rest

/-- A last group with one byte: the bits that are left over are zero. -/
def decodeOne (a b : ℕ) : Option Bytes :=
  if b % 16 = 0 then some [UInt8.ofNat (a * 4 + b / 16)] else none

/-- A last group with two bytes. -/
def decodeTwo (a b c : ℕ) : Option Bytes :=
  if c % 4 = 0 then some [UInt8.ofNat (a * 4 + b / 16), UInt8.ofNat (b % 16 * 16 + c / 4)]
  else none

/-- A group of three bytes. -/
def decodeThree (a b c d : ℕ) : Bytes :=
  [UInt8.ofNat (a * 4 + b / 16), UInt8.ofNat (b % 16 * 16 + c / 4), UInt8.ofNat (c % 4 * 64 + d)]

def decode : List Char → Option Bytes
  | [] => some []
  | a :: b :: c :: d :: rest =>
      if rest = [] ∧ d = '=' then do
        let x ← value a
        let y ← value b
        if c = '=' then decodeOne x y else decodeTwo x y (← value c)
      else do
        let x ← value a
        let y ← value b
        let z ← value c
        let w ← value d
        let bs ← decode rest
        some (decodeThree x y z w ++ bs)
  | _ => none

theorem value_char {n : ℕ} (h : n < 64) : value (char n) = some n := by
  revert n
  decide

theorem char_ne_pad {n : ℕ} (h : n < 64) : char n ≠ '=' := by
  revert n
  decide

/-- A character of the alphabet is no padding. -/
theorem ne_pad_of_value {c : Char} {n : ℕ} (h : value c = some n) : c ≠ '=' := by
  rintro rfl
  have hnone : value '=' = none := by decide
  rw [hnone] at h
  cases h

/-- The first byte of a group. -/
theorem group_first {x m : ℕ} (hm : m < 16) : x / 4 * 4 + (x % 4 * 16 + m) / 16 = x := by omega

/-- The second byte of a group. -/
theorem group_second {x y m : ℕ} (hy : y < 256) (hm : m < 4) :
    (x * 16 + y / 16) % 16 * 16 + (y % 16 * 4 + m) / 4 = y := by omega

/-- The third byte of a group. -/
theorem group_third {y z : ℕ} (hz : z < 256) : (y * 4 + z / 64) % 4 * 64 + z % 64 = z := by omega

/-- **What is written is read back.** -/
theorem decode_encode (bs : Bytes) : decode (encode bs) = some bs := by
  induction bs using encode.induct with
  | case1 => rfl
  | case2 x =>
      have hx := x.toNat_lt
      rw [encode, decode, if_pos ⟨rfl, rfl⟩, value_char (by omega), value_char (by omega)]
      simp only [Option.bind_eq_bind, Option.bind_some, if_true]
      rw [decodeOne, if_pos (by omega), ← Nat.add_zero (x.toNat % 4 * 16),
        group_first (by decide), UInt8.ofNat_toNat]
  | case3 x y =>
      have hx := x.toNat_lt
      have hy := y.toNat_lt
      rw [encode, decode, if_pos ⟨rfl, rfl⟩, value_char (by omega), value_char (by omega)]
      simp only [Option.bind_eq_bind, Option.bind_some]
      rw [if_neg (char_ne_pad (by omega)), value_char (by omega), Option.bind_some, decodeTwo,
        if_pos (by omega), group_first (by omega), ← Nat.add_zero (y.toNat % 16 * 4),
        group_second hy (by decide), UInt8.ofNat_toNat, UInt8.ofNat_toNat]
  | case4 x y z rest ih =>
      have hx := x.toNat_lt
      have hy := y.toNat_lt
      have hz := z.toNat_lt
      rw [encode, decode, if_neg (fun h => char_ne_pad (by omega) h.2), value_char (by omega),
        value_char (by omega), value_char (by omega), value_char (by omega), ih]
      simp only [Option.bind_eq_bind, Option.bind_some]
      rw [decodeThree, group_first (by omega), group_second hy (by omega), group_third hz,
        UInt8.ofNat_toNat, UInt8.ofNat_toNat, UInt8.ofNat_toNat]
      rfl

/-- A text of four characters and more. -/
theorem exists_group {s : List Char} (h : 4 ≤ s.length) :
    ∃ a b c d rest, s = a :: b :: c :: d :: rest := by
  obtain ⟨a, s, rfl⟩ := List.exists_cons_of_length_pos (show 0 < s.length by omega)
  obtain ⟨b, s, rfl⟩ := List.exists_cons_of_length_pos (show 0 < s.length by simp at h; omega)
  obtain ⟨c, s, rfl⟩ := List.exists_cons_of_length_pos (show 0 < s.length by simp at h; omega)
  obtain ⟨d, s, rfl⟩ := List.exists_cons_of_length_pos (show 0 < s.length by simp at h; omega)
  exact ⟨a, b, c, d, s, rfl⟩

/-- A text that is not a sequence of groups is not read. -/
theorem decode_odd {s : List Char} (h : s.length % 4 ≠ 0) : decode s = none := by
  induction hlen : s.length / 4 generalizing s with
  | zero =>
      rcases s with _ | ⟨a, _ | ⟨b, _ | ⟨c, _ | ⟨d, rest⟩⟩⟩⟩
      · exact absurd rfl h
      · rfl
      · rfl
      · rfl
      · simp only [List.length_cons] at hlen
        omega
  | succ n ih =>
      obtain ⟨a, b, c, d, rest, rfl⟩ := exists_group (show 4 ≤ s.length by omega)
      simp only [List.length_cons] at h hlen
      have hne : rest ≠ [] := by
        rintro rfl
        exact h rfl
      rw [decode, if_neg (fun h => hne h.1), ih (by omega) (by omega)]
      cases value a <;> cases value b <;> cases value c <;> cases value d <;> rfl

/-- **A text of the alphabet is read** whenever it is a sequence of groups. -/
theorem decode_plain {s : List Char} (hs : ∀ c ∈ s, (value c).isSome = true) {n : ℕ}
    (h : s.length = 4 * n) : ∃ bs, decode s = some bs ∧ bs.length = 3 * n := by
  induction n generalizing s with
  | zero => exact ⟨[], by rw [List.length_eq_zero_iff.mp h]; rfl, rfl⟩
  | succ n ih =>
      obtain ⟨a, b, c, d, rest, rfl⟩ := exists_group (show 4 ≤ s.length by omega)
      simp only [List.length_cons] at h
      simp only [List.forall_mem_cons] at hs
      obtain ⟨ha, hb, hc, hd, hrest⟩ := hs
      obtain ⟨x, hx⟩ := Option.isSome_iff_exists.mp ha
      obtain ⟨y, hy⟩ := Option.isSome_iff_exists.mp hb
      obtain ⟨z, hz⟩ := Option.isSome_iff_exists.mp hc
      obtain ⟨w, hw⟩ := Option.isSome_iff_exists.mp hd
      obtain ⟨bs, hbs, hlength⟩ := ih hrest (by omega)
      refine ⟨decodeThree x y z w ++ bs, ?_, ?_⟩
      · rw [decode, if_neg (fun hpad => ne_pad_of_value hw hpad.2), hx, hy, hz, hw, hbs]
        rfl
      · rw [List.length_append, hlength, decodeThree]
        simp only [List.length_cons, List.length_nil]
        omega

/-- A hexadecimal digit belongs to the alphabet. -/
theorem value_hexDigit {n : ℕ} (h : n < 16) : (value (Hex.digit n)).isSome = true := by
  revert n
  decide

/-- **Hexadecimal text as base64**: that of an even number of bytes is read, as half as many
again. -/
theorem decode_hex_even {bs : Bytes} (h : bs.length % 2 = 0) :
    ∃ bs', decode (Hex.encode bs) = some bs' ∧ bs'.length = 3 * (bs.length / 2) := by
  refine decode_plain (fun c hc => ?_) ?_
  · obtain ⟨n, hn, rfl⟩ := Hex.exists_digit_of_mem_encode hc
    exact value_hexDigit hn
  · rw [Hex.length_encode]
    omega

theorem decode_hex_odd {bs : Bytes} (h : bs.length % 2 = 1) : decode (Hex.encode bs) = none :=
  decode_odd (by rw [Hex.length_encode]; omega)

end Base64
