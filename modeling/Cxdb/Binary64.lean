import Mathlib.Data.Int.Log
import Mathlib.Data.Nat.Digits.Defs
import Mathlib.Data.Nat.Prime.Basic
import Mathlib.Data.Rat.Floor

/-!
# Double-Precision Numbers

IEEE 754 binary64 as far as a program needs it that reads decimal literals and casts to
integers: a number is its exact rational value, with the infinities and one NaN beside
them. The sign of zero is not kept, since nothing here can tell the zeros apart.

## Main results

* `F64.toU64_ofNat`: the cast of a 64-bit integer is that integer.
* `F64.ofRat_idem`: rounding a nearest number changes nothing.
* `F64.parse_print`: what is read off a literal is written as one that reads the same.
-/

/-- A binary64 number, as its value. -/
inductive F64 where
  | nan
  | infinite (negative : Bool)
  | finite (q : ℚ)
  deriving DecidableEq

namespace F64

/-- The nearest integer, the even one of two. -/
def roundHalfEven (q : ℚ) : ℤ :=
  let n := ⌊q⌋
  if q - n < 1 / 2 then n
  else if 1 / 2 < q - n then n + 1
  else if n % 2 = 0 then n
  else n + 1

/-- The nearest binary64 number: 53 significant bits, the smallest exponent is -1074, and
what would reach `2 ^ 1024` overflows. -/
def ofRat (q : ℚ) : F64 :=
  let e := max (Int.log 2 |q| - 52) (-1074)
  let x := (roundHalfEven (q / 2 ^ e) : ℚ) * 2 ^ e
  if |x| < 2 ^ 1024 then finite x else infinite (q < 0)

/-- The value of decimal digits. -/
def digitsValue (ds : List Char) : ℕ :=
  ds.foldl (fun n c => 10 * n + (c.toNat - '0'.toNat)) 0

/-- The magnitude of `digits`, `digits.` or `digits.digits`; one side may be empty. -/
def parseUnsigned (s : List Char) : Option ℚ :=
  let whole := s.takeWhile Char.isDigit
  match s.dropWhile Char.isDigit with
  | [] => if whole = [] then none else some (digitsValue whole)
  | '.' :: fraction =>
      if fraction.all Char.isDigit ∧ whole ++ fraction ≠ [] then
        some (digitsValue (whole ++ fraction) / 10 ^ fraction.length)
      else none
  | _ => none

/-- Reading a decimal literal without exponent, rounded to the nearest number. -/
def parse : List Char → Option F64
  | '-' :: s => (parseUnsigned s).map fun q => ofRat (-q)
  | s => (parseUnsigned s).map ofRat

/-- The cast to `u64`: towards zero, saturating, and 0 for NaN. -/
def toU64 : F64 → UInt64
  | nan => 0
  | infinite negative => if negative then 0 else UInt64.ofNat (2 ^ 64 - 1)
  | finite q => UInt64.ofNat (min ⌊q⌋.toNat (2 ^ 64 - 1))

theorem roundHalfEven_intCast (n : ℤ) : roundHalfEven (n : ℚ) = n := by
  rw [roundHalfEven, Int.floor_intCast, sub_self, if_pos (by norm_num)]

/-- Rounding stays between integers. -/
theorem abs_roundHalfEven_le {q : ℚ} {n : ℤ} (h : |q| < n) : |roundHalfEven q| ≤ n := by
  obtain ⟨hlow, hhigh⟩ := abs_lt.mp h
  have hfloor : -n ≤ ⌊q⌋ := Int.le_floor.mpr (by push_cast; exact hlow.le)
  have hlt : ⌊q⌋ < n := Int.floor_lt.mpr hhigh
  unfold roundHalfEven
  rw [abs_le]
  dsimp only
  split_ifs <;> omega

/-- A nearest number has 53 significant bits. -/
theorem exists_of_ofRat_eq_finite {q x : ℚ} (h : ofRat q = finite x) :
    ∃ r e : ℤ, x = r * 2 ^ e ∧ -1074 ≤ e ∧ |r| < 2 ^ 53 ∧ |x| < 2 ^ 1024 := by
  unfold ofRat at h
  dsimp only at h
  split at h
  case isFalse => cases h
  next hx =>
  generalize he : max (Int.log 2 |q| - 52) (-1074) = e at h hx
  obtain rfl := F64.finite.inj h
  have hq : |q / 2 ^ e| < ((2 ^ 53 : ℤ) : ℚ) := by
    have hpow : (0 : ℚ) < 2 ^ e := zpow_pos two_pos e
    rw [abs_div, abs_of_pos hpow, div_lt_iff₀ hpow]
    calc |q| < (2 : ℚ) ^ (Int.log 2 |q| + 1) := Int.lt_zpow_succ_log_self one_lt_two _
      _ ≤ (2 : ℚ) ^ (53 + e) := zpow_le_zpow_right₀ one_le_two (by omega)
      _ = ((2 ^ 53 : ℤ) : ℚ) * 2 ^ e := by
          rw [zpow_add₀ two_ne_zero]
          norm_num
  have hr := abs_roundHalfEven_le hq
  generalize roundHalfEven (q / 2 ^ e) = r at hx hr
  rcases hr.lt_or_eq with hr | hr
  · exact ⟨r, e, rfl, by omega, hr, hx⟩
  · -- The significand has carried over: half of it, and the next exponent.
    obtain ⟨r', rfl⟩ : ∃ r', r = r' * 2 := by
      rcases abs_eq (by norm_num) |>.mp hr with rfl | rfl
      · exact ⟨2 ^ 52, by norm_num⟩
      · exact ⟨-2 ^ 52, by norm_num⟩
    refine ⟨r', e + 1, ?_, by omega, ?_, hx⟩
    · rw [zpow_add₀ two_ne_zero]
      push_cast
      ring
    · rw [abs_mul] at hr
      norm_num at hr ⊢
      omega

/-- A number with 53 significant bits is its own nearest number. -/
theorem ofRat_of_significand {r e : ℤ} (he : -1074 ≤ e) (hr : |r| < 2 ^ 53)
    (hx : |(r : ℚ) * 2 ^ e| < 2 ^ 1024) : ofRat (r * 2 ^ e) = finite (r * 2 ^ e) := by
  obtain ⟨x, hxdef⟩ : ∃ x, x = (r : ℚ) * 2 ^ e := ⟨_, rfl⟩
  rw [← hxdef] at hx ⊢
  obtain ⟨e', he'⟩ : ∃ e', e' = max (Int.log 2 |x| - 52) (-1074) := ⟨_, rfl⟩
  have hint : ∃ n : ℤ, x / 2 ^ e' = n := by
    rcases eq_or_ne r 0 with rfl | hr0
    · exact ⟨0, by simp [hxdef]⟩
    have hpow : (0 : ℚ) < 2 ^ e := zpow_pos two_pos e
    have hpos : 0 < |x| :=
      hxdef ▸ abs_pos.mpr (mul_ne_zero (by exact_mod_cast hr0) hpow.ne')
    have hlog : Int.log 2 |x| < 53 + e := by
      refine (Int.lt_zpow_iff_log_lt (b := 2) one_lt_two hpos).mp ?_
      rw [hxdef, abs_mul, abs_of_pos hpow, Nat.cast_ofNat, zpow_add₀ two_ne_zero]
      refine mul_lt_mul_of_pos_right ?_ hpow
      exact_mod_cast hr
    obtain ⟨k, hk⟩ := Int.le.dest (show e' ≤ e by omega)
    refine ⟨r * 2 ^ k, ?_⟩
    have hpow' : (2 : ℚ) ^ e' ≠ 0 := (zpow_pos two_pos e').ne'
    rw [hxdef, ← hk, zpow_add₀ two_ne_zero, zpow_natCast]
    push_cast
    field_simp
  obtain ⟨n, hn⟩ := hint
  have hpow' : (2 : ℚ) ^ e' ≠ 0 := (zpow_pos two_pos e').ne'
  have hback : (roundHalfEven (x / 2 ^ e') : ℚ) * 2 ^ e' = x := by
    rw [hn, roundHalfEven_intCast, ← hn, div_mul_cancel₀ _ hpow']
  unfold ofRat
  dsimp only
  rw [← he', hback, if_pos hx]

/-- Rounding a nearest number changes nothing. -/
theorem ofRat_idem {q x : ℚ} (h : ofRat q = finite x) : ofRat x = finite x := by
  obtain ⟨r, e, rfl, he, hr, hx⟩ := exists_of_ofRat_eq_finite h
  exact ofRat_of_significand he hr hx

/-! ### Writing numbers -/

/-- The decimal digits of a number, at least `k` of them. -/
def paddedDigits (k n : ℕ) : List Char :=
  (Nat.digits 10 n ++ List.replicate (k - (Nat.digits 10 n).length) 0).reverse.map Nat.digitChar

/-- A number as a decimal literal: a binary fraction has as many decimals as binary places.
An infinity is written as a literal that overflows. -/
def print : F64 → List Char
  | nan => []
  | infinite negative =>
      (if negative then ['-'] else []) ++ '1' :: List.replicate 309 '0'
  | finite q =>
      let k := Nat.log 2 q.den
      let ds := paddedDigits (k + 1) (q.num.natAbs * 5 ^ k)
      (if q < 0 then ['-'] else []) ++ ds.take (ds.length - k) ++
        (if k = 0 then [] else '.' :: ds.drop (ds.length - k))

theorem digitsValue_concat (ds : List Char) (c : Char) :
    digitsValue (ds ++ [c]) = 10 * digitsValue ds + (c.toNat - '0'.toNat) := by
  simp [digitsValue]

theorem digitsValue_reverse_map {l : List ℕ} (h : ∀ d ∈ l, d < 10) :
    digitsValue (l.reverse.map Nat.digitChar) = Nat.ofDigits 10 l := by
  induction l with
  | nil => rfl
  | cons d l ih =>
      have hd : (Nat.digitChar d).toNat - '0'.toNat = d :=
        (by decide : ∀ d < 10, (Nat.digitChar d).toNat - '0'.toNat = d) d
          (h d List.mem_cons_self)
      rw [List.reverse_cons, List.map_append, List.map_singleton, digitsValue_concat, hd,
        ih fun d hd => h d (List.mem_cons_of_mem _ hd), Nat.ofDigits_cons, add_comm]

theorem digits_padded_lt {k n d : ℕ}
    (h : d ∈ Nat.digits 10 n ++ List.replicate (k - (Nat.digits 10 n).length) 0) : d < 10 := by
  rcases List.mem_append.mp h with h | h
  · exact Nat.digits_lt_base (by norm_num) h
  · rw [List.eq_of_mem_replicate h]
    norm_num

theorem digitsValue_paddedDigits (k n : ℕ) : digitsValue (paddedDigits k n) = n := by
  rw [paddedDigits, digitsValue_reverse_map fun d => digits_padded_lt,
    Nat.ofDigits_append_replicate_zero, Nat.ofDigits_digits]

theorem length_paddedDigits (k n : ℕ) : k ≤ (paddedDigits k n).length := by
  simp only [paddedDigits, List.length_map, List.length_reverse, List.length_append,
    List.length_replicate]
  omega

theorem isDigit_of_mem_paddedDigits {k n : ℕ} {c : Char} (h : c ∈ paddedDigits k n) :
    c.isDigit = true := by
  obtain ⟨d, hd, rfl⟩ := List.mem_map.mp h
  exact (by decide : ∀ d < 10, (Nat.digitChar d).isDigit = true) d
    (digits_padded_lt (List.mem_reverse.mp hd))

/-- The literals of the lexers: a sign, digits, and a point with more digits. -/
structure IsLiteral (sign whole fraction : List Char) : Prop where
  sign : sign = [] ∨ sign = ['-']
  whole_ne : whole ≠ []
  whole : ∀ c ∈ whole, c.isDigit = true
  fraction : fraction = [] ∨
    ∃ ds, fraction = '.' :: ds ∧ ds ≠ [] ∧ ∀ c ∈ ds, c.isDigit = true

theorem takeWhile_isDigit {ds rest : List Char} (h : ∀ c ∈ ds, c.isDigit = true)
    (hrest : ∀ c ∈ rest.head?, c.isDigit = false) :
    (ds ++ rest).takeWhile Char.isDigit = ds ∧ (ds ++ rest).dropWhile Char.isDigit = rest := by
  rw [List.takeWhile_append_of_pos h, List.dropWhile_append_of_pos h]
  cases rest with
  | nil => simp
  | cons c rest =>
      have hc : c.isDigit = false := hrest c rfl
      simp [hc]

/-- Reading digits. -/
theorem parseUnsigned_whole {whole : List Char} (hne : whole ≠ [])
    (h : ∀ c ∈ whole, c.isDigit = true) :
    parseUnsigned whole = some (digitsValue whole : ℚ) := by
  obtain ⟨htake, hdrop⟩ := takeWhile_isDigit h (show ∀ c ∈ ([] : List Char).head?, c.isDigit = false by simp)
  rw [List.append_nil] at htake hdrop
  unfold parseUnsigned
  dsimp only
  rw [hdrop, htake]
  simp [hne]

/-- Reading digits with a point. -/
theorem parseUnsigned_point {whole fraction : List Char} (hne : whole ≠ [])
    (h : ∀ c ∈ whole, c.isDigit = true) (hfraction : ∀ c ∈ fraction, c.isDigit = true) :
    parseUnsigned (whole ++ '.' :: fraction) =
      some ((digitsValue (whole ++ fraction) : ℚ) / 10 ^ fraction.length) := by
  obtain ⟨htake, hdrop⟩ := takeWhile_isDigit h
    (show ∀ c ∈ ('.' :: fraction).head?, c.isDigit = false by
      rintro c ⟨⟩
      rfl)
  unfold parseUnsigned
  dsimp only
  rw [hdrop, htake]
  have hall : fraction.all Char.isDigit = true := List.all_eq_true.mpr hfraction
  simp [hall, hne]

/-- Reading the sign. -/
theorem parse_sign {s : List Char} {q : ℚ} (negative : Bool) (hs : s.head? ≠ some '-')
    (h : parseUnsigned s = some q) :
    parse ((if negative then ['-'] else []) ++ s) =
      some (ofRat (if negative then -q else q)) := by
  cases negative with
  | true => simp [parse, h]
  | false =>
      rw [if_neg (by decide), if_neg (by decide), List.nil_append]
      unfold parse
      split
      · exact absurd rfl hs
      · simp [h]

/-- A nearest number is a binary fraction. -/
theorem den_of_ofRat_eq_finite {q x : ℚ} (h : ofRat q = finite x) :
    x.den = 2 ^ Nat.log 2 x.den := by
  obtain ⟨r, e, rfl, -, -, -⟩ := exists_of_ofRat_eq_finite h
  have hdvd : ∃ n, ((r : ℚ) * 2 ^ e).den ∣ 2 ^ n := by
    rcases le_total 0 e with he | he
    · obtain ⟨n, rfl⟩ := Int.eq_ofNat_of_zero_le he
      refine ⟨0, ?_⟩
      have : ((r : ℚ) * 2 ^ (n : ℤ)) = ((r * 2 ^ n : ℤ) : ℚ) := by push_cast; rfl
      rw [this, Rat.den_intCast]
      exact one_dvd _
    · obtain ⟨n, hn⟩ := Int.eq_ofNat_of_zero_le (show 0 ≤ -e by omega)
      refine ⟨n, ?_⟩
      have : ((r : ℚ) * 2 ^ e) = Rat.divInt r (2 ^ n : ℤ) := by
        rw [Rat.divInt_eq_div, show e = -(n : ℤ) by omega, zpow_neg, zpow_natCast]
        push_cast
        rfl
      rw [this]
      exact_mod_cast Rat.den_dvd r (2 ^ n : ℤ)
  obtain ⟨n, hn⟩ := hdvd
  obtain ⟨k, -, hk⟩ := (Nat.dvd_prime_pow Nat.prime_two).mp hn
  rw [hk, Nat.log_pow (by norm_num)]

/-- What a literal is read as. -/
theorem exists_of_parse {s : List Char} {x : F64} (h : parse s = some x) :
    ∃ q, x = ofRat q := by
  unfold parse at h
  split at h
  · obtain ⟨q, -, rfl⟩ := Option.map_eq_some_iff.mp h
    exact ⟨-q, rfl⟩
  · obtain ⟨q, -, rfl⟩ := Option.map_eq_some_iff.mp h
    exact ⟨q, rfl⟩

theorem ofRat_overflow (negative : Bool) :
    ofRat (if negative then -10 ^ 309 else 10 ^ 309) = infinite negative := by
  cases negative <;> decide +kernel

set_option maxRecDepth 4000 in
/-- An infinity is written as a literal that overflows. -/
theorem parse_print_infinite (negative : Bool) :
    parse (print (infinite negative)) = some (infinite negative) := by
  have hdigits : ∀ c ∈ '1' :: List.replicate 309 '0', c.isDigit = true := by
    intro c hc
    rcases List.mem_cons.mp hc with rfl | hc
    · rfl
    · rw [List.eq_of_mem_replicate hc]
      rfl
  have hvalue : digitsValue ('1' :: List.replicate 309 '0') = 10 ^ 309 := by decide
  have hunsigned := parseUnsigned_whole (List.cons_ne_nil _ _) hdigits
  rw [hvalue, Nat.cast_pow, Nat.cast_ofNat] at hunsigned
  have hhead : ('1' :: List.replicate 309 '0').head? ≠ some '-' := by
    rw [List.head?_cons]
    decide
  rw [print, parse_sign negative hhead hunsigned, ofRat_overflow]

/-- The digits of a binary fraction, with as many decimals as binary places. -/
theorem paddedDigits_value {x : ℚ} {k : ℕ} (hden : x.den = 2 ^ k) :
    ((x.num.natAbs * 5 ^ k : ℕ) : ℚ) / 10 ^ k = |x| := by
  have habs : |x| = (x.num.natAbs : ℚ) / 2 ^ k := by
    rw [Rat.abs_def, hden, Rat.divInt_eq_div]
    simp
  have hten : (10 : ℚ) ^ k = 2 ^ k * 5 ^ k := by
    rw [← mul_pow]
    norm_num
  rw [habs, hten]
  push_cast
  field_simp

theorem neg_abs_ite (x : ℚ) : (if decide (x < 0) = true then -|x| else |x|) = x := by
  by_cases h : x < 0
  · rw [if_pos (decide_eq_true h), abs_of_neg h, neg_neg]
  · rw [if_neg (by simpa using h), abs_of_nonneg (not_lt.mp h)]

theorem isLiteral_print_infinite (negative : Bool) :
    ∃ sign whole fraction, print (infinite negative) = sign ++ whole ++ fraction ∧
      IsLiteral sign whole fraction := by
  refine ⟨if negative then ['-'] else [], '1' :: List.replicate 309 '0', [],
    by rw [List.append_nil]; rfl, ?_, List.cons_ne_nil _ _, ?_, Or.inl rfl⟩
  · cases negative
    · exact Or.inl rfl
    · exact Or.inr rfl
  · intro c hc
    rcases List.mem_cons.mp hc with rfl | hc
    · rfl
    · rw [List.eq_of_mem_replicate hc]
      rfl

theorem isLiteral_print_finite (x : ℚ) :
    ∃ sign whole fraction, print (finite x) = sign ++ whole ++ fraction ∧
      IsLiteral sign whole fraction := by
  refine ⟨_, _, _, rfl, ?_, ?_, ?_, ?_⟩
  · split
    · exact Or.inr rfl
    · exact Or.inl rfl
  · have := length_paddedDigits (Nat.log 2 x.den + 1) (x.num.natAbs * 5 ^ Nat.log 2 x.den)
    rw [Ne, ← List.length_eq_zero_iff, List.length_take]
    omega
  · exact fun c hc => isDigit_of_mem_paddedDigits (List.mem_of_mem_take hc)
  · have hlen := length_paddedDigits (Nat.log 2 x.den + 1) (x.num.natAbs * 5 ^ Nat.log 2 x.den)
    split
    · exact Or.inl rfl
    · next hk =>
      refine Or.inr ⟨_, rfl, ?_, fun c hc =>
        isDigit_of_mem_paddedDigits (List.mem_of_mem_drop hc)⟩
      rw [Ne, ← List.length_eq_zero_iff, List.length_drop]
      omega

/-- A nearest number is written with all of its decimals. -/
theorem parse_print_finite {q x : ℚ} (h : ofRat q = finite x) :
    parse (print (finite x)) = some (finite x) := by
  have hden := den_of_ofRat_eq_finite h
  have hidem := ofRat_idem h
  obtain ⟨k, hk⟩ : ∃ k, k = Nat.log 2 x.den := ⟨_, rfl⟩
  rw [← hk] at hden
  have hvalue := paddedDigits_value hden
  rw [print, ← hk]
  obtain ⟨ds, hds⟩ : ∃ ds, ds = paddedDigits (k + 1) (x.num.natAbs * 5 ^ k) := ⟨_, rfl⟩
  have hlen : k + 1 ≤ ds.length := hds ▸ length_paddedDigits _ _
  have hdigit : ∀ c ∈ ds, c.isDigit = true := fun c hc =>
    isDigit_of_mem_paddedDigits (hds ▸ hc)
  have hN : digitsValue ds = x.num.natAbs * 5 ^ k := hds ▸ digitsValue_paddedDigits _ _
  rw [← hN] at hvalue
  rw [← hds, List.append_assoc]
  have hwhole : ∀ c ∈ ds.take (ds.length - k), c.isDigit = true := fun c hc =>
    hdigit c (List.mem_of_mem_take hc)
  have hne : ds.take (ds.length - k) ≠ [] := by
    rw [Ne, ← List.length_eq_zero_iff, List.length_take]
    omega
  have hunsigned : parseUnsigned (ds.take (ds.length - k) ++
      if k = 0 then [] else '.' :: ds.drop (ds.length - k)) = some |x| := by
    rw [← hvalue]
    split
    · next h0 =>
      subst h0
      rw [List.append_nil, parseUnsigned_whole hne hwhole, Nat.sub_zero, List.take_length,
        pow_zero, div_one]
    · rw [parseUnsigned_point hne hwhole fun c hc => hdigit c (List.mem_of_mem_drop hc),
        List.take_append_drop, List.length_drop, Nat.sub_sub_self (by omega)]
  have hhead : (ds.take (ds.length - k) ++
      if k = 0 then [] else '.' :: ds.drop (ds.length - k)).head? ≠ some '-' := by
    obtain ⟨c, cs, hcs⟩ := List.exists_cons_of_ne_nil hne
    have hc := hwhole c (hcs ▸ List.mem_cons_self)
    rw [hcs, List.cons_append, List.head?_cons, Ne, Option.some.injEq]
    rintro rfl
    exact absurd hc (by decide)
  have hparse := parse_sign (decide (x < 0)) hhead hunsigned
  rw [neg_abs_ite, hidem] at hparse
  simpa only [decide_eq_true_eq] using hparse

/-- **Numbers are written to be read back.** What some literal is read as is written as a
literal that is read as the same number. -/
theorem parse_print {s : List Char} {x : F64} (h : parse s = some x) :
    parse (print x) = some x ∧
      ∃ sign whole fraction, print x = sign ++ whole ++ fraction ∧
        IsLiteral sign whole fraction := by
  obtain ⟨q, rfl⟩ := exists_of_parse h
  rcases hx : ofRat q with _ | negative | x
  · unfold ofRat at hx
    dsimp only at hx
    split at hx <;> cases hx
  · exact ⟨parse_print_infinite negative, isLiteral_print_infinite negative⟩
  · exact ⟨parse_print_finite hx, isLiteral_print_finite x⟩

end F64
