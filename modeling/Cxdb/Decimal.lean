import Cxdb.Binary64

/-!
# Unsigned Decimal Numbers

What `str::parse` reads as an unsigned integer, and `to_string` writes.

## Main results

* `Decimal.parseUint_print`: what is written is read back.
-/

namespace Decimal

open F64

/-- `str::parse` for an unsigned integer of `bits` bits: digits, behind a plus sign or none,
whose value fits. -/
def parseUint (bits : ℕ) (s : String) : Option ℕ :=
  let digits := match s.toList with
    | '+' :: rest => rest
    | cs => cs
  if digits ≠ [] ∧ digits.all Char.isDigit = true ∧ digitsValue digits < 2 ^ bits then
    some (digitsValue digits)
  else none

theorem parseUint_lt {bits n : ℕ} {s : String} (h : parseUint bits s = some n) :
    n < 2 ^ bits := by
  simp only [parseUint] at h
  split_ifs at h with hdigits
  obtain rfl := Option.some.inj h
  exact hdigits.2.2

/-- `to_string`. -/
def print (n : ℕ) : String := String.ofList (paddedDigits 1 n)

/-- **What is written is read back.** -/
theorem parseUint_print {bits n : ℕ} (h : n < 2 ^ bits) : parseUint bits (print n) = some n := by
  have hdigits : ∀ c ∈ paddedDigits 1 n, c.isDigit = true := fun c hc =>
    isDigit_of_mem_paddedDigits hc
  have hne : paddedDigits 1 n ≠ [] :=
    List.ne_nil_of_length_pos (length_paddedDigits 1 n)
  have hplus : (match (print n).toList with
      | '+' :: rest => rest
      | cs => cs) = paddedDigits 1 n := by
    rw [print, String.toList_ofList]
    split
    next rest heq => exact absurd (hdigits '+' (heq ▸ List.mem_cons_self)) (by decide)
    · rfl
  rw [parseUint, hplus, digitsValue_paddedDigits]
  exact if_pos ⟨hne, List.all_eq_true.mpr hdigits, h⟩

/-- `parse::<u64>`. -/
def parseU64 (s : String) : Option UInt64 := (parseUint 64 s).map UInt64.ofNat

/-- `parse::<i64>`: with a minus sign, one more value fits. -/
def parseI64 (s : String) : Option ℤ :=
  match s.toList with
  | '-' :: digits =>
      if digits ≠ [] ∧ digits.all Char.isDigit = true ∧ digitsValue digits ≤ 2 ^ 63 then
        some (-digitsValue digits)
      else none
  | _ => (parseUint 63 s).map Int.ofNat

/-- `parse::<u32>`. -/
def parseU32 (s : String) : Option UInt32 := (parseUint 32 s).map UInt32.ofNat

theorem parseU64_print (n : UInt64) : parseU64 (print n.toNat) = some n := by
  rw [parseU64, parseUint_print n.toNat_lt, Option.map_some, UInt64.ofNat_toNat]

/-- `to_string` of a signed integer. -/
def printInt (n : ℤ) : String :=
  if n < 0 then String.ofList ('-' :: paddedDigits 1 n.natAbs) else print n.toNat

theorem print_injective {n n' : ℕ} (h : print n = print n') : n = n' := by
  have hvalue := congrArg digitsValue (String.ofList_injective h)
  rwa [digitsValue_paddedDigits, digitsValue_paddedDigits] at hvalue

/-- Only what is not negative is written as an unsigned number. -/
theorem printInt_eq_print {n : ℤ} {u : ℕ} : printInt n = print u ↔ n = u := by
  rw [printInt]
  split
  · next hneg =>
    constructor
    · intro h
      have hdigits : '-' :: paddedDigits 1 n.natAbs = paddedDigits 1 u := String.ofList_injective h
      have hminus : '-' ∈ paddedDigits 1 u := hdigits ▸ List.mem_cons_self
      exact absurd (isDigit_of_mem_paddedDigits hminus) (by decide)
    · omega
  · next hpos =>
    constructor
    · intro h
      have := print_injective h
      omega
    · rintro rfl
      rw [Int.toNat_natCast]

end Decimal
