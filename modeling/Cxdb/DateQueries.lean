import Cxdb.NumericQueries

/-!
# Comparisons with Dates

A date of a query is a time before now, in minutes, hours or days, or a point in time. The
executor makes a `u64` of milliseconds of either. The amount of a relative date is multiplied by
its unit and taken from the clock in `u64`, without a check; what `chrono` says of a point in
time is a signed number of whole milliseconds, which is cast.

## Main results

* `parseDateValue_eq`: what the executor makes of a date.
* `dates_compared_iff`: when a comparison with a date selects the contexts that it should.
* `early_date_found_late`: a date before 1970.
-/

namespace Cxdb

/-! ### Dates -/

/-- The clock, and the points in time that `chrono` reads: milliseconds since the beginning of
1970, which are in the range of `i64`. -/
structure Calendar where
  now : UInt64
  rfc3339 : String → Option ℚ
  /-- Midnight of a date in the format `%Y-%m-%d`. -/
  date : String → Option ℤ
  rfc3339_range : ∀ s, ∀ q ∈ rfc3339 s, -2 ^ 63 ≤ ⌊q⌋ ∧ ⌊q⌋ < 2 ^ 63
  date_range : ∀ s, ∀ t ∈ date s, -2 ^ 63 ≤ t ∧ t < 2 ^ 63

/-- What the executor sees of it: `timestamp_millis` is rounded down. -/
def Calendar.reader (C : Calendar) : DateReader where
  now := C.now
  parseFromRfc3339 s := (C.rfc3339 s).map fun q => Int64.ofInt ⌊q⌋
  parseDate s := (C.date s).map Int64.ofInt

/-- A date of a query: an amount of a unit in milliseconds before now, or a point in time. -/
inductive DateLiteral where
  | relative (amount unit : ℕ)
  | absolute (q : ℚ)
  deriving DecidableEq

/-- The milliseconds of a unit. -/
def unitMillis (unit : Char) : ℕ :=
  if unit = 'h' then 60 * 60 * 1000 else if unit = 'd' then 24 * 60 * 60 * 1000 else 60 * 1000

/-- The relative date that a text stands for. -/
def readRelative (U : UnicodeTables) (s : String) : Option DateLiteral := do
  let (digits, unit) ← relativePattern U s
  let amount ← parseU64 digits
  return .relative amount.toNat (unitMillis unit)

/-- The point in time that a text stands for. -/
def readAbsolute (C : Calendar) (s : String) : Option DateLiteral :=
  match C.rfc3339 s with
  | some q => some (.absolute q)
  | none => (C.date s).map fun t : ℤ => .absolute t

/-- The date that a value stands for. -/
def readDate (U : UnicodeTables) (C : Calendar) : Value → Option DateLiteral
  | .date s relative => if relative then readRelative U s else readAbsolute C s
  | .string s => (readRelative U s).or (readAbsolute C s)
  | .number _ | .list _ => none

/-- The instant that a date denotes. -/
def DateLiteral.instant (now : UInt64) : DateLiteral → ℚ
  | relative amount unit => (now.toNat : ℚ) - (amount * unit : ℕ)
  | absolute q => q

/-- The instant is computed without overflow or underflow of `u64`. -/
def DateLiteral.Computes (now : UInt64) : DateLiteral → Prop
  | relative amount unit => amount * unit < 2 ^ 64 ∧ amount * unit ≤ now.toNat
  | absolute _ => True

/-- The `u64` that the executor makes of a date. -/
def DateLiteral.timestamp (now : UInt64) : DateLiteral → UInt64
  | relative amount unit => now - UInt64.ofNat (amount * unit)
  | absolute q => (Int64.ofInt ⌊q⌋).toUInt64

/-! ### What the executor makes of a date -/

variable {U : UnicodeTables} {C : Calendar} {R : Records} {ix : SecondaryIndexes}
  {live : Finset UInt64}

/-- The products of the units, in `u64`. -/
theorem mul_unitMillis (amount : UInt64) :
    amount * 60 * 60 * 1000 = UInt64.ofNat (amount.toNat * (60 * 60 * 1000)) ∧
      amount * 24 * 60 * 60 * 1000 = UInt64.ofNat (amount.toNat * (24 * 60 * 60 * 1000)) ∧
      amount * 60 * 1000 = UInt64.ofNat (amount.toNat * (60 * 1000)) := by
  refine ⟨?_, ?_, ?_⟩ <;> apply UInt64.toNat_inj.mp <;> simp [UInt64.toNat_mul] <;> omega

theorem parseRelativeDate_eq (s : String) :
    (parseRelativeDate U C.reader s).toOption =
      (readRelative U s).map (DateLiteral.timestamp C.now) := by
  rw [parseRelativeDate, readRelative]
  cases relativePattern U s with
  | none => rfl
  | some p =>
      obtain ⟨digits, unit⟩ := p
      simp only [Option.bind_eq_bind, Option.bind_some]
      cases parseU64 digits with
      | none => rfl
      | some amount =>
          obtain ⟨hhours, hdays, hminutes⟩ := mul_unitMillis amount
          simp only [hhours, hdays, hminutes, Option.bind_some, Option.pure_def, Option.map_some,
            DateLiteral.timestamp, unitMillis]
          split_ifs <;> rfl

theorem parseAbsoluteDate_eq (s : String) :
    (parseAbsoluteDate C.reader s).toOption =
      (readAbsolute C s).map (DateLiteral.timestamp C.now) := by
  rw [parseAbsoluteDate, readAbsolute]
  cases hrfc : C.rfc3339 s with
  | some q =>
      simp only [Calendar.reader, hrfc, Option.map_some]
      rfl
  | none =>
      cases hdate : C.date s with
      | some t =>
          simp only [Calendar.reader, hrfc, hdate, Option.map_none, Option.map_some, Except.toOption]
          rw [DateLiteral.timestamp, Int.floor_intCast]
      | none =>
          simp only [Calendar.reader, hrfc, hdate, Option.map_none]
          rfl

/-- **A date** is accepted if it stands for one, and becomes its timestamp. -/
theorem parseDateValue_eq {v : Value} (hv : ∀ n, v ≠ .number n) :
    (parseDateValue U C.reader v).toOption =
      (readDate U C v).map (DateLiteral.timestamp C.now) := by
  cases v with
  | date s relative =>
      rw [parseDateValue, readDate]
      split
      · exact parseRelativeDate_eq s
      · exact parseAbsoluteDate_eq s
  | string s =>
      have hrelative := parseRelativeDate_eq (U := U) (C := C) s
      rw [parseDateValue, readDate]
      cases hread : readRelative U s with
      | some l =>
          rw [hread] at hrelative
          cases hparse : parseRelativeDate U C.reader s with
          | ok t =>
              rw [hparse] at hrelative
              exact hrelative
          | error e =>
              rw [hparse] at hrelative
              cases hrelative
      | none =>
          rw [hread] at hrelative
          cases hparse : parseRelativeDate U C.reader s with
          | ok t =>
              rw [hparse] at hrelative
              cases hrelative
          | error e => exact parseAbsoluteDate_eq s
  | number n => exact absurd rfl (hv n)
  | list vs => rfl

/-- A creation time is compared with the timestamp. -/
theorem Filled.executeCreated_compares (h : Filled U R ix) {D : DateReader}
    {operator : Operator} (hop : operator ∈ FieldName.depth.compares) {v : Value} {t : UInt64}
    (ht : parseDateValue U D v = .ok t) :
    Selects (executeCreated U D operator v ix)
      (R.Meets .created operator (operator.Relates · (t.toNat : ℤ))) := by
  have hget : ∀ t id, id ∈ ix.createdBtree.get t ↔ R.HasNumber .created id t.toNat := by
    intro t id
    rw [h.indexed.1.created, Records.HasNumber]
    constructor
    · rintro ⟨d, hd⟩
      exact ⟨t, d, hd, rfl⟩
    · rintro ⟨t', d, hd, heq⟩
      exact ⟨d, toNat_intCast_inj.mp heq ▸ hd⟩
  have hall : ∀ id x, R.HasNumber .created id x → ∃ t : UInt64, (t.toNat : ℤ) = x := by
    rintro id x ⟨t, d, -, rfl⟩
    exact ⟨t, rfl⟩
  have hlooks : Looks R .created ix.lookupCreatedEq := hget
  have hothers : ∀ id, id ∈ ix.others (ix.lookupCreatedEq t) ↔
      R.ids id ∧ id ∉ ix.lookupCreatedEq t := fun _ => h.mem_others
  simp only [executeCreated, ht, bind, Except.bind]
  cases operator with
  | eq => exact (hlooks.selects hothers).1
  | neq => exact (hlooks.selects hothers).2
  | gt | gte | lt | lte =>
      refine ⟨_, rfl, mem_range_iff hget hall fun d => ?_⟩
      simp [Operator.Relates, UInt64.lt_iff_toNat_lt, UInt64.le_iff_toNat_le]
  | starts | eqCi | startsCi | inList => simp [FieldName.compares] at hop

/-! ### When another instant is noticed -/

/-- The time `x` is taken to stand otherwise to the instant `q` than it does: `q` is before 1970,
and taken for an instant far in the future, or it is between two milliseconds. -/
def DateMisread (operator : Operator) (q : ℚ) (x : ℤ) : Prop :=
  match operator with
  | .eq | .neq => q < 0 ∧ x = 2 ^ 64 + ⌊q⌋ ∨ 0 ≤ q ∧ (⌊q⌋ : ℚ) ≠ q ∧ x = ⌊q⌋
  | .gt | .lte => q < 0 ∧ x ≤ 2 ^ 64 + ⌊q⌋
  | .gte | .lt => q < 0 ∧ x < 2 ^ 64 + ⌊q⌋ ∨ 0 ≤ q ∧ (⌊q⌋ : ℚ) ≠ q ∧ x = ⌊q⌋
  | .starts | .eqCi | .startsCi | .inList => False

/-- The condition for a date to be compared exactly. -/
def DateLiteral.Exact (R : Records) (now : UInt64) (operator : Operator) : DateLiteral → Prop
  | relative amount unit => amount * unit ≤ now.toNat
  | absolute q => ∀ id x, R.HasNumber .created id x → ¬DateMisread operator q x

theorem toNat_toUInt64_ofInt (n : ℤ) : ((Int64.ofInt n).toUInt64.toNat : ℤ) = n % 2 ^ 64 := by
  rw [show (Int64.ofInt n).toUInt64.toNat = (BitVec.ofInt 64 n).toNat from rfl, BitVec.toNat_ofInt]
  omega

/-- A time stands alike to an instant and to the cast of its milliseconds unless it is misread. -/
theorem relates_timestamp_iff {operator : Operator} (hop : operator ∈ FieldName.depth.compares)
    {q : ℚ} (hq : -2 ^ 63 ≤ ⌊q⌋ ∧ ⌊q⌋ < 2 ^ 63) {x : ℤ} (hx : 0 ≤ x) :
    (operator.Relates x (⌊q⌋ % 2 ^ 64) ↔ operator.Relates (x : ℚ) q) ↔
      ¬DateMisread operator q x := by
  have hlt : (x : ℚ) < q ↔ x < ⌈q⌉ := Int.lt_ceil.symm
  have hle : (x : ℚ) ≤ q ↔ x ≤ ⌊q⌋ := Int.le_floor.symm
  have hgt : q < x ↔ ⌊q⌋ < x := Int.floor_lt.symm
  have hge : q ≤ x ↔ ⌈q⌉ ≤ x := Int.ceil_le.symm
  have hnonneg : 0 ≤ q ↔ 0 ≤ ⌊q⌋ := Int.floor_nonneg.symm
  have hneg : q < 0 ↔ ⌊q⌋ < 0 := by
    rw [Int.floor_lt, Int.cast_zero]
  have hexact : (x : ℚ) = q ↔ x = ⌊q⌋ ∧ (⌊q⌋ : ℚ) = q := by
    constructor
    · rintro rfl
      rw [Int.floor_intCast]
      exact ⟨rfl, rfl⟩
    · rintro ⟨rfl, hfloor⟩
      exact hfloor
  have hceil : ⌈q⌉ = if (⌊q⌋ : ℚ) = q then ⌊q⌋ else ⌊q⌋ + 1 := by
    split
    next hfloor => rw [← hfloor, Int.ceil_intCast, Int.floor_intCast]
    next hfloor =>
      refine Int.ceil_eq_iff.mpr ⟨?_, ?_⟩
      · push_cast
        rw [add_sub_cancel_right]
        exact lt_of_le_of_ne (Int.floor_le q) hfloor
      · push_cast
        exact (Int.lt_floor_add_one q).le
  rcases Classical.propComplete ((⌊q⌋ : ℚ) = q) with hfloor | hfloor
  all_goals
    simp only [hfloor, if_true, if_false] at hceil
    cases operator with
    | starts | eqCi | startsCi | inList => simp [FieldName.compares] at hop
    | _ =>
        simp only [Operator.Relates, DateMisread, hlt, hle, hgt, hge, hneg, hnonneg, hexact, hceil,
          hfloor, ne_eq, and_true, and_false, not_true_eq_false, not_false_eq_true, true_and,
          false_and, or_false, iff_true, iff_false]
        omega

theorem readAbsolute_range {s : String} {q : ℚ} (h : readAbsolute C s = some (.absolute q)) :
    -2 ^ 63 ≤ ⌊q⌋ ∧ ⌊q⌋ < 2 ^ 63 := by
  rw [readAbsolute] at h
  cases hrfc : C.rfc3339 s with
  | some q' =>
      rw [hrfc] at h
      obtain rfl := DateLiteral.absolute.inj (Option.some.inj h)
      exact C.rfc3339_range s _ hrfc
  | none =>
      rw [hrfc] at h
      obtain ⟨t, ht, heq⟩ := Option.map_eq_some_iff.mp h
      obtain rfl := DateLiteral.absolute.inj heq
      rw [Int.floor_intCast]
      exact C.date_range s t ht

/-- Points in time are in the range of `i64`. -/
theorem readDate_range {v : Value} {q : ℚ} (h : readDate U C v = some (.absolute q)) :
    -2 ^ 63 ≤ ⌊q⌋ ∧ ⌊q⌋ < 2 ^ 63 := by
  have hrelative : ∀ s, readRelative U s ≠ some (.absolute q) := by
    intro s hs
    rw [readRelative] at hs
    obtain ⟨p, -, hs⟩ := Option.bind_eq_some_iff.mp hs
    obtain ⟨amount, -, hs⟩ := Option.bind_eq_some_iff.mp hs
    cases hs
  cases v with
  | date s relative =>
      rw [readDate] at h
      split at h
      · exact absurd h (hrelative s)
      · exact readAbsolute_range h
  | string s =>
      rcases Option.or_eq_some_iff.mp h with h | ⟨-, h⟩
      · exact absurd h (hrelative s)
      · exact readAbsolute_range h
  | number n => cases h
  | list vs => cases h

theorem relates_intCast (operator : Operator) (x n : ℤ) :
    operator.Relates x n ↔ operator.Relates (x : ℚ) n := by
  cases operator <;> simp only [Operator.Relates, ne_eq, Int.cast_inj, Int.cast_lt, Int.cast_le]

/-- The timestamp of a relative date is its instant, if it is computed without overflow. -/
theorem instant_of_computes {now : UInt64} {amount unit : ℕ} (h : amount * unit ≤ now.toNat) :
    (DateLiteral.relative amount unit).instant now =
      (((DateLiteral.relative amount unit).timestamp now).toNat : ℤ) := by
  have hlt := now.toNat_lt
  have hmillis : (UInt64.ofNat (amount * unit)).toNat = amount * unit := by
    rw [UInt64.toNat_ofNat']
    exact Nat.mod_eq_of_lt (by omega)
  rw [DateLiteral.instant, DateLiteral.timestamp, UInt64.toNat_sub_of_le, hmillis, Int.cast_natCast,
    Nat.cast_sub h]
  rw [UInt64.le_iff_toNat_le, hmillis]
  exact h

/-- **A date is compared exactly** if and only if it is relative and not before 1970, or no
context was created at a time that is misread. -/
theorem dates_compared_iff (h : Filled U R ix) (C : Calendar) (live : Finset UInt64)
    {operator : Operator} (hop : operator ∈ FieldName.depth.compares) {v : Value}
    {l : DateLiteral} (hl : readDate U C v = some l) :
    (l.Computes C.now ∧ Selects (searchNumber U C.reader ix live .created operator v)
        (R.Meets .created operator fun x => operator.Relates (x : ℚ) (l.instant C.now))) ↔
      l.Exact R C.now operator := by
  have hv : ∀ n, v ≠ .number n := by
    rintro n rfl
    cases hl
  have hparse : parseDateValue U C.reader v = .ok (l.timestamp C.now) := by
    have hoption := parseDateValue_eq (U := U) (C := C) hv
    rw [hl] at hoption
    cases hresult : parseDateValue U C.reader v with
    | ok t =>
        rw [hresult] at hoption
        exact congrArg Except.ok (Option.some.inj hoption)
    | error e =>
        rw [hresult] at hoption
        cases hoption
  have hcompares : Selects (searchNumber U C.reader ix live .created operator v)
      (R.Meets .created operator (operator.Relates · ((l.timestamp C.now).toNat : ℤ))) :=
    h.executeCreated_compares hop hparse
  rw [hcompares.iff, h.once.meets_congr_iff]
  cases l with
  | relative amount unit =>
      refine ⟨fun hcomputes => hcomputes.1.2, fun hle => ⟨⟨?_, hle⟩, fun id x _ => ?_⟩⟩
      · exact hle.trans_lt C.now.toNat_lt
      · rw [instant_of_computes hle]
        exact relates_intCast operator x _
  | absolute q =>
      have hrange := readDate_range hl
      refine ⟨fun hcomputes id x hx => ?_, fun hexact => ⟨trivial, fun id x hx => ?_⟩⟩
      · refine (relates_timestamp_iff hop hrange hx.bounds.1).mp ?_
        rw [← toNat_toUInt64_ofInt]
        exact hcomputes.2 id x hx
      · rw [DateLiteral.timestamp, toNat_toUInt64_ofInt]
        exact (relates_timestamp_iff hop hrange hx.bounds.1).mpr (hexact id x hx)

/-! ### A date before 1970 -/

/-- A clock at the first day of 1970, and the last day before it. -/
def firstDay : Calendar where
  now := 24 * 60 * 60 * 1000
  rfc3339 _ := none
  date s := if s = "1969-12-31" then some (-24 * 60 * 60 * 1000) else none
  rfc3339_range s q hq := by cases hq
  date_range s t ht := by
    split at ht
    · obtain rfl := Option.some.inj ht
      decide
    · cases ht

/-- A context created one hour before that clock is found. -/
theorem dates_compared_firstDay :
    (DateLiteral.relative 1 (60 * 60 * 1000)).Computes firstDay.now ∧
      Selects (searchNumber .ascii firstDay.reader firstTurnIndexes ∅ .created .lt
          (.date "-1h" true))
        ((Records.none.note firstTurnContext).Meets .created .lt fun x =>
          Operator.lt.Relates (x : ℚ)
            ((DateLiteral.relative 1 (60 * 60 * 1000)).instant firstDay.now)) :=
  (dates_compared_iff filled_firstTurn firstDay ∅ (by decide) (by decide)).mpr
    (show 1 * (60 * 60 * 1000) ≤ 24 * 60 * 60 * 1000 by norm_num)

/-- A context is not found after a day before it was created. -/
theorem early_date_found_late :
    ¬ ∀ (R : Records) (ix : SecondaryIndexes) (C : Calendar) (operator : Operator) (v : Value)
        (l : DateLiteral), Filled .ascii R ix → operator ∈ FieldName.depth.compares →
      readDate .ascii C v = some l →
        Selects (searchNumber .ascii C.reader ix ∅ .created operator v)
          (R.Meets .created operator fun x => operator.Relates (x : ℚ) (l.instant C.now)) := by
  intro h
  obtain ⟨ids, hids, hmem⟩ := h _ _ firstDay .gt (.date "1969-12-31" false)
    (.absolute (-24 * 60 * 60 * 1000)) filled_firstTurn (by decide) (by decide +kernel)
  have hfound : searchNumber .ascii firstDay.reader firstTurnIndexes ∅ .created .gt
      (.date "1969-12-31" false) = .ok ∅ := by
    decide
  obtain rfl := Except.ok.inj (hfound.symm.trans hids)
  refine Finset.notMem_empty (1 : UInt64) ((hmem 1).mpr ?_)
  refine ⟨0, ⟨0, 0, Or.inr ⟨rfl, rfl, rfl⟩, rfl⟩, ?_⟩
  show ((-24 * 60 * 60 * 1000 : ℚ)) < ((0 : ℤ) : ℚ)
  norm_num

end Cxdb
