import Cxdb.IndexStates

/-!
# Comparisons with Numbers

A number of a query is a binary64. The executor casts it to `u64`, which takes what is negative
to zero, and for `depth` to `u32` after that, which keeps the last 32 bits. An integer that does
not survive the casts is compared as another one, and that is noticed when the two stand in
different relations to the value of some context.

## Main results

* `executeDepth_compares`, `executeNumber_compares`: the numbers that are compared.
* `numbers_compared_iff`: when a comparison selects the contexts that it should.
* `negative_selects_zero`: a negative depth.
-/

namespace Cxdb

/-! ### What is selected -/

/-- An integer of a query. -/
def integerLiteral (n : ℤ) : Value := .number (F64.ofRat n)

/-- A context has a number in a field. -/
def Records.HasNumber (R : Records) (f : FieldName) (id : UInt64) (x : ℤ) : Prop :=
  match f with
  | .id => R.ids id ∧ (id.toNat : ℤ) = x
  | .parent => ∃ p, R.Has (·.contextIds .parent) id p ∧ (p.toNat : ℤ) = x
  | .root => ∃ p, R.Has (·.contextIds .root) id p ∧ (p.toNat : ℤ) = x
  | .created => ∃ t d, R.heads id t d ∧ (t.toNat : ℤ) = x
  | .depth => ∃ t d, R.heads id t d ∧ (d.toNat : ℤ) = x
  | .tag | .title | .label | .user | .service | .host | .traceId | .isLive => False

/-- The relation of numbers that an operator stands for. -/
def Operator.Relates {α : Type} [LinearOrder α] (operator : Operator) (x n : α) : Prop :=
  match operator with
  | .eq => x = n
  | .neq => x ≠ n
  | .gt => n < x
  | .gte => n ≤ x
  | .lt => x < n
  | .lte => x ≤ n
  | .starts | .eqCi | .startsCi | .inList => False

/-- The number of a context meets a condition; for `!=`, a context without a number counts as
well. -/
def Records.Meets (R : Records) (f : FieldName) (operator : Operator) (p : ℤ → Prop)
    (id : UInt64) : Prop :=
  if operator = .neq then R.ids id ∧ ∀ x, R.HasNumber f id x → p x
  else ∃ x, R.HasNumber f id x ∧ p x

/-- A result is exactly the contexts with a property. -/
def Selects (r : QueryResult) (p : UInt64 → Prop) : Prop :=
  ∃ ids, r = .ok ids ∧ ∀ id, id ∈ ids ↔ p id

/-- The operators that a field of integers has. -/
def FieldName.compares : FieldName → List Operator
  | .depth => [.eq, .neq, .gt, .gte, .lt, .lte]
  | .id | .parent | .root => [.eq, .neq]
  | .tag | .title | .label | .user | .service | .host | .traceId | .created | .isLive => []

/-- The number `x` is taken to stand otherwise to `n` than it does: `n` is negative and taken
for zero, or it is a depth of which only the last 32 bits are compared. -/
def Misread (f : FieldName) (operator : Operator) (n x : ℤ) : Prop :=
  match operator with
  | .eq | .neq => n < 0 ∧ x = 0 ∨ f = .depth ∧ 2 ^ 32 ≤ n ∧ x = n % 2 ^ 32
  | .gt | .lte => n < 0 ∧ x = 0 ∨ f = .depth ∧ 2 ^ 32 ≤ n ∧ n % 2 ^ 32 < x
  | .gte | .lt => f = .depth ∧ 2 ^ 32 ≤ n ∧ n % 2 ^ 32 ≤ x
  | .starts | .eqCi | .startsCi | .inList => False

/-! ### The numbers that are compared -/

/-- The integer that a comparison with `n` is made with. -/
def comparedWith (f : FieldName) (n : ℤ) : ℤ :=
  if f = .depth then (n.toNat % 2 ^ 32 : ℕ) else n.toNat

theorem ofRat_intCast {n : ℤ} (hn : |n| < 2 ^ 53) : F64.ofRat n = .finite n := by
  have hbound : |((n : ℤ) : ℚ) * 2 ^ (0 : ℤ)| < 2 ^ 1024 := by
    rw [zpow_zero, mul_one, ← Int.cast_abs]
    calc ((|n| : ℤ) : ℚ) < 2 ^ 53 := by exact_mod_cast hn
      _ ≤ 2 ^ 1024 := pow_le_pow_right₀ (by norm_num) (by norm_num)
  have h := F64.ofRat_of_significand (by norm_num) hn hbound
  rwa [zpow_zero, mul_one] at h

/-- The cast to `u64`. -/
theorem asU64_integerLiteral {n : ℤ} (hn : |n| < 2 ^ 53) :
    (integerLiteral n).asU64 = some (UInt64.ofNat n.toNat) ∧ n.toNat < 2 ^ 53 := by
  have hlt : n.toNat < 2 ^ 53 := by
    have := (abs_lt.mp hn).2
    omega
  refine ⟨?_, hlt⟩
  rw [integerLiteral, Value.asU64, Value.asNumber, ofRat_intCast hn, Option.map_some, F64.toU64,
    Int.floor_intCast, min_eq_left (by omega)]

theorem toNat_ofNat_of_lt {n : ℕ} (h : n < 2 ^ 53) : (UInt64.ofNat n).toNat = n := by
  rw [UInt64.toNat_ofNat']
  exact Nat.mod_eq_of_lt (by omega)

variable {U : UnicodeTables} {D : DateReader} {R : Records} {ix : SecondaryIndexes}
  {live : Finset UInt64}

theorem Filled.mem_others (h : Filled U R ix) {ids : Finset UInt64} {id : UInt64} :
    id ∈ ix.others ids ↔ R.ids id ∧ id ∉ ids := by
  rw [SecondaryIndexes.others, Finset.mem_sdiff, h.indexed.1.all]

/-- A range of an ordered map finds the contexts with a number in it. -/
theorem mem_range_iff {κ : Type} [DecidableEq κ] {m : SetMap κ UInt64} {f : FieldName}
    {toInt : κ → ℤ} (hget : ∀ k id, id ∈ m.get k ↔ R.HasNumber f id (toInt k))
    (hall : ∀ id x, R.HasNumber f id x → ∃ k, toInt k = x) {p : κ → Bool} {q : ℤ → Prop}
    (hpq : ∀ k, p k = true ↔ q (toInt k)) (id : UInt64) :
    id ∈ m.range p ↔ ∃ x, R.HasNumber f id x ∧ q x := by
  rw [SetMap.mem_range]
  constructor
  · rintro ⟨k, hk, hid⟩
    exact ⟨_, (hget k id).mp hid, (hpq k).mp hk⟩
  · rintro ⟨x, hx, hq⟩
    obtain ⟨k, rfl⟩ := hall id x hx
    exact ⟨k, (hpq k).mpr hq, (hget k id).mpr hx⟩

/-- A depth is compared with the last 32 bits of the cast. -/
theorem executeDepth_compares (h : Filled U R ix) {operator : Operator}
    (hop : operator ∈ FieldName.depth.compares) {n : ℤ} (hn : |n| < 2 ^ 53) :
    Selects (executeDepth operator (integerLiteral n) ix)
      (R.Meets .depth operator (operator.Relates · (comparedWith .depth n))) := by
  obtain ⟨hcast, hlt⟩ := asU64_integerLiteral hn
  set m := (UInt64.ofNat n.toNat).toUInt32 with hm
  have hvalue : comparedWith .depth n = (m.toNat : ℤ) := by
    rw [comparedWith, if_pos rfl, hm, UInt64.toNat_toUInt32, toNat_ofNat_of_lt hlt]
  have hget : ∀ d id, id ∈ ix.depthBtree.get d ↔ R.HasNumber .depth id d.toNat := by
    intro d id
    rw [h.indexed.1.depth, Records.HasNumber]
    constructor
    · rintro ⟨t, ht⟩
      exact ⟨t, d, ht, rfl⟩
    · rintro ⟨t, d', ht, heq⟩
      exact ⟨t, UInt32.toNat_inj.mp (Int.ofNat.inj heq) ▸ ht⟩
  have hall : ∀ id x, R.HasNumber .depth id x → ∃ d : UInt32, (d.toNat : ℤ) = x := by
    rintro id x ⟨t, d, -, rfl⟩
    exact ⟨d, rfl⟩
  simp only [executeDepth, expectU64_eq hcast, bind, Except.bind, ← hm, hvalue]
  cases operator with
  | eq =>
      refine ⟨_, rfl, fun id => (hget m id).trans ?_⟩
      simp [Records.Meets, Operator.Relates]
  | neq =>
      refine ⟨_, rfl, fun id => h.mem_others.trans ?_⟩
      rw [SecondaryIndexes.lookupDepthEq, hget]
      simp only [Records.Meets, if_true]
      exact and_congr_right fun _ =>
        ⟨fun hne x hx heq => hne (heq ▸ hx), fun hne hx => hne _ hx rfl⟩
  | gt | gte | lt | lte =>
      refine ⟨_, rfl, mem_range_iff hget hall fun d => ?_⟩
      simp [Operator.Relates, UInt32.lt_iff_toNat_lt, UInt32.le_iff_toNat_le]
  | starts | eqCi | startsCi | inList => simp [FieldName.compares] at hop

/-- The lookup of a context id finds the contexts with that number. -/
def Looks (R : Records) (f : FieldName) (lookup : UInt64 → Finset UInt64) : Prop :=
  ∀ k id, id ∈ lookup k ↔ R.HasNumber f id k.toNat

theorem toNat_intCast_inj {a b : UInt64} : ((a.toNat : ℤ) = b.toNat) ↔ a = b := by
  rw [Int.ofNat_inj, UInt64.toNat_inj]

theorem Filled.looks_id (h : Filled U R ix) :
    Looks R .id fun k => if k ∈ ix.allContextIds then {k} else ∅ := by
  intro k id
  have hnumber : R.HasNumber .id id k.toNat ↔ R.ids id ∧ id = k :=
    and_congr_right fun _ => toNat_intCast_inj
  rw [hnumber]
  dsimp only
  split
  next hk =>
    rw [Finset.mem_singleton]
    exact ⟨fun hid => ⟨hid ▸ (h.indexed.1.all k).mp hk, hid⟩, fun hid => hid.2⟩
  next hk =>
    refine iff_of_false (Finset.notMem_empty id) ?_
    rintro ⟨hid, rfl⟩
    exact hk ((h.indexed.1.all _).mpr hid)

theorem Filled.looks_parent (h : Filled U R ix) : Looks R .parent ix.lookupParentExact := by
  intro k id
  refine (h.indexed.1.parent k id).trans ⟨fun hk => ⟨k, hk, rfl⟩, ?_⟩
  rintro ⟨p, hp, heq⟩
  exact toNat_intCast_inj.mp heq ▸ hp

theorem Filled.looks_root (h : Filled U R ix) : Looks R .root ix.lookupRootExact := by
  intro k id
  refine (h.indexed.1.root k id).trans ⟨fun hk => ⟨k, hk, rfl⟩, ?_⟩
  rintro ⟨p, hp, heq⟩
  exact toNat_intCast_inj.mp heq ▸ hp

/-- The contexts with a number, and those without it. -/
theorem Looks.selects {f : FieldName} {lookup : UInt64 → Finset UInt64} (h : Looks R f lookup)
    {k : UInt64} {ids : Finset UInt64} (hids : ∀ id, id ∈ ids ↔ R.ids id ∧ id ∉ lookup k) :
    Selects (.ok (lookup k)) (R.Meets f .eq (Operator.eq.Relates · (k.toNat : ℤ))) ∧
      Selects (.ok ids) (R.Meets f .neq (Operator.neq.Relates · (k.toNat : ℤ))) := by
  refine ⟨⟨_, rfl, fun id => (h k id).trans ?_⟩, ⟨_, rfl, fun id => (hids id).trans ?_⟩⟩
  · simp [Records.Meets, Operator.Relates]
  · rw [h]
    simp only [Records.Meets, if_true]
    exact and_congr_right fun _ =>
      ⟨fun hne x hx heq => hne (heq ▸ hx), fun hne hx => hne _ hx rfl⟩

/-- The contexts whose number is in a list. -/
theorem Looks.selects_each {f : FieldName} {lookup : UInt64 → Finset UInt64}
    (h : Looks R f lookup) {ns : List ℤ} (hns : ∀ n ∈ ns, |n| < 2 ^ 53) :
    Selects (.ok (lookupEach Value.asU64 lookup (ns.map integerLiteral)))
      fun id => ∃ n ∈ ns, R.HasNumber f id n.toNat := by
  refine ⟨_, rfl, fun id => ?_⟩
  rw [mem_lookupEach]
  constructor
  · rintro ⟨v, hv, k, hk, hid⟩
    obtain ⟨n, hn, rfl⟩ := List.mem_map.mp hv
    obtain ⟨hcast, hlt⟩ := asU64_integerLiteral (hns n hn)
    obtain rfl := Option.some.inj (hcast.symm.trans hk)
    refine ⟨n, hn, ?_⟩
    rw [← toNat_ofNat_of_lt hlt]
    exact (h _ id).mp hid
  · rintro ⟨n, hn, hid⟩
    obtain ⟨hcast, hlt⟩ := asU64_integerLiteral (hns n hn)
    refine ⟨_, List.mem_map_of_mem hn, _, hcast, (h _ id).mpr ?_⟩
    rw [toNat_ofNat_of_lt hlt]
    exact hid

/-- `field op n`. -/
def searchNumber (U : UnicodeTables) (D : DateReader) (ix : SecondaryIndexes)
    (live : Finset UInt64) (f : FieldName) (operator : Operator) (value : Value) : QueryResult :=
  execute U D (.comparison f.asStr operator value) ix live

/-- **A number** is compared as what its casts make of it. -/
theorem Filled.searchNumber_compares (h : Filled U R ix) {f : FieldName} {operator : Operator}
    (hop : operator ∈ f.compares) {n : ℤ} (hn : |n| < 2 ^ 53) :
    Selects (searchNumber U D ix live f operator (integerLiteral n))
      (R.Meets f operator (operator.Relates · (comparedWith f n))) := by
  obtain ⟨hcast, hlt⟩ := asU64_integerLiteral hn
  have hsearch : searchNumber U D ix live f operator (integerLiteral n) =
      executeComparison U D f.asStr operator (integerLiteral n) ix live := rfl
  rw [hsearch, executeComparison, FieldName.fromStr_asStr]
  have hvalue : ∀ g : FieldName, g ≠ .depth →
      comparedWith g n = ((UInt64.ofNat n.toNat).toNat : ℤ) := by
    intro g hg
    rw [comparedWith, if_neg hg, toNat_ofNat_of_lt hlt]
  have hothers : ∀ (ids : Finset UInt64) id, id ∈ ix.others ids ↔ R.ids id ∧ id ∉ ids :=
    fun ids id => h.mem_others
  cases f with
  | depth => exact executeDepth_compares h hop hn
  | id =>
      have herase : ∀ id, id ∈ ix.allContextIds.erase (UInt64.ofNat n.toNat) ↔ R.ids id ∧
          id ∉ (if UInt64.ofNat n.toNat ∈ ix.allContextIds then {UInt64.ofNat n.toNat}
            else (∅ : Finset UInt64)) := by
        intro id
        rw [Finset.mem_erase, h.indexed.1.all, and_comm]
        split
        · rw [Finset.mem_singleton]
        next hk =>
          refine and_congr_right fun hid => iff_of_true ?_ (Finset.notMem_empty id)
          rintro rfl
          exact hk ((h.indexed.1.all _).mpr hid)
      rw [hvalue _ (by simp)]
      cases operator with
      | eq =>
          simp only [executeId, expectU64_eq hcast, bind, Except.bind]
          exact (h.looks_id.selects herase).1
      | neq =>
          simp only [executeId, expectU64_eq hcast, bind, Except.bind]
          exact (h.looks_id.selects herase).2
      | _ => simp [FieldName.compares] at hop
  | parent =>
      rw [hvalue _ (by simp)]
      cases operator with
      | eq =>
          simp only [executeParent, executeReference, expectU64_eq hcast, bind, Except.bind]
          exact (h.looks_parent.selects (hothers _)).1
      | neq =>
          simp only [executeParent, executeReference, expectU64_eq hcast, bind, Except.bind]
          exact (h.looks_parent.selects (hothers _)).2
      | _ => simp [FieldName.compares] at hop
  | root =>
      rw [hvalue _ (by simp)]
      cases operator with
      | eq =>
          simp only [executeRoot, executeReference, expectU64_eq hcast, bind, Except.bind]
          exact (h.looks_root.selects (hothers _)).1
      | neq =>
          simp only [executeRoot, executeReference, expectU64_eq hcast, bind, Except.bind]
          exact (h.looks_root.selects (hothers _)).2
      | _ => simp [FieldName.compares] at hop
  | _ => simp [FieldName.compares] at hop

/-- **A list of numbers** is compared as what the casts make of each. -/
theorem Filled.searchNumbers_compares (h : Filled U R ix) {f : FieldName}
    (hf : f ∈ [.id, .parent, .root]) {ns : List ℤ} (hns : ∀ n ∈ ns, |n| < 2 ^ 53) :
    Selects (searchNumber U D ix live f .inList (.list (ns.map integerLiteral)))
      fun id => ∃ n ∈ ns, R.HasNumber f id n.toNat := by
  have hsearch : searchNumber U D ix live f .inList (.list (ns.map integerLiteral)) =
      executeComparison U D f.asStr .inList (.list (ns.map integerLiteral)) ix live := rfl
  rw [hsearch, executeComparison, FieldName.fromStr_asStr]
  simp only [List.mem_cons, List.not_mem_nil, or_false] at hf
  rcases hf with rfl | rfl | rfl
  · exact h.looks_id.selects_each hns
  · exact h.looks_parent.selects_each hns
  · exact h.looks_root.selects_each hns

/-! ### When another number is noticed -/

/-- A context has one number in a field at most, and is known if it has one. -/
theorem Records.Once.number_unique (h : R.Once) (f : FieldName) {id : UInt64} {x y : ℤ}
    (hx : R.HasNumber f id x) (hy : R.HasNumber f id y) : x = y := by
  have href : ∀ {attr : ContextMetadata → List UInt64} {field : Provenance → Option UInt64},
      (∀ m, attr m = (m.provenance.bind field).toList) →
      (∃ p, R.Has attr id p ∧ (p.toNat : ℤ) = x) → (∃ p, R.Has attr id p ∧ (p.toNat : ℤ) = y) →
      x = y := by
    rintro attr field hattr ⟨p, ⟨m, hm, hp⟩, rfl⟩ ⟨q, ⟨m', hm', hq⟩, rfl⟩
    obtain rfl := h.metadata id m m' hm hm'
    rw [hattr] at hp hq
    rw [Option.mem_unique (Option.mem_toList.mp hp) (Option.mem_toList.mp hq)]
  cases f with
  | id => exact hx.2.symm.trans hy.2
  | parent => exact href (fun _ => rfl) hx hy
  | root => exact href (fun _ => rfl) hx hy
  | created =>
      obtain ⟨t, d, hd, rfl⟩ := hx
      obtain ⟨t', d', hd', rfl⟩ := hy
      rw [(h.heads id t d t' d' hd hd').1]
  | depth =>
      obtain ⟨t, d, hd, rfl⟩ := hx
      obtain ⟨t', d', hd', rfl⟩ := hy
      rw [(h.heads id t d t' d' hd hd').2]
  | _ => exact hx.elim

theorem Records.Once.ids_of_number (h : R.Once) {f : FieldName} {id : UInt64} {x : ℤ}
    (hx : R.HasNumber f id x) : R.ids id := by
  cases f with
  | id => exact hx.1
  | parent | root =>
      obtain ⟨p, ⟨m, hm, -⟩, -⟩ := hx
      exact h.metadata_ids id m hm
  | created | depth =>
      obtain ⟨t, d, hd, -⟩ := hx
      exact h.heads_ids id t d hd
  | _ => exact hx.elim

/-- Numbers are those of unsigned integers. -/
theorem Records.HasNumber.bounds {f : FieldName} {id : UInt64} {x : ℤ} (hx : R.HasNumber f id x) :
    0 ≤ x ∧ (f = .depth → x < 2 ^ 32) := by
  cases f with
  | id =>
      obtain ⟨-, rfl⟩ := hx
      exact ⟨Int.natCast_nonneg _, by simp⟩
  | parent | root =>
      obtain ⟨p, -, rfl⟩ := hx
      exact ⟨Int.natCast_nonneg _, by simp⟩
  | created =>
      obtain ⟨t, d, -, rfl⟩ := hx
      exact ⟨Int.natCast_nonneg _, by simp⟩
  | depth =>
      obtain ⟨t, d, -, rfl⟩ := hx
      have := d.toNat_lt
      exact ⟨Int.natCast_nonneg _, fun _ => by omega⟩
  | _ => exact hx.elim

/-- A context with a number meets a condition if the number does. -/
theorem Records.Once.meets_iff (h : R.Once) {f : FieldName} {operator : Operator} {id : UInt64}
    {x : ℤ} (hx : R.HasNumber f id x) {p : ℤ → Prop} : R.Meets f operator p id ↔ p x := by
  rw [Records.Meets]
  split
  next hop =>
    refine ⟨fun hne => hne.2 x hx, fun hne => ⟨h.ids_of_number hx, fun y hy => ?_⟩⟩
    rw [h.number_unique f hy hx]
    exact hne
  next hop =>
    refine ⟨?_, fun hrel => ⟨x, hx, hrel⟩⟩
    rintro ⟨y, hy, hrel⟩
    exact h.number_unique f hy hx ▸ hrel

/-- The same contexts meet two conditions if and only if the same numbers do. -/
theorem Records.Once.meets_congr_iff (h : R.Once) (f : FieldName) (operator : Operator)
    (p q : ℤ → Prop) : (∀ id, R.Meets f operator p id ↔ R.Meets f operator q id) ↔
      ∀ id x, R.HasNumber f id x → (p x ↔ q x) := by
  constructor
  · intro hsame id x hx
    exact (h.meets_iff hx).symm.trans ((hsame id).trans (h.meets_iff hx))
  · intro hrel id
    by_cases hx : ∃ x, R.HasNumber f id x
    · obtain ⟨x, hx⟩ := hx
      rw [h.meets_iff hx, h.meets_iff hx]
      exact hrel id x hx
    · rw [not_exists] at hx
      simp only [Records.Meets, hx, false_and, exists_false, false_imp_iff, implies_true]

/-- A number stands alike to an integer and to what it is compared as unless it is misread. -/
theorem relates_comparedWith_iff {f : FieldName} {operator : Operator} (hop : operator ∈ f.compares)
    {n x : ℤ} (hx : 0 ≤ x) (hdepth : f = .depth → x < 2 ^ 32) :
    (operator.Relates x (comparedWith f n) ↔ operator.Relates x n) ↔ ¬Misread f operator n x := by
  by_cases hf : f = .depth
  · have hlt := hdepth hf
    subst hf
    rw [comparedWith, if_pos rfl]
    cases operator with
    | starts | eqCi | startsCi | inList => simp [FieldName.compares] at hop
    | _ => simp only [Operator.Relates, Misread, true_and]; omega
  · rw [comparedWith, if_neg hf]
    have hops : operator = .eq ∨ operator = .neq := by
      cases f <;> simp [FieldName.compares] at hop hf ⊢ <;> exact hop
    rcases hops with rfl | rfl <;> simp only [Operator.Relates, Misread, hf, false_and, or_false] <;>
      omega

/-- Two descriptions of what is selected. -/
theorem Selects.iff {r : QueryResult} {p q : UInt64 → Prop} (h : Selects r p) :
    Selects r q ↔ ∀ id, p id ↔ q id := by
  obtain ⟨ids, rfl, hids⟩ := h
  constructor
  · rintro ⟨ids', heq, hids'⟩ id
    obtain rfl := Except.ok.inj heq
    exact (hids id).symm.trans (hids' id)
  · exact fun hpq => ⟨ids, rfl, fun id => (hids id).trans (hpq id)⟩

/-- **Numbers are compared exactly** if and only if no context has a number that is misread; a
list of numbers, if and only if no context has the number zero in place of a negative one. -/
theorem numbers_compared_iff (h : Filled U R ix) (D : DateReader) (live : Finset UInt64) :
    (∀ (f : FieldName) (operator : Operator) (n : ℤ), operator ∈ f.compares → |n| < 2 ^ 53 →
      (Selects (searchNumber U D ix live f operator (integerLiteral n))
          (R.Meets f operator (operator.Relates · n)) ↔
        ∀ id x, R.HasNumber f id x → ¬Misread f operator n x)) ∧
    ∀ (f : FieldName) (ns : List ℤ), f ∈ [.id, .parent, .root] → (∀ n ∈ ns, |n| < 2 ^ 53) →
      (Selects (searchNumber U D ix live f .inList (.list (ns.map integerLiteral)))
          (fun id => ∃ n ∈ ns, R.HasNumber f id n) ↔
        ((∃ n ∈ ns, n < 0) → 0 ∉ ns → ∀ id, ¬R.HasNumber f id 0)) := by
  refine ⟨fun f operator n hop hn => ?_, fun f ns hf hns => ?_⟩
  · rw [(h.searchNumber_compares hop hn).iff, h.once.meets_congr_iff]
    exact forall_congr' fun id => forall_congr' fun x => forall_congr' fun hx =>
      relates_comparedWith_iff hop hx.bounds.1 hx.bounds.2
  · rw [(h.searchNumbers_compares hf hns).iff]
    constructor
    · rintro hsame ⟨n, hn, hneg⟩ hzero id hid
      obtain ⟨n', hn', hid'⟩ := (hsame id).mp ⟨n, hn, by rwa [Int.toNat_of_nonpos hneg.le]⟩
      exact hzero (h.once.number_unique f hid hid' ▸ hn')
    · intro hsafe id
      constructor
      · rintro ⟨n, hn, hid⟩
        rcases lt_or_ge n 0 with hneg | hpos
        · rw [Int.toNat_of_nonpos hneg.le] at hid
          by_cases hzero : 0 ∈ ns
          · exact ⟨0, hzero, hid⟩
          · exact absurd hid (hsafe ⟨n, hn, hneg⟩ hzero id)
        · exact ⟨n, hn, by rwa [Int.toNat_of_nonneg hpos] at hid⟩
      · rintro ⟨n, hn, hid⟩
        exact ⟨n, hn, by rwa [Int.toNat_of_nonneg hid.bounds.1]⟩

/-! ### A negative depth -/

/-- A context that has only its first turn. -/
def firstTurnContext : NewContext :=
  { contextId := 1, metadata := none, createdAtUnixMs := 0, depth := 0 }

/-- The indexes of that context. -/
def firstTurnIndexes : SecondaryIndexes := SecondaryIndexes.new.addContext .ascii 1 none 0 0

theorem filled_firstTurn :
    Filled .ascii (Records.none.note firstTurnContext) firstTurnIndexes :=
  .addContext .new firstTurnContext (by decide)

/-- Depths below five are found. -/
theorem numbers_compared_firstTurn :
    Selects (searchNumber .ascii timeless firstTurnIndexes ∅ .depth .lt (integerLiteral 5))
      ((Records.none.note firstTurnContext).Meets .depth .lt (Operator.lt.Relates · 5)) :=
  ((numbers_compared_iff filled_firstTurn timeless ∅).1 .depth .lt 5 (by decide)
    (by norm_num)).mpr fun id x _ => by simp [Misread]

/-- The depth zero is selected by a negative one. -/
theorem negative_selects_zero :
    ¬ ∀ R ix, Filled .ascii R ix → ∀ (f : FieldName) (operator : Operator) (n : ℤ),
      operator ∈ f.compares → |n| < 2 ^ 53 →
        Selects (searchNumber .ascii timeless ix ∅ f operator (integerLiteral n))
          (R.Meets f operator (operator.Relates · n)) := by
  intro h
  obtain ⟨ids, hids, hmem⟩ := h _ _ filled_firstTurn .depth .eq (-1) (by decide) (by norm_num)
  have hfound : searchNumber .ascii timeless firstTurnIndexes ∅ .depth .eq (integerLiteral (-1)) =
      .ok {1} := by
    decide +kernel
  obtain rfl := Except.ok.inj (hfound.symm.trans hids)
  obtain ⟨x, ⟨t, d, -, rfl⟩, hx⟩ := (hmem 1).mp (Finset.mem_singleton_self 1)
  have hnonneg := Int.natCast_nonneg d.toNat
  rw [show ((d.toNat : ℤ) = -1) from hx] at hnonneg
  exact absurd hnonneg (by decide)

end Cxdb
