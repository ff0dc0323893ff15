import Mathlib.Data.Vector.Basic

/-!
# Little-Endian Byte Formats

Fixed-width words and blocks of bytes as they stand in a file or a frame. A *taker*
reads one value from the front of a byte string and returns it with the bytes left
over, or `none` when the string is too short; nothing else can go wrong at this level.

## Main results

* `ofLeBytes_leBytes`: the `n` little-endian bytes of `x` denote `x % 256 ^ n`.
* `takeU64_append`, `takeU32_append`, `takeU16_append`, `takeVector_append`,
  `takeBytes_append`: each taker undoes its writer, whatever bytes follow.
* `takeU64_cases` and its companions: a taker fails on a short string and otherwise
  advances by the width of its field.
* `takeU64_eq` and its companions: a taker reads what its writer writes, and nothing else.
* `takeU64_mono` and its companions: what a taker takes does not depend on what follows.
-/

namespace ByteFormat

/-- A byte string: the content of a file, a record, a payload. -/
abbrev Bytes := List UInt8

/-! ### Words as byte strings -/

/-- The `n` low little-endian bytes of `x`. -/
def leBytes : ℕ → ℕ → Bytes
  | 0, _ => []
  | n + 1, x => UInt8.ofNat x :: leBytes n (x / 256)

/-- The number a little-endian byte string denotes. -/
def ofLeBytes : Bytes → ℕ
  | [] => 0
  | b :: bs => b.toNat + 256 * ofLeBytes bs

@[simp] theorem length_leBytes (n x : ℕ) : (leBytes n x).length = n := by
  induction n generalizing x with
  | zero => rfl
  | succ n ih => simp [leBytes, ih]

/-- Writing keeps the value modulo the width. -/
theorem ofLeBytes_leBytes (n x : ℕ) : ofLeBytes (leBytes n x) = x % 256 ^ n := by
  induction n generalizing x with
  | zero => simp [leBytes, ofLeBytes, Nat.mod_one]
  | succ n ih =>
      simp only [leBytes, ofLeBytes, ih, UInt8.toNat_ofNat', Nat.pow_succ']
      have h := Nat.mod_mul (x := x) (a := 256) (b := 256 ^ n)
      omega

/-- The eight bytes of a `u64`. -/
def u64Bytes (x : UInt64) : Bytes := leBytes 8 x.toNat

/-- The four bytes of a `u32`. -/
def u32Bytes (x : UInt32) : Bytes := leBytes 4 x.toNat

/-- The two bytes of a `u16`. -/
def u16Bytes (x : UInt16) : Bytes := leBytes 2 x.toNat

@[simp] theorem length_u64Bytes (x : UInt64) : (u64Bytes x).length = 8 :=
  length_leBytes _ _

@[simp] theorem length_u32Bytes (x : UInt32) : (u32Bytes x).length = 4 :=
  length_leBytes _ _

@[simp] theorem length_u16Bytes (x : UInt16) : (u16Bytes x).length = 2 :=
  length_leBytes _ _

/-! ### Takers -/

/-- The first `n` bytes and the rest. -/
def takeBytes (n : ℕ) (bs : Bytes) : Option (Bytes × Bytes) :=
  if n ≤ bs.length then some (bs.take n, bs.drop n) else none

/-- The first `n` bytes as a block of that length, and the rest. -/
def takeVector (n : ℕ) (bs : Bytes) : Option (List.Vector UInt8 n × Bytes) :=
  if h : n ≤ bs.length then some (⟨bs.take n, by simp [h]⟩, bs.drop n) else none

/-- The `u64` in front and the rest. -/
def takeU64 (bs : Bytes) : Option (UInt64 × Bytes) :=
  (takeBytes 8 bs).map fun p => (UInt64.ofNat (ofLeBytes p.1), p.2)

/-- The `u32` in front and the rest. -/
def takeU32 (bs : Bytes) : Option (UInt32 × Bytes) :=
  (takeBytes 4 bs).map fun p => (UInt32.ofNat (ofLeBytes p.1), p.2)

/-- The `u16` in front and the rest. -/
def takeU16 (bs : Bytes) : Option (UInt16 × Bytes) :=
  (takeBytes 2 bs).map fun p => (UInt16.ofNat (ofLeBytes p.1), p.2)

theorem takeBytes_append {n : ℕ} {a : Bytes} (h : a.length = n) (rest : Bytes) :
    takeBytes n (a ++ rest) = some (a, rest) := by
  simp [takeBytes, ← h]

@[simp] theorem takeVector_append {n : ℕ} (v : List.Vector UInt8 n) (rest : Bytes) :
    takeVector n (v.toList ++ rest) = some (v, rest) := by
  obtain ⟨l, rfl⟩ := v
  simp [takeVector, List.Vector.toList]

@[simp] theorem takeU64_append (x : UInt64) (rest : Bytes) :
    takeU64 (u64Bytes x ++ rest) = some (x, rest) := by
  rw [takeU64, takeBytes_append (length_u64Bytes x)]
  have hx : ofLeBytes (u64Bytes x) = x.toNat := by
    rw [u64Bytes, ofLeBytes_leBytes]
    exact Nat.mod_eq_of_lt x.toNat_lt
  simp [hx]

@[simp] theorem takeU32_append (x : UInt32) (rest : Bytes) :
    takeU32 (u32Bytes x ++ rest) = some (x, rest) := by
  rw [takeU32, takeBytes_append (length_u32Bytes x)]
  have hx : ofLeBytes (u32Bytes x) = x.toNat := by
    rw [u32Bytes, ofLeBytes_leBytes]
    exact Nat.mod_eq_of_lt x.toNat_lt
  simp [hx]

@[simp] theorem takeU16_append (x : UInt16) (rest : Bytes) :
    takeU16 (u16Bytes x ++ rest) = some (x, rest) := by
  rw [takeU16, takeBytes_append (length_u16Bytes x)]
  have hx : ofLeBytes (u16Bytes x) = x.toNat := by
    rw [u16Bytes, ofLeBytes_leBytes]
    exact Nat.mod_eq_of_lt x.toNat_lt
  simp [hx]

/-! ### A taker fails or advances -/

theorem takeBytes_short {n : ℕ} {bs : Bytes} (h : bs.length < n) : takeBytes n bs = none := by
  simp [takeBytes, h]

theorem takeU32_short {bs : Bytes} (h : bs.length < 4) : takeU32 bs = none := by
  simp [takeU32, takeBytes_short h]

theorem takeBytes_cases (n : ℕ) (bs : Bytes) :
    takeBytes n bs = none ∧ bs.length < n ∨
      ∃ a rest, takeBytes n bs = some (a, rest) ∧ bs.length = n + rest.length := by
  by_cases h : n ≤ bs.length
  · exact Or.inr ⟨bs.take n, bs.drop n, by simp [takeBytes, h], by simp; omega⟩
  · exact Or.inl ⟨by simp [takeBytes, h], by omega⟩

theorem takeVector_cases (n : ℕ) (bs : Bytes) :
    takeVector n bs = none ∧ bs.length < n ∨
      ∃ v rest, takeVector n bs = some (v, rest) ∧ bs.length = n + rest.length := by
  by_cases h : n ≤ bs.length
  · exact Or.inr ⟨⟨bs.take n, by simp [h]⟩, bs.drop n, by simp [takeVector, h],
      by simp; omega⟩
  · exact Or.inl ⟨by simp [takeVector, h], by omega⟩

theorem takeU64_cases (bs : Bytes) :
    takeU64 bs = none ∧ bs.length < 8 ∨
      ∃ x rest, takeU64 bs = some (x, rest) ∧ bs.length = 8 + rest.length := by
  rcases takeBytes_cases 8 bs with ⟨h, hlen⟩ | ⟨a, rest, h, hlen⟩
  · exact Or.inl ⟨by simp [takeU64, h], hlen⟩
  · exact Or.inr ⟨UInt64.ofNat (ofLeBytes a), rest, by simp [takeU64, h], hlen⟩

theorem takeU32_cases (bs : Bytes) :
    takeU32 bs = none ∧ bs.length < 4 ∨
      ∃ x rest, takeU32 bs = some (x, rest) ∧ bs.length = 4 + rest.length := by
  rcases takeBytes_cases 4 bs with ⟨h, hlen⟩ | ⟨a, rest, h, hlen⟩
  · exact Or.inl ⟨by simp [takeU32, h], hlen⟩
  · exact Or.inr ⟨UInt32.ofNat (ofLeBytes a), rest, by simp [takeU32, h], hlen⟩

theorem takeU16_cases (bs : Bytes) :
    takeU16 bs = none ∧ bs.length < 2 ∨
      ∃ x rest, takeU16 bs = some (x, rest) ∧ bs.length = 2 + rest.length := by
  rcases takeBytes_cases 2 bs with ⟨h, hlen⟩ | ⟨a, rest, h, hlen⟩
  · exact Or.inl ⟨by simp [takeU16, h], hlen⟩
  · exact Or.inr ⟨UInt16.ofNat (ofLeBytes a), rest, by simp [takeU16, h], hlen⟩

/-! ### A taker reads what a writer writes -/

theorem ofLeBytes_lt (bs : Bytes) : ofLeBytes bs < 256 ^ bs.length := by
  induction bs with
  | nil => exact Nat.one_pos
  | cons b bs ih =>
      have hb := b.toNat_lt
      rw [ofLeBytes, List.length_cons, Nat.pow_succ']
      omega

theorem leBytes_ofLeBytes (bs : Bytes) : leBytes bs.length (ofLeBytes bs) = bs := by
  induction bs with
  | nil => rfl
  | cons b bs ih =>
      have hb := b.toNat_lt
      have hdiv : (b.toNat + 256 * ofLeBytes bs) / 256 = ofLeBytes bs := by omega
      have hhead : UInt8.ofNat (b.toNat + 256 * ofLeBytes bs) = b := by
        rw [← UInt8.toNat_inj, UInt8.toNat_ofNat']
        omega
      rw [ofLeBytes, List.length_cons, leBytes, hdiv, ih, hhead]

theorem takeBytes_eq {n : ℕ} {bs a rest : Bytes} (h : takeBytes n bs = some (a, rest)) :
    bs = a ++ rest ∧ a.length = n := by
  rw [takeBytes] at h
  split_ifs at h with hn
  obtain ⟨rfl, rfl⟩ := Prod.mk.inj (Option.some.inj h)
  exact ⟨(List.take_append_drop n bs).symm, List.length_take_of_le hn⟩

theorem takeU64_eq {bs rest : Bytes} {x : UInt64} (h : takeU64 bs = some (x, rest)) :
    bs = u64Bytes x ++ rest := by
  obtain ⟨⟨a, rest'⟩, htake, heq⟩ := Option.map_eq_some_iff.mp h
  obtain ⟨rfl, rfl⟩ := Prod.mk.inj heq
  obtain ⟨rfl, hlen⟩ := takeBytes_eq htake
  have hlt : ofLeBytes a < 2 ^ 64 := by simpa [hlen] using ofLeBytes_lt a
  rw [u64Bytes, UInt64.toNat_ofNat_of_lt' hlt, ← hlen, leBytes_ofLeBytes]

theorem takeU32_eq {bs rest : Bytes} {x : UInt32} (h : takeU32 bs = some (x, rest)) :
    bs = u32Bytes x ++ rest := by
  obtain ⟨⟨a, rest'⟩, htake, heq⟩ := Option.map_eq_some_iff.mp h
  obtain ⟨rfl, rfl⟩ := Prod.mk.inj heq
  obtain ⟨rfl, hlen⟩ := takeBytes_eq htake
  have hlt : ofLeBytes a < 2 ^ 32 := by simpa [hlen] using ofLeBytes_lt a
  rw [u32Bytes, UInt32.toNat_ofNat_of_lt' hlt, ← hlen, leBytes_ofLeBytes]

theorem takeVector_eq {n : ℕ} {bs rest : Bytes} {v : List.Vector UInt8 n}
    (h : takeVector n bs = some (v, rest)) : bs = v.toList ++ rest := by
  rw [takeVector] at h
  split_ifs at h
  obtain ⟨rfl, rfl⟩ := Prod.mk.inj (Option.some.inj h)
  exact (List.take_append_drop n bs).symm

/-! ### More bytes -/

/-- A block in front stays in front, whatever comes after it. -/
theorem takeBytes_mono {n : ℕ} {bs a rest : Bytes} (h : takeBytes n bs = some (a, rest))
    (more : Bytes) : takeBytes n (bs ++ more) = some (a, rest ++ more) := by
  unfold takeBytes at h
  split at h
  next hn =>
    obtain ⟨rfl, rfl⟩ := Prod.mk.inj (Option.some.inj h)
    have hlen : (bs.take n).length = n := List.length_take_of_le hn
    calc takeBytes n (bs ++ more)
        = takeBytes n (bs.take n ++ (bs.drop n ++ more)) := by
          rw [← List.append_assoc, List.take_append_drop]
      _ = some (bs.take n, bs.drop n ++ more) := takeBytes_append hlen _
  · cases h

/-- A word in front stays in front. -/
theorem takeWord_mono {α : Type} {n : ℕ} {g : Bytes → α} {bs rest : Bytes} {x : α}
    (h : (takeBytes n bs).map (fun p => (g p.1, p.2)) = some (x, rest)) (more : Bytes) :
    (takeBytes n (bs ++ more)).map (fun p => (g p.1, p.2)) = some (x, rest ++ more) := by
  obtain ⟨⟨a, rest'⟩, htake, heq⟩ := Option.map_eq_some_iff.mp h
  obtain ⟨rfl, rfl⟩ := Prod.mk.inj heq
  rw [takeBytes_mono htake]
  rfl

theorem takeU64_mono {bs rest : Bytes} {x : UInt64} (h : takeU64 bs = some (x, rest))
    (more : Bytes) : takeU64 (bs ++ more) = some (x, rest ++ more) :=
  takeWord_mono (g := fun a => UInt64.ofNat (ofLeBytes a)) h more

theorem takeU32_mono {bs rest : Bytes} {x : UInt32} (h : takeU32 bs = some (x, rest))
    (more : Bytes) : takeU32 (bs ++ more) = some (x, rest ++ more) :=
  takeWord_mono (g := fun a => UInt32.ofNat (ofLeBytes a)) h more

theorem takeU16_mono {bs rest : Bytes} {x : UInt16} (h : takeU16 bs = some (x, rest))
    (more : Bytes) : takeU16 (bs ++ more) = some (x, rest ++ more) :=
  takeWord_mono (g := fun a => UInt16.ofNat (ofLeBytes a)) h more

end ByteFormat
