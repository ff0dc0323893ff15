import Cxdb.ByteFormat

/-!
# The Format Msgpack

A value in msgpack begins with a byte that tells its kind, and for most kinds its length or the
width of what follows. The reader has fuel for the depth of arrays and maps.

## Main results

* `readMany_flatMap`: values that are written one after the other are read one after the other.
* `readHead_text`, `readHead_items`: the heads of strings and arrays, in their widths.
-/

namespace Msgpack

open ByteFormat

/-- A value; a string has its bytes, which need not be text, and a single or a double its bits. -/
inductive Value where
  | nil
  | boolean (b : Bool)
  | integer (n : ℤ)
  | f32 (bits : ℕ)
  | f64 (bits : ℕ)
  | string (bytes : Bytes)
  | binary (bytes : Bytes)
  | array (items : List Value)
  | map (entries : List (Value × Value))
  | ext (type : ℤ) (data : Bytes)

/-! ### Numbers -/

/-- The next `n` bytes. -/
def takeBytes (n : ℕ) (bs : Bytes) : Option (Bytes × Bytes) :=
  if n ≤ bs.length then some (bs.take n, bs.drop n) else none

/-- The next number of `n` bytes, the highest first. -/
def takeNat (n : ℕ) (bs : Bytes) : Option (ℕ × Bytes) :=
  (takeBytes n bs).map fun x => (ofLeBytes x.1.reverse, x.2)

/-- A number in two's complement. -/
def signed (bytes n : ℕ) : ℤ := if 2 * n < 256 ^ bytes then n else n - 256 ^ bytes

theorem takeBytes_append (bs rest : Bytes) :
    takeBytes bs.length (bs ++ rest) = some (bs, rest) := by
  rw [takeBytes, if_pos (by rw [List.length_append]; exact Nat.le_add_right _ _),
    List.take_left, List.drop_left]

theorem takeNat_append {n x : ℕ} (h : x < 256 ^ n) (rest : Bytes) :
    takeNat n ((leBytes n x).reverse ++ rest) = some (x, rest) := by
  have hlen : (leBytes n x).reverse.length = n := by rw [List.length_reverse, length_leBytes]
  have htake := takeBytes_append (leBytes n x).reverse rest
  rw [hlen] at htake
  rw [takeNat, htake, Option.map_some, List.reverse_reverse, ofLeBytes_leBytes,
    Nat.mod_eq_of_lt h]

/-! ### Heads -/

/-- What the beginning of a value tells: the value itself, or how much follows. -/
inductive Head where
  | value (v : Value)
  | text (length : ℕ)
  | bytes (length : ℕ)
  | items (count : ℕ)
  | pairs (count : ℕ)
  | ext (length : ℕ)

/-- A head with a number of `n` bytes. -/
def headOf (n : ℕ) (head : ℕ → Head) (bs : Bytes) : Option (Head × Bytes) :=
  (takeNat n bs).map fun x => (head x.1, x.2)

/-- The head of a value, from its first byte. -/
def readHead : Bytes → Option (Head × Bytes)
  | [] => none
  | b :: bs =>
      if b < 0x80 then some (.value (.integer b.toNat), bs)
      else if b < 0x90 then some (.pairs (b.toNat - 0x80), bs)
      else if b < 0xa0 then some (.items (b.toNat - 0x90), bs)
      else if b < 0xc0 then some (.text (b.toNat - 0xa0), bs)
      else if b = 0xc0 then some (.value .nil, bs)
      else if b = 0xc1 then none
      else if b = 0xc2 then some (.value (.boolean false), bs)
      else if b = 0xc3 then some (.value (.boolean true), bs)
      else if b = 0xc4 then headOf 1 .bytes bs
      else if b = 0xc5 then headOf 2 .bytes bs
      else if b = 0xc6 then headOf 4 .bytes bs
      else if b = 0xc7 then headOf 1 .ext bs
      else if b = 0xc8 then headOf 2 .ext bs
      else if b = 0xc9 then headOf 4 .ext bs
      else if b = 0xca then headOf 4 (fun n => .value (.f32 n)) bs
      else if b = 0xcb then headOf 8 (fun n => .value (.f64 n)) bs
      else if b = 0xcc then headOf 1 (fun n => .value (.integer n)) bs
      else if b = 0xcd then headOf 2 (fun n => .value (.integer n)) bs
      else if b = 0xce then headOf 4 (fun n => .value (.integer n)) bs
      else if b = 0xcf then headOf 8 (fun n => .value (.integer n)) bs
      else if b = 0xd0 then headOf 1 (fun n => .value (.integer (signed 1 n))) bs
      else if b = 0xd1 then headOf 2 (fun n => .value (.integer (signed 2 n))) bs
      else if b = 0xd2 then headOf 4 (fun n => .value (.integer (signed 4 n))) bs
      else if b = 0xd3 then headOf 8 (fun n => .value (.integer (signed 8 n))) bs
      else if b = 0xd4 then some (.ext 1, bs)
      else if b = 0xd5 then some (.ext 2, bs)
      else if b = 0xd6 then some (.ext 4, bs)
      else if b = 0xd7 then some (.ext 8, bs)
      else if b = 0xd8 then some (.ext 16, bs)
      else if b = 0xd9 then headOf 1 .text bs
      else if b = 0xda then headOf 2 .text bs
      else if b = 0xdb then headOf 4 .text bs
      else if b = 0xdc then headOf 2 .items bs
      else if b = 0xdd then headOf 4 .items bs
      else if b = 0xde then headOf 2 .pairs bs
      else if b = 0xdf then headOf 4 .pairs bs
      else some (.value (.integer (b.toNat - 256)), bs)

theorem headOf_append {n x : ℕ} (h : x < 256 ^ n) (head : ℕ → Head) (rest : Bytes) :
    headOf n head ((leBytes n x).reverse ++ rest) = some (head x, rest) := by
  rw [headOf, takeNat_append h, Option.map_some]

/-- The head of a string, in the shortest width. -/
theorem readHead_text {n : ℕ} (h : n < 2 ^ 32) (rest : Bytes) :
    readHead ((if n < 32 then [UInt8.ofNat (0xa0 + n)]
      else if n < 2 ^ 8 then 0xd9 :: (leBytes 1 n).reverse
      else if n < 2 ^ 16 then 0xda :: (leBytes 2 n).reverse
      else 0xdb :: (leBytes 4 n).reverse) ++ rest) = some (.text n, rest) := by
  split_ifs with h5 h8 h16
  · have hb : (UInt8.ofNat (0xa0 + n)).toNat = 0xa0 + n := by
      rw [UInt8.toNat_ofNat']
      omega
    rw [List.singleton_append, readHead]
    simp only [UInt8.lt_iff_toNat_lt, hb, UInt8.reduceToNat]
    rw [if_neg (by omega), if_neg (by omega), if_neg (by omega), if_pos (by omega)]
    simp
  · have hx : n < 256 ^ 1 := by omega
    exact headOf_append hx .text rest
  · have hx : n < 256 ^ 2 := by omega
    exact headOf_append hx .text rest
  · have hx : n < 256 ^ 4 := by omega
    exact headOf_append hx .text rest

/-- The head of an array, in the shortest width. -/
theorem readHead_items {n : ℕ} (h : n < 2 ^ 32) (rest : Bytes) :
    readHead ((if n < 16 then [UInt8.ofNat (0x90 + n)]
      else if n < 2 ^ 16 then 0xdc :: (leBytes 2 n).reverse
      else 0xdd :: (leBytes 4 n).reverse) ++ rest) = some (.items n, rest) := by
  split_ifs with h4 h16
  · have hb : (UInt8.ofNat (0x90 + n)).toNat = 0x90 + n := by
      rw [UInt8.toNat_ofNat']
      omega
    rw [List.singleton_append, readHead]
    simp only [UInt8.lt_iff_toNat_lt, hb, UInt8.reduceToNat]
    rw [if_neg (by omega), if_neg (by omega), if_pos (by omega)]
    simp
  · have hx : n < 256 ^ 2 := by omega
    exact headOf_append hx .items rest
  · have hx : n < 256 ^ 4 := by omega
    exact headOf_append hx .items rest

/-! ### Values -/

/-- `n` values, one after the other. -/
def readMany {α : Type} (read : Bytes → Option (α × Bytes)) : ℕ → Bytes → Option (List α × Bytes)
  | 0, bs => some ([], bs)
  | n + 1, bs => do
      let (a, bs) ← read bs
      let (as, bs) ← readMany read n bs
      return (a :: as, bs)

/-- A key and a value. -/
def readPair (read : Bytes → Option (Value × Bytes)) (bs : Bytes) :
    Option ((Value × Value) × Bytes) := do
  let (k, bs) ← read bs
  let (v, bs) ← read bs
  return ((k, v), bs)

/-- A value whose arrays and maps are less than `fuel` deep. -/
def readValue : ℕ → Bytes → Option (Value × Bytes)
  | 0, _ => none
  | fuel + 1, bs => do
      let (head, bs) ← readHead bs
      match head with
      | .value v => return (v, bs)
      | .text n =>
          let (x, bs) ← takeBytes n bs
          return (.string x, bs)
      | .bytes n =>
          let (x, bs) ← takeBytes n bs
          return (.binary x, bs)
      | .items n =>
          let (items, bs) ← readMany (readValue fuel) n bs
          return (.array items, bs)
      | .pairs n =>
          let (entries, bs) ← readMany (readPair (readValue fuel)) n bs
          return (.map entries, bs)
      | .ext n =>
          let (type, bs) ← takeNat 1 bs
          let (data, bs) ← takeBytes n bs
          return (.ext (signed 1 type) data, bs)

/-- The value at the beginning, where it is no deeper than 1024. -/
def read (bs : Bytes) : Option Value := (readValue 1024 bs).map Prod.fst

/-- **Values that are written one after the other** are read one after the other. -/
theorem readMany_flatMap {α β : Type} {read : Bytes → Option (α × Bytes)} {bytes : β → Bytes}
    {value : β → α} {xs : List β}
    (h : ∀ x ∈ xs, ∀ rest, read (bytes x ++ rest) = some (value x, rest)) (rest : Bytes) :
    readMany read xs.length (xs.flatMap bytes ++ rest) = some (xs.map value, rest) := by
  induction xs with
  | nil => rfl
  | cons x xs ih =>
      rw [List.flatMap_cons, List.append_assoc, List.length_cons, readMany,
        h x List.mem_cons_self]
      change (readMany read xs.length (xs.flatMap bytes ++ rest) >>= _) = _
      rw [ih fun y hy => h y (List.mem_cons_of_mem _ hy)]
      rfl

end Msgpack
