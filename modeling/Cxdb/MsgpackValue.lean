import Cxdb.ByteFormat

/-!
# Msgpack Values

`rmpv::Value`, as the readers and writers of payloads take it apart. Reading and writing the
bytes is left to the crate, which is a parameter where it is needed.
-/

open ByteFormat

namespace Cxdb

/-- `rmpv::Value`; a double or a single has its bits. The text of a string is missing where its
bytes are not UTF-8. -/
inductive MsgpackValue where
  | nil
  | boolean (b : Bool)
  | integer (n : ℤ)
  | f32 (bits : UInt32)
  | f64 (bits : UInt64)
  | string (s : Option String)
  | binary (bytes : Bytes)
  | array (items : List MsgpackValue)
  | map (entries : List (MsgpackValue × MsgpackValue))
  | ext (type : Int8) (data : Bytes)

/-- `Integer::as_u64`. -/
def integerAsU64 (n : ℤ) : Option UInt64 :=
  if 0 ≤ n ∧ n < 2 ^ 64 then some (UInt64.ofNat n.toNat) else none

/-- `Integer::as_i64`. -/
def integerAsI64 (n : ℤ) : Option ℤ :=
  if -2 ^ 63 ≤ n ∧ n < 2 ^ 63 then some n else none

theorem integerAsU64_toNat (n : UInt64) : integerAsU64 n.toNat = some n := by
  have h := n.toNat_lt
  rw [integerAsU64, if_pos ⟨Int.natCast_nonneg _, by omega⟩, Int.toNat_natCast, UInt64.ofNat_toNat]

theorem integerAsI64_eq {n : ℤ} (hn : -2 ^ 63 ≤ n) (h : n < 2 ^ 63) : integerAsI64 n = some n :=
  if_pos ⟨hn, h⟩

end Cxdb
