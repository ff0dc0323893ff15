import Cxdb.FsTrees
import Cxdb.MsgpackFormat
import Cxdb.Snapshots
import Cxdb.TurnDecoders

/-!
# Decoders of Tree Objects

A tree object is read by the server, by the Go client and by the Rust client. The libraries for
msgpack are parameters that read a value as the format has it. What the decoders make of the
value is here, for any value.

## Main results

* `read_serializeTree`: the value that a tree object is.
* `parseTreeEntry_value`, `Go.readEntry_value`, `Rust.readEntry_value`: what the decoders make of
  an entry in it.
-/

open ByteFormat

namespace Cxdb

/-! ### Values and libraries -/

/-- A value as `rmpv` has it. -/
def rmpvValue : Msgpack.Value → MsgpackValue
  | .nil => .nil
  | .boolean b => .boolean b
  | .integer n => .integer n
  | .f32 bits => .f32 (UInt32.ofNat bits)
  | .f64 bits => .f64 (UInt64.ofNat bits)
  | .string bytes => .string (fromUtf8 bytes)
  | .binary bytes => .binary bytes
  | .array items => .array (items.map rmpvValue)
  | .map entries => .map (entries.map fun e => (rmpvValue e.1, rmpvValue e.2))
  | .ext type data => .ext (Int8.ofInt type) data
termination_by v => sizeOf v
decreasing_by
  · have := List.sizeOf_lt_of_mem ‹_›
    simp only [Msgpack.Value.array.sizeOf_spec]
    omega
  · have := List.sizeOf_lt_of_mem ‹_›
    obtain ⟨k, v⟩ := e
    simp only [Msgpack.Value.map.sizeOf_spec, Prod.mk.sizeOf_spec] at *
    omega
  · have := List.sizeOf_lt_of_mem ‹_›
    obtain ⟨k, v⟩ := e
    simp only [Msgpack.Value.map.sizeOf_spec, Prod.mk.sizeOf_spec] at *
    omega

/-- The libraries that read single values: `rmpv`, `rmp_serde`, and the `msgpack` package. -/
structure MsgpackLibraries where
  rmpv : Bytes → Except String MsgpackValue
  serde : Bytes → Except String MsgpackValue
  go : Bytes → Except String Msgpack.Value

/-- They read what the format has. -/
structure MsgpackLibraries.Lawful (libs : MsgpackLibraries) : Prop where
  rmpv : ∀ {bs v}, Msgpack.read bs = some v → libs.rmpv bs = .ok (rmpvValue v)
  serde : ∀ {bs v}, Msgpack.read bs = some v → libs.serde bs = .ok (rmpvValue v)
  go : ∀ {bs v}, Msgpack.read bs = some v → libs.go bs = .ok v

/-- What an entry says, as a decoder has it. -/
structure EntryFields where
  name : Bytes
  kind : UInt8
  mode : UInt32
  size : UInt64
  hash : Bytes
  deriving DecidableEq

def TreeEntry.fields (e : TreeEntry) : EntryFields :=
  ⟨e.name, e.kind.toU8, e.mode, e.size, e.hash.toList⟩

def FsStore.TreeEntry.fields (e : FsStore.TreeEntry) : EntryFields :=
  ⟨utf8Bytes e.name, e.kind, e.mode, e.size, e.hash⟩

/-! ### Go -/

namespace Go

/-- The bytes of a string or of a binary; `nil` is empty. -/
def stringOf : Msgpack.Value → Option Bytes
  | .string bytes => some bytes
  | .binary bytes => some bytes
  | .nil => some []
  | _ => none

/-- An integer as one without a sign, in two's complement; `nil` is zero. -/
def uintOf : Msgpack.Value → Option UInt64
  | .integer n => some (UInt64.ofInt n)
  | .nil => some 0
  | _ => none

/-- A value that is read into an array of bytes: a shorter one leaves the rest of it. -/
def arrayOf (old : Bytes) : Msgpack.Value → Option Bytes
  | .nil => some old
  | v => (stringOf v).bind fun bytes =>
      if old.length < bytes.length then none else some (bytes ++ old.drop bytes.length)

/-- One field of a `TreeEntry`, by its tag; other fields are skipped. -/
def setEntryField (entry : EntryFields) (field : Msgpack.Value × Msgpack.Value) : Option EntryFields :=
  match stringOf field.1 with
  | none => none
  | some tag =>
      if tag = utf8Bytes "1" then (stringOf field.2).map fun name => { entry with name }
      else if tag = utf8Bytes "2" then
        (uintOf field.2).map fun n => { entry with kind := n.toUInt8 }
      else if tag = utf8Bytes "3" then
        (uintOf field.2).map fun n => { entry with mode := n.toUInt32 }
      else if tag = utf8Bytes "4" then (uintOf field.2).map fun n => { entry with size := n }
      else if tag = utf8Bytes "5" then
        (arrayOf entry.hash field.2).map fun hash => { entry with hash }
      else some entry

/-- The zero value of a `TreeEntry`. -/
def zeroEntry : EntryFields := ⟨[], 0, 0, 0, List.replicate 32 0⟩

/-- A `TreeEntry` from a map by its tags, or from an array by its order. -/
def readEntry : Msgpack.Value → Option EntryFields
  | .map fields => fields.foldlM setEntryField zeroEntry
  | .array items =>
      ((["1", "2", "3", "4", "5"].map fun tag => Msgpack.Value.string (utf8Bytes tag)).zip
        items).foldlM setEntryField zeroEntry
  | .nil => some zeroEntry
  | _ => none

/-- A slice; `nil` is one without entries. -/
def readEntries : Msgpack.Value → Option (List EntryFields)
  | .nil => some []
  | .array items => items.mapM readEntry
  | _ => none

/-- `DeserializeTree`. -/
def deserializeTree (libs : MsgpackLibraries) (data : Bytes) : Option (List EntryFields) :=
  (libs.go data).toOption.bind readEntries

end Go

/-! ### Rust -/

namespace Rust

/-- The field of a key, by its name or its number. -/
def fieldIndex : MsgpackValue → Option ℕ
  | .string (some s) => some (["1", "2", "3", "4", "5"].idxOf s)
  | .integer n => (integerAsU64 n).map UInt64.toNat
  | _ => none

/-- The value of a field that there is once. -/
def valueAt (fields : List (ℕ × MsgpackValue)) (i : ℕ) : Option MsgpackValue :=
  match fields.filter fun f => f.1 = i with
  | [f] => some f.2
  | _ => none

def textOf : MsgpackValue → Option Bytes
  | .string (some s) => some (utf8Bytes s)
  | _ => none

/-- An integer in the range of a type. -/
def natBelow (bound : ℕ) : MsgpackValue → Option UInt64
  | .integer n => (integerAsU64 n).filter fun n => n.toNat < bound
  | _ => none

/-- Thirty-two bytes. -/
def hashOf : MsgpackValue → Option Bytes
  | .binary bytes => if bytes.length = 32 then some bytes else none
  | _ => none

/-- A `TreeEntry` from the values of its fields. -/
def ofValues (values : ℕ → Option MsgpackValue) : Option EntryFields := do
  let name ← (values 0).bind textOf
  let kind ← (values 1).bind (natBelow (2 ^ 8))
  let mode ← (values 2).bind (natBelow (2 ^ 32))
  let size ← (values 3).bind (natBelow (2 ^ 64))
  let hash ← (values 4).bind hashOf
  return ⟨name, kind.toUInt8, mode.toUInt32, size, hash⟩

/-- What `Deserialize` of a `TreeEntry` makes of a value. -/
def readEntry : MsgpackValue → Option EntryFields
  | .map fields => do
      let fields ← fields.mapM fun f => (fieldIndex f.1).map fun i => (i, f.2)
      ofValues (valueAt fields)
  | .array items => if items.length = 5 then ofValues fun i => items[i]? else none
  | _ => none

/-- What it makes of a list of them. -/
def readEntries : MsgpackValue → Option (List EntryFields)
  | .array items => items.mapM readEntry
  | _ => none

/-- `normalize_map_keys_to_string`. -/
def normalizeMapKeys : MsgpackValue → MsgpackValue
  | .map entries => .map (entries.map fun e =>
      (match e.1 with
        | .integer n => ((integerAsU64 n).map fun n => .string (some (toString n))).getD e.1
        | k => k,
        normalizeMapKeys e.2))
  | .array items => .array (items.map normalizeMapKeys)
  | v => v
termination_by v => sizeOf v
decreasing_by
  · have := List.sizeOf_lt_of_mem ‹_›
    obtain ⟨k, v⟩ := e
    simp only [MsgpackValue.map.sizeOf_spec, Prod.mk.sizeOf_spec] at *
    omega
  · have := List.sizeOf_lt_of_mem ‹_›
    simp only [MsgpackValue.array.sizeOf_spec]
    omega

/-- `decode_msgpack_into` of a `Vec<TreeEntry>`, which is `deserialize_tree`. -/
def deserializeTree (libs : MsgpackLibraries) (data : Bytes) : Option (List EntryFields) :=
  match (libs.serde data).toOption.bind readEntries with
  | some entries => some entries
  | none => (libs.rmpv data).toOption.bind fun v => readEntries (normalizeMapKeys v)

end Rust

/-! ### The values of tree objects -/

/-- A field of an entry: its tag, the bytes of its value, and the value. -/
structure PackedField where
  tag : UInt8
  bytes : Bytes
  value : Msgpack.Value

/-- The fields of an entry. -/
def TreeEntry.packed (e : TreeEntry) : List PackedField :=
  [⟨0x31, msgpackStrLen e.name.length ++ e.name, .string e.name⟩,
    ⟨0x32, [0xcc, e.kind.toU8], .integer e.kind.toU8.toNat⟩,
    ⟨0x33, 0xce :: beBytes 4 e.mode.toNat, .integer e.mode.toNat⟩,
    ⟨0x34, 0xcf :: beBytes 8 e.size.toNat, .integer e.size.toNat⟩,
    ⟨0x35, 0xc4 :: 0x20 :: e.hash.toList, .binary e.hash.toList⟩]

/-- The value of an entry. -/
def TreeEntry.value (e : TreeEntry) : Msgpack.Value :=
  .map (e.packed.map fun f => (.string [f.tag], f.value))

theorem TreeEntry.bytes_eq (e : TreeEntry) :
    e.bytes = 0x85 :: e.packed.flatMap fun f => 0xa1 :: f.tag :: f.bytes := by
  simp [TreeEntry.bytes, TreeEntry.packed]

/-- Each value of a field is read from its bytes. -/
theorem readValue_packed {e : TreeEntry} (hname : e.name.length < 2 ^ 32) {f : PackedField}
    (hf : f ∈ e.packed) (fuel : ℕ) (rest : Bytes) :
    Msgpack.readValue (fuel + 1) (f.bytes ++ rest) = some (f.value, rest) := by
  have hnumber : ∀ {n x : ℕ} {head : UInt8} (hx : x < 256 ^ n),
      (∀ bs, Msgpack.readHead (head :: bs) =
        Msgpack.headOf n (fun n => .value (.integer n)) bs) →
      Msgpack.readValue (fuel + 1) (head :: beBytes n x ++ rest) = some (.integer x, rest) := by
    intro n x head hx hhead
    rw [List.cons_append, Msgpack.readValue, hhead, beBytes, Msgpack.headOf_append hx]
    rfl
  simp only [TreeEntry.packed, List.mem_cons, List.not_mem_nil, or_false] at hf
  rcases hf with rfl | rfl | rfl | rfl | rfl
  · have hhead := Msgpack.readHead_text hname (e.name ++ rest)
    rw [List.append_assoc, Msgpack.readValue, msgpackStrLen]
    simp only [beBytes] at hhead ⊢
    rw [hhead]
    change (Msgpack.takeBytes e.name.length (e.name ++ rest) >>= _) = _
    rw [Msgpack.takeBytes_append]
    rfl
  · have hkind : beBytes 1 e.kind.toU8.toNat = [e.kind.toU8] := by
      cases e.kind <;> rfl
    rw [← hkind]
    exact hnumber e.kind.toU8.toNat_lt fun _ => rfl
  · exact hnumber e.mode.toNat_lt fun _ => rfl
  · exact hnumber e.size.toNat_lt fun _ => rfl
  · have hlen : e.hash.toList.length = 32 := e.hash.toList_length
    have htake := Msgpack.takeBytes_append e.hash.toList rest
    rw [hlen] at htake
    change (Msgpack.takeBytes 32 (e.hash.toList ++ rest) >>= _) = _
    rw [htake]
    rfl

/-- An entry is read from its bytes. -/
theorem readValue_entry {e : TreeEntry} (hname : e.name.length < 2 ^ 32) (fuel : ℕ)
    (rest : Bytes) :
    Msgpack.readValue (fuel + 2) (e.bytes ++ rest) = some (e.value, rest) := by
  have hpair : ∀ f ∈ e.packed, ∀ rest,
      Msgpack.readPair (Msgpack.readValue (fuel + 1)) ((0xa1 :: f.tag :: f.bytes) ++ rest) =
        some ((.string [f.tag], f.value), rest) := by
    intro f hf rest
    have hkey : Msgpack.readValue (fuel + 1) ((0xa1 :: f.tag :: f.bytes) ++ rest) =
        some (.string [f.tag], f.bytes ++ rest) := by
      have hhead : Msgpack.readHead ((0xa1 :: f.tag :: f.bytes) ++ rest) =
          some (.text 1, [f.tag] ++ (f.bytes ++ rest)) := rfl
      have htake : Msgpack.takeBytes 1 ([f.tag] ++ (f.bytes ++ rest)) =
          some ([f.tag], f.bytes ++ rest) := Msgpack.takeBytes_append [f.tag] _
      rw [Msgpack.readValue, hhead]
      simp only [Option.bind_eq_bind, Option.bind_some, htake]
      rfl
    rw [Msgpack.readPair, hkey]
    change (Msgpack.readValue (fuel + 1) (f.bytes ++ rest) >>= _) = _
    rw [readValue_packed hname hf]
    rfl
  have hmany : Msgpack.readMany (Msgpack.readPair (Msgpack.readValue (fuel + 1)))
      e.packed.length ((e.packed.flatMap fun f => 0xa1 :: f.tag :: f.bytes) ++ rest) =
        some (e.packed.map fun f => (.string [f.tag], f.value), rest) :=
    Msgpack.readMany_flatMap hpair rest
  have hcount : e.packed.length = 5 := rfl
  have hhead : ∀ bs, Msgpack.readHead (0x85 :: bs) = some (.pairs 5, bs) := fun _ => rfl
  rw [TreeEntry.bytes_eq, List.cons_append, Msgpack.readValue, hhead]
  rw [hcount] at hmany
  simp only [Option.bind_eq_bind, Option.bind_some, hmany]
  rfl

/-- A list of entries is read from its bytes. -/
theorem readValue_serializeTree {es : List TreeEntry} (hlen : es.length < 2 ^ 32)
    (hnames : ∀ e ∈ es, e.name.length < 2 ^ 32) (fuel : ℕ) :
    Msgpack.readValue (fuel + 3) (Rust.serializeTree es) =
      some (.array (es.map TreeEntry.value), []) := by
  have hhead := Msgpack.readHead_items hlen (es.flatMap TreeEntry.bytes)
  have hmany := Msgpack.readMany_flatMap
    (fun e he rest => readValue_entry (hnames e he) fuel rest) []
  rw [List.append_nil] at hmany
  rw [Msgpack.readValue, Rust.serializeTree, msgpackArrayLen]
  simp only [beBytes] at hhead ⊢
  rw [hhead]
  change (Msgpack.readMany (Msgpack.readValue (fuel + 2)) es.length _ >>= _) = _
  rw [hmany]
  rfl

/-- **The value of a tree object**, as the Rust client writes it. -/
theorem read_serializeTree {es : List TreeEntry} (hlen : es.length < 2 ^ 32)
    (hnames : ∀ e ∈ es, e.name.length < 2 ^ 32) :
    Msgpack.read (Rust.serializeTree es) = some (.array (es.map TreeEntry.value)) := by
  rw [Msgpack.read, readValue_serializeTree hlen hnames 1021, Option.map_some]

/-! ### What the decoders make of them -/

/-- A field as `rmpv` has it. -/
def TreeEntry.rmpvFields (e : TreeEntry) : List (MsgpackValue × MsgpackValue) :=
  [(.string (some "1"), .string (fromUtf8 e.name)),
    (.string (some "2"), .integer e.kind.toU8.toNat),
    (.string (some "3"), .integer e.mode.toNat),
    (.string (some "4"), .integer e.size.toNat),
    (.string (some "5"), .binary e.hash.toList)]

theorem rmpvValue_value (e : TreeEntry) : rmpvValue e.value = .map e.rmpvFields := by
  have htag : ∀ s : String, fromUtf8 (utf8Bytes s) = some s := fromUtf8_utf8Bytes
  have h1 : fromUtf8 [0x31] = some "1" := htag "1"
  have h2 : fromUtf8 [0x32] = some "2" := htag "2"
  have h3 : fromUtf8 [0x33] = some "3" := htag "3"
  have h4 : fromUtf8 [0x34] = some "4" := htag "4"
  have h5 : fromUtf8 [0x35] = some "5" := htag "5"
  simp [TreeEntry.value, TreeEntry.packed, TreeEntry.rmpvFields, rmpvValue, h1, h2, h3, h4, h5]

/-- A number of a narrower type, as `as_u64` has it. -/
theorem integerAsU64_natCast {n : ℕ} (h : n < 2 ^ 64) :
    integerAsU64 n = some (UInt64.ofNat n) := by
  rw [integerAsU64, if_pos ⟨Int.natCast_nonneg _, by exact_mod_cast h⟩, Int.toNat_natCast]

/-- An entry as the server has it. -/
def TreeEntry.served (e : TreeEntry) : FsStore.TreeEntry where
  name := (fromUtf8 e.name).getD ""
  kind := e.kind.toU8
  mode := e.mode
  size := e.size
  hash := e.hash.toList

/-- **The server reads an entry** as it was written, but for a name that is not UTF-8. -/
theorem parseTreeEntry_value (e : TreeEntry) :
    FsStore.parseTreeEntry (rmpvValue e.value) = .ok e.served := by
  have hkind : integerAsU64 e.kind.toU8.toNat = some (UInt64.ofNat e.kind.toU8.toNat) :=
    integerAsU64_natCast (lt_of_lt_of_le e.kind.toU8.toNat_lt (by norm_num))
  have hmode : integerAsU64 e.mode.toNat = some (UInt64.ofNat e.mode.toNat) :=
    integerAsU64_natCast (lt_of_lt_of_le e.mode.toNat_lt (by norm_num))
  have t1 : parseTag "1" = some 1 := rfl
  have t2 : parseTag "2" = some 2 := rfl
  have t3 : parseTag "3" = some 3 := rfl
  have t4 : parseTag "4" = some 4 := rfl
  have t5 : parseTag "5" = some 5 := rfl
  rw [rmpvValue_value, FsStore.parseTreeEntry, TreeEntry.served]
  simp [TreeEntry.rmpvFields, FsStore.TreeEntry.readField, FsStore.fieldKey, t1, t2, t3, t4, t5,
    hkind, hmode, integerAsU64_toNat]

theorem ofInt_natCast (n : ℕ) : UInt64.ofInt n = UInt64.ofNat n := by
  have h : ((n : ℤ) % (2 ^ 64 : ℤ)).toNat = n % 2 ^ 64 := by omega
  rw [UInt64.ofInt, h, UInt64.ofNat_mod_size]

/-- **The Go client reads an entry** as it was written. -/
theorem Go.readEntry_value (e : TreeEntry) : Go.readEntry e.value = some e.fields := by
  have t1 : utf8Bytes "1" = [0x31] := rfl
  have t2 : utf8Bytes "2" = [0x32] := rfl
  have t3 : utf8Bytes "3" = [0x33] := rfl
  have t4 : utf8Bytes "4" = [0x34] := rfl
  have t5 : utf8Bytes "5" = [0x35] := rfl
  have hhash : Go.arrayOf Go.zeroEntry.hash (.binary e.hash.toList) = some e.hash.toList := by
    simp [Go.arrayOf, Go.stringOf, Go.zeroEntry]
  rw [Go.readEntry.eq_def, TreeEntry.value, TreeEntry.fields]
  simp [TreeEntry.packed, Go.setEntryField, Go.stringOf, Go.uintOf, t1, t2, t3, t4, t5, hhash,
    ofInt_natCast]

theorem Rust.natBelow_natCast {n bound : ℕ} (h : n < bound) (hbound : bound ≤ 2 ^ 64) :
    Rust.natBelow bound (.integer n) = some (UInt64.ofNat n) := by
  have hn : n < 2 ^ 64 := h.trans_le hbound
  rw [Rust.natBelow, integerAsU64_natCast hn, Option.filter_some, UInt64.toNat_ofNat_of_lt' hn,
    if_pos (decide_eq_true h)]

/-- The values of an entry make it again, where its name is UTF-8. -/
theorem Rust.ofValues_eq {e : TreeEntry} {values : ℕ → Option MsgpackValue}
    (hname : values 0 = some (.string (fromUtf8 e.name)))
    (hkind : (values 1).bind (natBelow (2 ^ 8)) = some (UInt64.ofNat e.kind.toU8.toNat))
    (hmode : (values 2).bind (natBelow (2 ^ 32)) = some (UInt64.ofNat e.mode.toNat))
    (hsize : (values 3).bind (natBelow (2 ^ 64)) = some (UInt64.ofNat e.size.toNat))
    (hhash : (values 4).bind hashOf = some e.hash.toList) :
    Rust.ofValues values = (fromUtf8 e.name).map fun _ => e.fields := by
  simp only [Rust.ofValues, hname, hkind, hmode, hsize, hhash, Option.bind_some,
    Option.bind_eq_bind]
  cases hs : fromUtf8 e.name with
  | none => rfl
  | some s =>
      have hutf8 : utf8Bytes s = e.name := utf8Bytes_of_fromUtf8 hs
      simp [Rust.textOf, hutf8, TreeEntry.fields]

/-- **The Rust client reads an entry** whose name is UTF-8 as it was written. -/
theorem Rust.readEntry_value (e : TreeEntry) :
    Rust.readEntry (rmpvValue e.value) = (fromUtf8 e.name).map fun _ => e.fields := by
  have hvalues : ∀ a b c d e, (Rust.valueAt [(0, a), (1, b), (2, c), (3, d), (4, e)] 0 = some a ∧
      Rust.valueAt [(0, a), (1, b), (2, c), (3, d), (4, e)] 1 = some b ∧
      Rust.valueAt [(0, a), (1, b), (2, c), (3, d), (4, e)] 2 = some c) ∧
      Rust.valueAt [(0, a), (1, b), (2, c), (3, d), (4, e)] 3 = some d ∧
      Rust.valueAt [(0, a), (1, b), (2, c), (3, d), (4, e)] 4 = some e :=
    fun _ _ _ _ _ => ⟨⟨rfl, rfl, rfl⟩, rfl, rfl⟩
  have hfields : (e.rmpvFields.mapM fun f => (Rust.fieldIndex f.1).map fun i => (i, f.2)) =
      some [(0, .string (fromUtf8 e.name)), (1, .integer e.kind.toU8.toNat),
        (2, .integer e.mode.toNat), (3, .integer e.size.toNat), (4, .binary e.hash.toList)] := by
    simp [TreeEntry.rmpvFields, Rust.fieldIndex]
  rw [rmpvValue_value, Rust.readEntry, hfields, Option.bind_eq_bind, Option.bind_some]
  obtain ⟨⟨h0, h1, h2⟩, h3, h4⟩ := hvalues (.string (fromUtf8 e.name))
    (.integer e.kind.toU8.toNat) (.integer e.mode.toNat) (.integer e.size.toNat)
    (.binary e.hash.toList)
  refine Rust.ofValues_eq h0 ?_ ?_ ?_ ?_
  · rw [h1, Option.bind_some]
    exact Rust.natBelow_natCast e.kind.toU8.toNat_lt (by norm_num)
  · rw [h2, Option.bind_some]
    exact Rust.natBelow_natCast e.mode.toNat_lt (by norm_num)
  · rw [h3, Option.bind_some]
    exact Rust.natBelow_natCast e.size.toNat_lt le_rfl
  · rw [h4, Option.bind_some, Rust.hashOf, if_pos e.hash.toList_length]

end Cxdb
