import Mathlib.Data.Finset.Max
import Mathlib.Order.Defs.LinearOrder
import Cxdb.FaultyDisk
import Cxdb.LastWrite
import Cxdb.RecordLog

/-!
# The Data Directory of the Server

What the storage modules of the server share: the error type, the files of the data
directory, the checksum and the readers of little-endian fields. Every store keeps its
maps in memory and appends to its files; a call is a program over both
(`FaultyDisk.DiskM`), and `written` is what of a call's bytes reaches a file when the call
stops on the way.

`crc32` is the IEEE CRC-32 of the `crc32fast` crate. The results about the stores never
look inside it: a reader recomputes what a writer computed from the same bytes.
-/

open ByteFormat FaultyDisk RecordLog

namespace Cxdb

/-- The kinds of `std::io::Error` the code distinguishes. -/
inductive IoErrorKind where
  | unexpectedEof
  | other
  deriving DecidableEq, Repr

/-- `StoreError` of `error.rs`. -/
inductive StoreError where
  | io (kind : IoErrorKind)
  | corrupt (msg : String)
  | notFound (msg : String)
  | invalidInput (msg : String)
  deriving DecidableEq, Repr

/-- A `[u8; 32]`: a BLAKE3 digest. -/
abbrev Hash := List.Vector UInt8 32

/-! ### Files -/

/-- The files under the data directory that the stores write. -/
inductive DataFile where
  | blobsPack
  | blobsIdx
  | turnsLog
  | turnsIdx
  | turnsMeta
  | headsTbl
  | rootsIdx
  deriving DecidableEq, Repr

/-- The path of a file below the data directory. -/
def DataFile.path : DataFile → String
  | .blobsPack => "blobs/blobs.pack"
  | .blobsIdx => "blobs/blobs.idx"
  | .turnsLog => "turns/turns.log"
  | .turnsIdx => "turns/turns.idx"
  | .turnsMeta => "turns/turns.meta"
  | .headsTbl => "turns/heads.tbl"
  | .rootsIdx => "fs/roots.idx"

/-- The order in which a call that writes to several files reaches them. -/
def DataFile.rank : DataFile → ℕ
  | .blobsPack => 0
  | .blobsIdx => 1
  | .turnsLog => 2
  | .turnsIdx => 3
  | .turnsMeta => 4
  | .headsTbl => 5
  | .rootsIdx => 6

/-- The part of `bs` that reaches `file` when a call stops at `stop`. -/
def written (stop : Option (Fault DataFile)) (file : DataFile) (bs : Bytes) : Bytes :=
  match stop with
  | none => bs
  | some f =>
      if file.rank < f.file.rank then bs
      else if file = f.file then bs.take f.bytes
      else []

@[simp] theorem written_none (file : DataFile) (bs : Bytes) : written none file bs = bs := rfl

@[simp] theorem written_nil (stop : Option (Fault DataFile)) (file : DataFile) :
    written stop file [] = [] := by
  cases stop <;> simp [written]

/-- The write of `len` bytes to `file` is complete when a call stops at `stop`. -/
def whole (stop : Option (Fault DataFile)) (file : DataFile) (len : ℕ) : Bool :=
  match stop with
  | none => true
  | some f => file.rank < f.file.rank || (file == f.file && len ≤ f.bytes)

theorem written_of_whole {stop : Option (Fault DataFile)} {file : DataFile} {bs : Bytes}
    (h : whole stop file bs.length = true) : written stop file bs = bs := by
  unfold whole at h
  unfold written
  split at h
  · rfl
  · simp only [Bool.or_eq_true, decide_eq_true_eq, Bool.and_eq_true, beq_iff_eq] at h
    rcases h with h | ⟨rfl, h⟩
    · simp [h]
    · simp [List.take_of_length_le h]

theorem written_of_not_whole {stop : Option (Fault DataFile)} {file : DataFile} {bs : Bytes}
    (hne : bs ≠ []) (h : whole stop file bs.length = false) :
    ∃ k < bs.length, written stop file bs = bs.take k ∧
      (bs.take k ≠ [] → stop = some ⟨file, k⟩) := by
  have hpos : 0 < bs.length := List.length_pos_of_ne_nil hne
  unfold whole at h
  split at h
  · exact absurd h (by simp)
  next f =>
  simp only [Bool.or_eq_false_iff, decide_eq_false_iff_not, Bool.and_eq_false_imp,
    beq_iff_eq, not_le] at h
  by_cases hf : file = f.file
  · refine ⟨f.bytes, h.2 hf, ?_, ?_⟩
    · simp [written, hf]
    · rintro -
      rw [hf]
  · exact ⟨0, hpos, by simp [written, h.1, hf], by simp⟩

/-- The files are written in order, so what is whole in a later one is whole in an
earlier one. -/
theorem whole_of_rank_lt {stop : Option (Fault DataFile)} {file file' : DataFile} {n n' : ℕ}
    (hrank : file.rank < file'.rank) (h : whole stop file' n' = true) :
    whole stop file n = true := by
  unfold whole at h ⊢
  split at h
  · rfl
  · simp only [Bool.or_eq_true, decide_eq_true_eq, Bool.and_eq_true, beq_iff_eq] at h ⊢
    rcases h with h | ⟨rfl, -⟩
    · exact Or.inl (hrank.trans h)
    · exact Or.inl hrank

/-- The contents of the files. -/
abbrev DataDir := DataFile → Bytes

/-- The data directory of a server that has never run. -/
def DataDir.empty : DataDir := fun _ => []

/-- File offsets are signed 64-bit numbers, and no file system holds a longer file: a
write beyond that fails, which is one of the faults a call can meet. -/
def DataDir.Fits (d : DataDir) : Prop := ∀ file, (d file).length < 2 ^ 63

instance (d : DataDir) : Decidable d.Fits :=
  decidable_of_iff (∀ file ∈ [DataFile.blobsPack, .blobsIdx, .turnsLog, .turnsIdx,
      .turnsMeta, .headsTbl, .rootsIdx], (d file).length < 2 ^ 63)
    ⟨fun h file => h file (by cases file <;> simp), fun h file _ => h file⟩

/-- One file under a call: a whole record joins the records, a part of one the tail. -/
theorem layout_written {α : Type} {F : Framing StoreError α} (file : DataFile)
    (stop : Option (Fault DataFile)) {bs tail : Bytes} {as : List α} {a : α}
    (h : F.Layout bs as tail) (ha : F.Valid a)
    (htail : written stop file (F.enc a) ≠ [] → tail = []) :
    F.Layout (bs ++ written stop file (F.enc a))
      (as ++ if whole stop file (F.enc a).length then [a] else [])
      (tail ++ if whole stop file (F.enc a).length then [] else
        written stop file (F.enc a)) := by
  cases hw : whole stop file (F.enc a).length with
  | true =>
      rw [written_of_whole hw] at htail ⊢
      obtain rfl : tail = [] := htail (F.enc_ne_nil a)
      simpa using h.append ha
  | false =>
      obtain ⟨k, hk, hwritten, -⟩ := written_of_not_whole (F.enc_ne_nil a) hw
      rw [hwritten] at htail ⊢
      simpa using h.append_part ha hk htail

/-- A call of a store: it works on the store in memory and on the files. -/
abbrev StoreM (μ α : Type) := DiskM DataFile StoreError μ α

/-- A write that stopped, or a sync that failed. -/
def writeError : StoreError := .io .other

/-- Pass the outcome of a pure computation on. -/
def liftExcept {μ α : Type} (x : Except StoreError α) : StoreM μ α := fun w =>
  match x with
  | .ok a => .ok a w
  | .error e => .error e w

/-! ### Fields -/

/-- A reader of little-endian fields. -/
abbrev Reader (α : Type) := StateT Bytes (Except StoreError) α

/-- A field that is cut off is an `UnexpectedEof`. -/
def readWith {α : Type} (take : Bytes → Option (α × Bytes)) : Reader α := fun bs =>
  match take bs with
  | some r => .ok r
  | none => .error (.io .unexpectedEof)

def readU64 : Reader UInt64 := readWith takeU64

def readU32 : Reader UInt32 := readWith takeU32

def readHash : Reader Hash := readWith (takeVector 32)

@[simp] theorem pure_apply {α : Type} (a : α) (bs : Bytes) :
    (pure a : Reader α) bs = .ok (a, bs) :=
  rfl

@[simp] theorem readU64_append (x : UInt64) (rest : Bytes) :
    readU64 (u64Bytes x ++ rest) = .ok (x, rest) := by
  simp [readU64, readWith]

@[simp] theorem readU32_append (x : UInt32) (rest : Bytes) :
    readU32 (u32Bytes x ++ rest) = .ok (x, rest) := by
  simp [readU32, readWith]

@[simp] theorem readHash_append (h : Hash) (rest : Bytes) :
    readHash (h.toList ++ rest) = .ok (h, rest) := by
  simp [readHash, readWith]

/-! ### Text -/

/-- The UTF-8 bytes of a string. -/
def utf8Bytes (s : String) : Bytes := s.toByteArray.data.toList

/-- `String::from_utf8`. -/
def fromUtf8 (bs : Bytes) : Option String := String.fromUTF8? ⟨bs.toArray⟩

@[simp] theorem fromUtf8_utf8Bytes (s : String) : fromUtf8 (utf8Bytes s) = some s := by
  have h : (⟨(utf8Bytes s).toArray⟩ : ByteArray) = s.toByteArray := by simp [utf8Bytes]
  rw [fromUtf8, h, String.fromUTF8?, dif_pos s.isValidUTF8]
  rfl

theorem utf8Bytes_of_fromUtf8 {bytes : Bytes} {s : String} (h : fromUtf8 bytes = some s) :
    utf8Bytes s = bytes := by
  rw [fromUtf8, String.fromUTF8?] at h
  split at h
  · obtain rfl := Option.some.inj h
    rfl
  · cases h

theorem utf8Bytes_injective : Function.Injective utf8Bytes := fun s t h =>
  Option.some.inj ((fromUtf8_utf8Bytes s).symm.trans (h ▸ fromUtf8_utf8Bytes t))

theorem utf8Bytes_append (s t : String) : utf8Bytes (s ++ t) = utf8Bytes s ++ utf8Bytes t := by
  simp [utf8Bytes, String.toByteArray_append]

theorem utf8Bytes_eq (s : String) : utf8Bytes s = s.toList.flatMap String.utf8EncodeChar := by
  rw [utf8Bytes, ← String.utf8Encode_toList, List.utf8Encode]
  simp

/-! ### Checksum -/

/-- One bit of the reflected CRC-32 with polynomial `0xEDB88320`. -/
def crcBit (c : UInt32) : UInt32 :=
  if c &&& 1 = 1 then (c >>> 1) ^^^ 0xEDB88320 else c >>> 1

/-- One byte of the CRC-32. -/
def crcByte (c : UInt32) (b : UInt8) : UInt32 :=
  (crcBit ∘ crcBit ∘ crcBit ∘ crcBit ∘ crcBit ∘ crcBit ∘ crcBit ∘ crcBit)
    (c ^^^ b.toUInt32)

/-- CRC-32 of a byte string. -/
def crc32 (bs : Bytes) : UInt32 := bs.foldl crcByte 0xFFFFFFFF ^^^ 0xFFFFFFFF

set_option maxRecDepth 4000 in
example : crc32 [0x31, 0x32, 0x33, 0x34, 0x35, 0x36, 0x37, 0x38, 0x39] = 0xCBF43926 := by
  decide

/-! ### Identifiers -/

instance linearOrderUInt64 : LinearOrder UInt64 where
  le_refl := UInt64.le_refl
  le_trans _ _ _ := UInt64.le_trans
  lt_iff_le_not_ge a b := by
    simp only [UInt64.lt_iff_toNat_lt, UInt64.le_iff_toNat_le]
    omega
  le_antisymm _ _ := UInt64.le_antisymm
  le_total := UInt64.le_total
  toDecidableLE := inferInstance
  toDecidableEq := inferInstance
  toDecidableLT := inferInstance

instance lawfulBEqUInt64 : LawfulBEq UInt64 := inferInstance

instance lawfulBEqBytes : LawfulBEq Bytes := inferInstance

/-- An increment that does not wrap. -/
theorem toNat_add_one {x : UInt64} (h : x.toNat + 1 < 2 ^ 64) :
    (x + 1).toNat = x.toNat + 1 := by
  rw [UInt64.toNat_add]
  exact Nat.mod_eq_of_lt h

end Cxdb
