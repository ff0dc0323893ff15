import Cxdb.BlobStore

/-!
# The Files of the Blob Store

`blobs.idx` is a record log of 52-byte entries, always truncated to whole entries when it
is opened. `blobs.pack` is not read from the front: an index entry is good for a blob as
long as the record stands at its offset, whatever comes before and after it.

## Main results

* `blobsIdxFraming`: the format of the index.
* `Packed`: an index entry and the record it points to.
* `get_of_packed`: such an entry is enough to read the blob back.
* `putIfAbsent_apply`: what a put does, for every fault.
-/

open ByteFormat FaultyDisk RecordLog LastWrite

namespace Cxdb

@[simp] theorem BlobCodec.ofU16_toU16 (codec : BlobCodec) :
    BlobCodec.ofU16 codec.toU16 = .ok codec := by
  cases codec <;> rfl

@[simp] theorem readU16_append (x : UInt16) (rest : Bytes) :
    readU16 (u16Bytes x ++ rest) = .ok (x, rest) := by
  simp [readU16, readWith]

/-! ### The index -/

@[simp] theorem length_encodeBlobIndexEntry (e : Hash × BlobIndexEntry) :
    (encodeBlobIndexEntry e).length = 52 := by
  simp [encodeBlobIndexEntry]

theorem readBlobIndexEntry_append (e : Hash × BlobIndexEntry) (rest : Bytes) :
    readBlobIndexEntry (encodeBlobIndexEntry e ++ rest) = .ok (e, rest) := by
  simp [readBlobIndexEntry, encodeBlobIndexEntry, bind, StateT.bind, Except.bind]

theorem blobsIdxRead_short {bs : Bytes} (h : bs.length < 52) : blobsIdxRead bs = .cut := by
  simp [blobsIdxRead, h]

/-- The format of `blobs.idx`. -/
def blobsIdxFraming : Framing StoreError (Hash × BlobIndexEntry) where
  read := blobsIdxRead
  enc := encodeBlobIndexEntry
  Valid _ := True
  enc_ne_nil e h := by simpa using congrArg List.length h
  read_enc e _ rest := by simp [blobsIdxRead, readBlobIndexEntry_append]
  torn_nil := Or.inr (blobsIdxRead_short (by simp))
  torn_take e _ k hk := Or.inr (blobsIdxRead_short (by simp at hk ⊢; omega))

@[simp] theorem blobsIdxFraming_enc (e : Hash × BlobIndexEntry) :
    blobsIdxFraming.enc e = encodeBlobIndexEntry e := rfl

/-- The index never keeps a torn tail. -/
theorem kept_blobsIdx (tail : Bytes) : kept blobsIdxFraming.read tail = [] := by
  have hne : blobsIdxRead tail ≠ .stop := by
    simp only [blobsIdxRead]
    split
    · simp
    · split <;> simp
  cases h : blobsIdxRead tail <;> simp_all [kept, blobsIdxFraming]

/-- The index that replaying its entries gives. -/
def indexMap (entries : List (Hash × BlobIndexEntry)) : HashMap Hash BlobIndexEntry :=
  insertAll Prod.fst Prod.snd ∅ entries

theorem indexMap_concat (entries : List (Hash × BlobIndexEntry)) (e : Hash × BlobIndexEntry) :
    indexMap (entries ++ [e]) = (indexMap entries).insert e.1 e.2 :=
  insertAll_concat _ _ _

/-- `load_index` on a laid-out file. -/
theorem loadIndex_of_layout {file tail : Bytes} {entries : List (Hash × BlobIndexEntry)}
    (h : blobsIdxFraming.Layout file entries tail) :
    loadIndex file = .ok (indexMap entries, entries.flatMap encodeBlobIndexEntry) := by
  refine (Framing.scan_layout _ _ h).trans ?_
  rw [kept_blobsIdx, List.append_nil]
  have hfold : foldOffsets (fun a => (blobsIdxFraming.enc a).length)
      (fun s _ e => s.insert e.1 e.2) 0 ∅ entries = indexMap entries :=
    foldOffsets_eq_foldl _ _ _ _ _
  rw [hfold]
  rfl

/-- The parts of `BlobStore::open`. -/
theorem BlobStore.openDir_ok {d d' : DataDir} {s : BlobStore}
    (h : BlobStore.openDir d = .ok (s, d')) :
    ∃ file, loadIndex (d .blobsIdx) = .ok (s.index, file) ∧
      d' = Function.update d .blobsIdx file := by
  simp only [BlobStore.openDir, bind, Except.bind] at h
  split at h
  · exact absurd h (by simp)
  next r hr =>
  simp only [pure, Except.pure, Except.ok.injEq, Prod.mk.injEq] at h
  obtain ⟨rfl, rfl⟩ := h
  exact ⟨r.2, hr, rfl⟩

/-! ### The pack -/

theorem length_headerOf (z : Zstd) (hash : Hash) (raw : Bytes) :
    (headerOf z hash raw).length = 48 := by
  simp [headerOf, blobHeader]

theorem readBlobHeader_headerOf (z : Zstd) (hash : Hash) (raw : Bytes) :
    readBlobHeader (headerOf z hash raw) =
      .ok ({ magic := blobMagic, version := blobVersion,
             codecRaw := (storedForm z raw).1.toU16, rawLen := UInt32.ofNat raw.length,
             storedLen := UInt32.ofNat (storedForm z raw).2.length, storedHash := hash },
        []) := by
  have hhash := readHash_append hash []
  rw [List.append_nil] at hhash
  simp [readBlobHeader, headerOf, blobHeader, bind, StateT.bind, Except.bind, hhash]

/-- What is stored is never longer than the raw bytes. -/
theorem length_storedForm_le (z : Zstd) (raw : Bytes) :
    (storedForm z raw).2.length ≤ raw.length := by
  unfold storedForm
  split
  · split
    · next h => exact h.le
    · exact le_rfl
  · exact le_rfl

/-- Decoding what is stored gives the raw bytes back. -/
theorem decode_storedForm {z : Zstd} (hz : z.Lossless) (raw : Bytes) :
    (match (storedForm z raw).1 with
      | .none => (.ok (storedForm z raw).2 : Except String Bytes)
      | .zstd => z.decodeAll (storedForm z raw).2) = .ok raw := by
  cases hc : z.encodeAll raw with
  | none => simp [storedForm, hc]
  | some compressed =>
      by_cases hlt : compressed.length < raw.length
      · simp [storedForm, hc, hlt, hz raw compressed hc]
      · simp [storedForm, hc, hlt]

/-- The record of `raw` stands in the pack where the entry says, and its stored bytes fit
their length field. -/
structure Packed (z : Zstd) (pack : Bytes) (e : Hash × BlobIndexEntry) (raw : Bytes) :
    Prop where
  fits : (storedForm z raw).2.length < 2 ^ 32
  at_offset : ∃ pre post, pack = pre ++ blobRecord z e.1 raw ++ post ∧
    (pre ++ blobRecord z e.1 raw).length < 2 ^ 63 ∧ e.2 = blobEntryAt z raw pre.length

/-- A pack that grows keeps its records. -/
theorem Packed.append {z : Zstd} {pack : Bytes} {e : Hash × BlobIndexEntry} {raw : Bytes}
    (h : Packed z pack e raw) (more : Bytes) : Packed z (pack ++ more) e raw := by
  obtain ⟨hfits, pre, post, rfl, hlen, he⟩ := h
  exact ⟨hfits, pre, post ++ more, by simp, hlen, he⟩

theorem toNat_length {bs : Bytes} (h : bs.length < 2 ^ 32) :
    (UInt32.ofNat bs.length).toNat = bs.length := by
  rw [UInt32.toNat_ofNat']
  exact Nat.mod_eq_of_lt h

/-- Reading a part of the pack at its place. -/
theorem readAtExact_append {pre mid post : Bytes} (h : pre.length < 2 ^ 63) :
    readAtExact (pre ++ mid ++ post) pre.length mid.length = .ok mid := by
  have hle : pre.length + mid.length ≤ (pre ++ mid ++ post).length := by simp
  rw [readAtExact, if_neg (Nat.not_le.mpr h), if_pos hle]
  simp

/-- **Reading a blob back.** An index entry whose record is in the pack is enough. -/
theorem get_of_packed {z : Zstd} (hz : z.Lossless) {s : BlobStore} {pack : Bytes}
    {hash : Hash} {entry : BlobIndexEntry} {raw : Bytes}
    (hindex : s.index.lookup hash = some entry) (h : Packed z pack (hash, entry) raw) :
    s.get z pack hash = .ok raw := by
  obtain ⟨hfits, pre, post, rfl, hlen, hentry⟩ := h
  obtain rfl : entry = blobEntryAt z raw pre.length := hentry
  set stored := (storedForm z raw).2 with hstored
  set crc := crc32 (headerOf z hash raw ++ stored) with hcrc
  simp only [List.length_append, blobRecord, length_headerOf, length_u32Bytes] at hlen
  have hoffset : (UInt64.ofNat pre.length).toNat = pre.length := by
    rw [UInt64.toNat_ofNat']
    exact Nat.mod_eq_of_lt (by omega)
  have hheader : readAtExact (pre ++ blobRecord z hash raw ++ post) pre.length 48 =
      .ok (headerOf z hash raw) := by
    have hsplit : pre ++ blobRecord z hash raw ++ post =
        pre ++ headerOf z hash raw ++ (stored ++ u32Bytes crc ++ post) := by
      simp [blobRecord, hcrc, hstored]
    rw [hsplit, ← length_headerOf z hash raw]
    exact readAtExact_append (by omega)
  have hbody : readAtExact (pre ++ blobRecord z hash raw ++ post) (pre.length + 48)
      (stored.length + 4) = .ok (stored ++ u32Bytes crc) := by
    have hsplit : pre ++ blobRecord z hash raw ++ post =
        (pre ++ headerOf z hash raw) ++ (stored ++ u32Bytes crc) ++ post := by
      simp [blobRecord, hcrc, hstored]
    have hpos : pre.length + 48 = (pre ++ headerOf z hash raw).length := by
      simp [length_headerOf]
    have hwidth : stored.length + 4 = (stored ++ u32Bytes crc).length := by simp
    rw [hsplit, hpos, hwidth]
    exact readAtExact_append (by simp [length_headerOf]; omega)
  have hcrcRead : readU32 (u32Bytes crc) = .ok (crc, []) := by
    have := readU32_append crc []
    rwa [List.append_nil] at this
  have hoverflow : ¬ 2 ^ 64 ≤ pre.length + 48 := by omega
  have hdecode := decode_storedForm hz raw
  simp only [BlobStore.get, hindex, blobEntryAt, hoffset, hheader, bind, Except.bind,
    readBlobHeader_headerOf, ne_eq, not_true_eq_false, if_false, or_self, pure, Except.pure,
    hoverflow, ← hstored, toNat_length hfits, hbody, List.drop_left', List.take_left',
    hcrcRead, ← hcrc, BlobCodec.ofU16_toU16]
  rw [← hstored] at hdecode
  cases hcodec : (storedForm z raw).1 with
  | none =>
      simp only [hcodec, Except.ok.injEq] at hdecode
      simp [hdecode]
  | zstd =>
      simp only [hcodec] at hdecode
      simp [hdecode]

/-! ### Puts -/

/-- The three writes to the pack and the sync are one synced write of the record. -/
theorem putIfAbsent_eq (z : Zstd) (hash : Hash) (raw : Bytes) :
    putIfAbsent z hash raw = (do
      let s ← getMem
      match s.index.lookup hash with
      | some entry => return entry
      | none => do
          let offset ← seekEnd .blobsPack
          appendRecord writeError .blobsPack (blobRecord z hash raw)
          let _ ← seekEnd .blobsIdx
          appendRecord writeError .blobsIdx
            (encodeBlobIndexEntry (hash, blobEntryAt z raw offset))
          modifyMem fun s =>
            { s with index := s.index.insert hash (blobEntryAt z raw offset) }
          return blobEntryAt z raw offset) := by
  unfold putIfAbsent blobRecord
  congr 1
  funext s
  cases s.index.lookup hash with
  | some entry => rfl
  | none =>
  simp only
  congr 1
  funext offset
  rw [← appendRecord_append]
  simp only [bind_assoc]
  congr 1
  funext _
  rw [← bind_assoc, writeAll_writeAll, ← bind_assoc]

/-- The bytes a put writes to each file when the blob is absent. -/
def putBytes (z : Zstd) (hash : Hash) (raw : Bytes) (offset : ℕ) : DataFile → Bytes
  | .blobsPack => blobRecord z hash raw
  | .blobsIdx => encodeBlobIndexEntry (hash, blobEntryAt z raw offset)
  | _ => []

/-- The fault, if it is in a file a put writes to. -/
def putStop : Option (Fault DataFile) → Option (Fault DataFile)
  | none => none
  | some f => if f.file = .blobsPack ∨ f.file = .blobsIdx then some f else none

/-- The files after a put that writes and stops at `stop`. -/
def putOnto (z : Zstd) (hash : Hash) (raw : Bytes) (d : DataDir)
    (stop : Option (Fault DataFile)) : DataDir :=
  fun file => d file ++ written stop file (putBytes z hash raw (d .blobsPack).length file)

/-- **The specification of a put.** A blob that is there is returned. Otherwise the record
and the entry go to the files up to the fault, and the entry into the index if the call
gets to the end. A fault in another file is left for what comes after the put. -/
theorem putIfAbsent_apply (z : Zstd) (hash : Hash) (raw : Bytes) (s : BlobStore)
    (d : DataDir) (fault : Option (Fault DataFile)) :
    putIfAbsent z hash raw ⟨s, d, fault⟩ =
      match s.index.lookup hash with
      | some entry => .ok entry ⟨s, d, fault⟩
      | none =>
        if putStop fault = none then
          .ok (blobEntryAt z raw (d .blobsPack).length)
            ⟨⟨s.index.insert hash (blobEntryAt z raw (d .blobsPack).length)⟩,
              putOnto z hash raw d none, fault⟩
        else .error writeError ⟨s, putOnto z hash raw d (putStop fault), none⟩ := by
  rw [putIfAbsent_eq]
  cases hs : s.index.lookup hash with
  | some entry => simp [bind, EStateM.bind, getMem, hs, pure, EStateM.pure]
  | none =>
      rcases fault with _ | ⟨file, n⟩
      · simp [bind, EStateM.bind, getMem, hs, pure, EStateM.pure, seekEnd, modifyMem, putStop]
        funext file
        cases file <;> simp [Function.update, putOnto, putBytes]
      · cases file <;>
          simp [bind, EStateM.bind, getMem, hs, pure, EStateM.pure, seekEnd, modifyMem,
            putStop] <;>
          funext file <;>
          cases file <;>
          simp [Function.update, putOnto, putBytes, written, DataFile.rank]

/-- The outcome of a put. -/
theorem putIfAbsent_run (z : Zstd) (hash : Hash) (raw : Bytes) (s : BlobStore) (d : DataDir)
    (fault : Option (Fault DataFile)) :
    runCall (putIfAbsent z hash raw) s d fault =
      match s.index.lookup hash with
      | some entry => (.ok entry, s, d)
      | none =>
        if putStop fault = none then
          (.ok (blobEntryAt z raw (d .blobsPack).length),
            ⟨s.index.insert hash (blobEntryAt z raw (d .blobsPack).length)⟩,
            putOnto z hash raw d none)
        else (.error writeError, s, putOnto z hash raw d (putStop fault)) := by
  rw [runCall, putIfAbsent_apply]
  cases s.index.lookup hash with
  | some entry => rfl
  | none => by_cases h : putStop fault = none <;> simp [h]

end Cxdb
