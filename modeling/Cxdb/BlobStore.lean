import Cxdb.DataDir

/-!
# The Blob Store

`blob_store/mod.rs`: a pack file with one record for each blob, and an index from the
BLAKE3 hash of the raw bytes to the place of the record in the pack.

The pack is only ever read at the offsets of the index, so junk in it does no harm. The
index file is read from the front when the store is opened.

Zstandard is a parameter: two functions that may fail. What the store needs of it is
`Zstd.Lossless`, and it needs that of outputs that are shorter than their input only.
-/

open ByteFormat FaultyDisk RecordLog

namespace Cxdb

/-- `zstd::encode_all` at level 1 and `zstd::decode_all`; a failed decoding has a text. -/
structure Zstd where
  encodeAll : Bytes → Option Bytes
  decodeAll : Bytes → Except String Bytes

/-- Decoding undoes encoding. -/
def Zstd.Lossless (z : Zstd) : Prop :=
  ∀ raw compressed, z.encodeAll raw = some compressed → z.decodeAll compressed = .ok raw

/-- `BLOB_MAGIC`: the letters `BSLB`. -/
def blobMagic : UInt32 := 0x42534C42

def blobVersion : UInt16 := 1

inductive BlobCodec where
  | none
  | zstd
  deriving DecidableEq, Repr

/-- `codec as u16`. -/
def BlobCodec.toU16 : BlobCodec → UInt16
  | .none => 0
  | .zstd => 1

/-- The `match codec_raw` of the readers. -/
def BlobCodec.ofU16 (codecRaw : UInt16) : Except StoreError BlobCodec :=
  if codecRaw = 0 then .ok .none
  else if codecRaw = 1 then .ok .zstd
  else .error (.corrupt "unknown blob codec")

structure BlobIndexEntry where
  offset : UInt64
  rawLen : UInt32
  storedLen : UInt32
  codec : BlobCodec
  deriving DecidableEq, Repr

/-- The index of `BlobStore`; its files are in the data directory. -/
structure BlobStore where
  index : HashMap Hash BlobIndexEntry

/-! ### Records -/

/-- The codec and the bytes that go into the pack: the compressed ones if they are
shorter. -/
def storedForm (z : Zstd) (raw : Bytes) : BlobCodec × Bytes :=
  match z.encodeAll raw with
  | some compressed => if compressed.length < raw.length then (.zstd, compressed) else (.none, raw)
  | none => (.none, raw)

/-- The 48 bytes in front of a blob. -/
def blobHeader (codec : BlobCodec) (rawLen storedLen : UInt32) (hash : Hash) : Bytes :=
  u32Bytes blobMagic ++ (u16Bytes blobVersion ++ (u16Bytes codec.toU16 ++
    (u32Bytes rawLen ++ (u32Bytes storedLen ++ hash.toList))))

/-- The header of the record for `raw`. -/
def headerOf (z : Zstd) (hash : Hash) (raw : Bytes) : Bytes :=
  blobHeader (storedForm z raw).1 (UInt32.ofNat raw.length)
    (UInt32.ofNat (storedForm z raw).2.length) hash

/-- The record of a blob in the pack: header, stored bytes and a checksum over both. -/
def blobRecord (z : Zstd) (hash : Hash) (raw : Bytes) : Bytes :=
  headerOf z hash raw ++ ((storedForm z raw).2 ++
    u32Bytes (crc32 (headerOf z hash raw ++ (storedForm z raw).2)))

/-- The 52 bytes of an index entry. -/
def encodeBlobIndexEntry (e : Hash × BlobIndexEntry) : Bytes :=
  e.1.toList ++ (u64Bytes e.2.offset ++ (u32Bytes e.2.rawLen ++ (u32Bytes e.2.storedLen ++
    (u16Bytes e.2.codec.toU16 ++ u16Bytes 0))))

/-! ### Opening -/

def readU16 : Reader UInt16 := readWith takeU16

/-- The fields of an index entry. -/
def readBlobIndexEntry : Reader (Hash × BlobIndexEntry) := do
  let hash ← readHash
  let offset ← readU64
  let rawLen ← readU32
  let storedLen ← readU32
  let codecRaw ← readU16
  let _reserved ← readU16
  match BlobCodec.ofU16 codecRaw with
  | .ok codec => return (hash, { offset, rawLen, storedLen, codec })
  | .error e => throw e

/-- The loop body of `load_index`: fewer than 52 bytes, or a field that cannot be read,
end the loop, and the file is truncated to the entries before. -/
def blobsIdxRead (bs : Bytes) : Read StoreError (Hash × BlobIndexEntry) :=
  if bs.length < 52 then .cut
  else
    match readBlobIndexEntry bs with
    | .ok (entry, rest) => .record entry rest
    | .error (.io _) => .cut
    | .error e => .fail e

/-- `load_index`. -/
def loadIndex (file : Bytes) :
    Except StoreError (HashMap Hash BlobIndexEntry × Bytes) :=
  scan blobsIdxRead (fun s _ e => s.insert e.1 e.2) ∅ file

/-- `BlobStore::open`, with the files as it leaves them. -/
def BlobStore.openDir (d : DataDir) : Except StoreError (BlobStore × DataDir) := do
  let (index, file) ← loadIndex (d .blobsIdx)
  return ({ index }, Function.update d .blobsIdx file)

/-! ### Calls -/

def BlobStore.contains (s : BlobStore) (hash : Hash) : Bool := hash ∈ s.index

/-- The index entry a put makes for a record at `offset`. -/
def blobEntryAt (z : Zstd) (raw : Bytes) (offset : ℕ) : BlobIndexEntry :=
  { offset := UInt64.ofNat offset
    rawLen := UInt32.ofNat raw.length
    storedLen := UInt32.ofNat (storedForm z raw).2.length
    codec := (storedForm z raw).1 }

def putIfAbsent (z : Zstd) (hash : Hash) (raw : Bytes) : StoreM BlobStore BlobIndexEntry := do
  let s ← getMem
  match s.index.lookup hash with
  | some entry => return entry
  | none => do
      let offset ← seekEnd .blobsPack
      writeAll writeError .blobsPack (headerOf z hash raw)
      writeAll writeError .blobsPack (storedForm z raw).2
      writeAll writeError .blobsPack
        (u32Bytes (crc32 (headerOf z hash raw ++ (storedForm z raw).2)))
      syncAll writeError .blobsPack
      let _ ← seekEnd .blobsIdx
      appendRecord writeError .blobsIdx
        (encodeBlobIndexEntry (hash, blobEntryAt z raw offset))
      modifyMem fun s => { s with index := s.index.insert hash (blobEntryAt z raw offset) }
      return blobEntryAt z raw offset

/-- `read_at_exact`: `pread` takes no offset from `2 ^ 63` on. -/
def readAtExact (pack : Bytes) (offset len : ℕ) : Except StoreError Bytes :=
  if 2 ^ 63 ≤ offset then .error (.io .other)
  else if offset + len ≤ pack.length then .ok ((pack.drop offset).take len)
  else .error (.corrupt "unexpected EOF reading blob")

/-- The fields of a header, as `get` reads them. -/
structure BlobHeader where
  magic : UInt32
  version : UInt16
  codecRaw : UInt16
  rawLen : UInt32
  storedLen : UInt32
  storedHash : Hash

def readBlobHeader : Reader BlobHeader := do
  let magic ← readU32
  if magic ≠ blobMagic then throw (.corrupt "invalid blob magic")
  let version ← readU16
  if version ≠ blobVersion then throw (.corrupt "unsupported blob version")
  let codecRaw ← readU16
  let rawLen ← readU32
  let storedLen ← readU32
  let storedHash ← readHash
  return { magic, version, codecRaw, rawLen, storedLen, storedHash }

/-- `get`, from the index and the pack file. -/
def BlobStore.get (z : Zstd) (s : BlobStore) (pack : Bytes) (hash : Hash) :
    Except StoreError Bytes :=
  match s.index.lookup hash with
  | none => .error (.notFound "blob")
  | some entry => do
      let header ← readAtExact pack entry.offset.toNat 48
      let (h, _) ← readBlobHeader header
      if h.storedHash ≠ hash then throw (.corrupt "blob hash mismatch")
      if h.storedLen ≠ entry.storedLen ∨ h.rawLen ≠ entry.rawLen then
        throw (.corrupt "blob index/header length mismatch")
      if 2 ^ 64 ≤ entry.offset.toNat + 48 then throw (.corrupt "blob offset overflow")
      -- A length below `2 ^ 32` plus four is no overflow of a `usize`.
      let body ← readAtExact pack (entry.offset.toNat + 48) (h.storedLen.toNat + 4)
      let stored := body.take h.storedLen.toNat
      let (crc, _) ← readU32 (body.drop h.storedLen.toNat)
      if crc ≠ crc32 (header ++ stored) then throw (.corrupt "blob crc mismatch")
      let codec ← BlobCodec.ofU16 h.codecRaw
      let raw ← match codec with
        | .none => pure stored
        | .zstd =>
          match z.decodeAll stored with
          | .ok raw => pure raw
          | .error e => throw (.corrupt ("zstd decode failed: " ++ e))
      if UInt32.ofNat raw.length ≠ h.rawLen then throw (.corrupt "blob length mismatch")
      return raw

/-- `raw_len`. -/
def BlobStore.rawLen (s : BlobStore) (hash : Hash) : Option UInt32 :=
  (s.index.lookup hash).map BlobIndexEntry.rawLen

/-- `stored_len`. -/
def BlobStore.storedLen (s : BlobStore) (hash : Hash) : Option UInt32 :=
  (s.index.lookup hash).map BlobIndexEntry.storedLen

end Cxdb
