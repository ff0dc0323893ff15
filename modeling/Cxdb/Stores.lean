import Cxdb.BlobStore
import Cxdb.TurnStore

/-!
# The Stores of the Server

`fs_store/mod.rs` as far as the index of snapshot roots goes, and the part of `store.rs`
that works on files: the three stores of a process, the checks of `append_turn`, and the
reads that join turns, metadata and payloads.

The metadata cache and the secondary indexes of `Store` are in no file; they are added in
a module of their own. BLAKE3 is a parameter, as Zstandard is.
-/

open ByteFormat FaultyDisk RecordLog

namespace Cxdb

/-! ### Snapshot roots -/

/-- The map of `FsRootsIndex`; its file is in the data directory. -/
structure FsRootsIndex where
  roots : HashMap UInt64 Hash

/-- The fields of a root record that its checksum covers. -/
def rootBody (root : UInt64 × Hash) : Bytes := u64Bytes root.1 ++ root.2.toList

/-- The 44 bytes of a snapshot root in `roots.idx`. -/
def encodeRoot (root : UInt64 × Hash) : Bytes :=
  rootBody root ++ u32Bytes (crc32 (rootBody root))

/-- The loop body of `FsRootsIndex::load`, which leaves a cut-off turn id where it is. -/
def rootsIdxRead (bs : Bytes) : Read StoreError (UInt64 × Hash) :=
  match takeU64 bs with
  | none => .stop
  | some (turnId, bs) =>
    match takeVector 32 bs with
    | none => .cut
    | some (fsRootHash, bs) =>
      match takeU32 bs with
      | none => .cut
      | some (crc, bs) =>
        if crc ≠ crc32 (rootBody (turnId, fsRootHash)) then .cut
        else .record (turnId, fsRootHash) bs

/-- `FsRootsIndex::load`: the last record of a turn wins. -/
def loadRoots (file : Bytes) : Except StoreError (HashMap UInt64 Hash × Bytes) :=
  scan rootsIdxRead (fun s _ root => s.insert root.1 root.2) ∅ file

/-- `FsRootsIndex::open`, with the files as it leaves them. -/
def FsRootsIndex.openDir (d : DataDir) : Except StoreError (FsRootsIndex × DataDir) := do
  let (roots, file) ← loadRoots (d .rootsIdx)
  return ({ roots }, Function.update d .rootsIdx file)

/-- `FsRootsIndex::attach`, which does not sync. -/
def attach (turnId : UInt64) (fsRootHash : Hash) : StoreM FsRootsIndex Unit := do
  let _ ← seekEnd .rootsIdx
  writeAll writeError .rootsIdx (encodeRoot (turnId, fsRootHash))
  modifyMem fun s => { s with roots := s.roots.insert turnId fsRootHash }

/-- `FsRootsIndex::get`. -/
def FsRootsIndex.get (s : FsRootsIndex) (turnId : UInt64) : Option Hash :=
  s.roots.lookup turnId

/-! ### The three stores -/

/-- The stores of `Store`. -/
structure Stores where
  blobStore : BlobStore
  turnStore : TurnStore
  fsRoots : FsRootsIndex

/-- The part of `Store::open` that reads files, with the files as it leaves them. -/
def Stores.openDir (d : DataDir) : Except StoreError (Stores × DataDir) := do
  let (blobStore, d) ← BlobStore.openDir d
  let (turnStore, d) ← TurnStore.openDir d
  let (fsRoots, d) ← FsRootsIndex.openDir d
  return ({ blobStore, turnStore, fsRoots }, d)

/-- A call of the blob store. -/
def onBlobs {α : Type} (x : StoreM BlobStore α) : StoreM Stores α :=
  zoom Stores.blobStore (fun s blobStore => { s with blobStore }) x

/-- A call of the turn store. -/
def onTurns {α : Type} (x : StoreM TurnStore α) : StoreM Stores α :=
  zoom Stores.turnStore (fun s turnStore => { s with turnStore }) x

/-- A call of the roots index. -/
def onRoots {α : Type} (x : StoreM FsRootsIndex α) : StoreM Stores α :=
  zoom Stores.fsRoots (fun s fsRoots => { s with fsRoots }) x

/-! ### Calls -/

/-- The arguments of `Store::append_turn`. -/
structure AppendRequest where
  contextId : UInt64
  parentTurnId : UInt64
  declaredTypeId : String
  declaredTypeVersion : UInt32
  encoding : UInt32
  compression : UInt32
  uncompressedLen : UInt32
  contentHash : Hash
  payloadBytes : Bytes
  deriving DecidableEq

/-- The arguments of the append in the turn store. -/
def AppendRequest.args (r : AppendRequest) : AppendArgs :=
  { contextId := r.contextId, parentTurnId := r.parentTurnId, payloadHash := r.contentHash,
    encoding := r.encoding, declaredTypeId := r.declaredTypeId,
    declaredTypeVersion := r.declaredTypeVersion, compression := r.compression,
    uncompressedLen := r.uncompressedLen }

/-- The payload as it was before the client compressed it. -/
def AppendRequest.rawBytes (z : Zstd) (r : AppendRequest) : Except StoreError Bytes :=
  if r.compression = 0 then .ok r.payloadBytes
  else if r.compression = 1 then
    match z.decodeAll r.payloadBytes with
    | .ok raw => .ok raw
    | .error e => .error (.invalidInput ("zstd decode failed: " ++ e))
  else .error (.invalidInput ("unsupported compression: " ++ toString r.compression.toNat))

/-- The checks of `append_turn`; they give the raw bytes. The length is compared after it
has been cast to `u32`. -/
def AppendRequest.checked (z : Zstd) (blake3 : Bytes → Hash) (r : AppendRequest) :
    Except StoreError Bytes := do
  let raw ← r.rawBytes z
  if UInt32.ofNat raw.length ≠ r.uncompressedLen then
    throw (.invalidInput "uncompressed length mismatch")
  if blake3 raw ≠ r.contentHash then throw (.invalidInput "content hash mismatch")
  return raw

/-- The BLAKE3 hash of no bytes. -/
def emptyHash : Hash :=
  ⟨[0xaf, 0x13, 0x49, 0xb9, 0xf5, 0xf9, 0xa1, 0xa6, 0xa0, 0x40, 0x4d, 0xea, 0x36, 0xdc, 0xc9,
    0x49, 0x9b, 0xcb, 0x25, 0xc9, 0xad, 0xc1, 0x12, 0xb7, 0xcc, 0x9a, 0x93, 0xca, 0xe4, 0x1f,
    0x32, 0x62], rfl⟩

/-- `Store::append_turn`, up to what it does with caches and indexes. -/
def Stores.appendTurn (z : Zstd) (blake3 : Bytes → Hash) (r : AppendRequest)
    (now : UInt64) : StoreM Stores TurnRecord := do
  let raw ← liftExcept (r.checked z blake3)
  let _ ← onBlobs (putIfAbsent z r.contentHash raw)
  onTurns (Cxdb.appendTurn r.args now)

/-- `Store::create_context`. -/
def Stores.createContext (baseTurnId now : UInt64) : StoreM Stores ContextHead :=
  onTurns (Cxdb.createContext baseTurnId now)

/-- `Store::fork_context`. -/
def Stores.forkContext (baseTurnId now : UInt64) : StoreM Stores ContextHead :=
  onTurns (Cxdb.forkContext baseTurnId now)

/-- `Store::attach_fs`. -/
def Stores.attachFs (turnId : UInt64) (fsRootHash : Hash) : StoreM Stores Unit := do
  let s ← getMem
  let _ ← liftExcept (s.turnStore.getTurn turnId)
  if s.blobStore.contains fsRootHash then onRoots (attach turnId fsRootHash)
  else liftExcept (.error (.notFound "fs root tree blob"))

/-! ### Reads -/

structure TurnWithMeta where
  record : TurnRecord
  turnMeta : TurnMeta
  payload : Option Bytes

/-- The loop of `get_last` and `get_before` over the turns they return. -/
def Stores.withMeta (z : Zstd) (s : Stores) (pack : Bytes) (includePayload : Bool)
    (turns : List TurnRecord) : Except StoreError (List TurnWithMeta) :=
  turns.mapM fun record => do
    let turnMeta ← s.turnStore.getTurnMeta record.turnId
    let payload ←
      if includePayload then do
        let raw ← s.blobStore.get z pack record.payloadHash
        pure (some raw)
      else pure none
    return { record, turnMeta, payload }

/-- `Store::get_last`. -/
def Stores.getLast (z : Zstd) (s : Stores) (pack : Bytes) (contextId : UInt64)
    (limit : UInt32) (includePayload : Bool) : Except StoreError (List TurnWithMeta) := do
  let turns ← s.turnStore.getLast contextId limit
  s.withMeta z pack includePayload turns

/-- `Store::get_before`. -/
def Stores.getBefore (z : Zstd) (s : Stores) (pack : Bytes)
    (contextId beforeTurnId : UInt64) (limit : UInt32) (includePayload : Bool) :
    Except StoreError (List TurnWithMeta) := do
  let turns ← s.turnStore.getBefore contextId beforeTurnId limit
  s.withMeta z pack includePayload turns

end Cxdb
