import Cxdb.DataDir

/-!
# The Turn Store

`turn_store/mod.rs`: the turns, their metadata and the context heads, kept in maps and
appended to `turns.log`, `turns.idx`, `turns.meta` and `heads.tbl`.

The module follows the source function by function. A file position is where the loaders
stand in their file, so a loader is `RecordLog.scan` over a reader that says what the
loop does with each outcome; every append seeks to the end of its file first, and
`appendRecord` is a `write_all` (or several in a row) with the `sync_all` after it. Integers
have the width of the source and wrap as in the release build that the server ships as.
The clock (`now_unix_ms`) is an argument of the calls that read it.

`rebuild_index` writes the entries of a `HashMap` in its iteration order; here they come
in the order of the turn ids. Nothing reads `turns.idx` back.
-/

open ByteFormat FaultyDisk RecordLog

namespace Cxdb

structure TurnRecord where
  turnId : UInt64
  parentTurnId : UInt64
  depth : UInt32
  codec : UInt32
  typeTag : UInt64
  payloadHash : Hash
  flags : UInt32
  createdAtUnixMs : UInt64
  deriving DecidableEq

structure TurnMeta where
  declaredTypeId : String
  declaredTypeVersion : UInt32
  encoding : UInt32
  compression : UInt32
  uncompressedLen : UInt32
  deriving DecidableEq

structure ContextHead where
  contextId : UInt64
  headTurnId : UInt64
  headDepth : UInt32
  createdAtUnixMs : UInt64
  flags : UInt32
  deriving DecidableEq

/-- The maps and counters of `TurnStore`; its files are in the data directory. -/
structure TurnStore where
  turns : HashMap UInt64 TurnRecord
  turnIndex : HashMap UInt64 UInt64
  turnMeta : HashMap UInt64 TurnMeta
  heads : HashMap UInt64 ContextHead
  nextTurnId : UInt64
  nextContextId : UInt64

/-! ### Records -/

/-- The fields of a turn record that its checksum covers. -/
def turnRecordBody (record : TurnRecord) : Bytes :=
  u64Bytes record.turnId ++ (u64Bytes record.parentTurnId ++ (u32Bytes record.depth ++
    (u32Bytes record.codec ++ (u64Bytes record.typeTag ++ (record.payloadHash.toList ++
      (u32Bytes record.flags ++ u64Bytes record.createdAtUnixMs))))))

/-- The 80 bytes of a turn in `turns.log`. -/
def encodeTurnRecord (record : TurnRecord) : Bytes :=
  turnRecordBody record ++ u32Bytes (crc32 (turnRecordBody record))

def readTurnRecord : Reader TurnRecord := do
  let turnId ← readU64
  let parentTurnId ← readU64
  let depth ← readU32
  let codec ← readU32
  let typeTag ← readU64
  let payloadHash ← readHash
  let flags ← readU32
  let createdAtUnixMs ← readU64
  let crc ← readU32
  let record : TurnRecord :=
    { turnId, parentTurnId, depth, codec, typeTag, payloadHash, flags, createdAtUnixMs }
  if crc ≠ crc32 (turnRecordBody record) then
    throw (.corrupt "turn crc mismatch")
  return record

/-- The bytes of a turn's metadata in `turns.meta`. The length of the type id is cast to
`u32`, so the record can only be read back when it fits. -/
def encodeTurnMeta (m : UInt64 × TurnMeta) : Bytes :=
  u64Bytes m.1 ++ (u32Bytes (UInt32.ofNat (utf8Bytes m.2.declaredTypeId).length) ++
    (utf8Bytes m.2.declaredTypeId ++ (u32Bytes m.2.declaredTypeVersion ++
      (u32Bytes m.2.encoding ++ (u32Bytes m.2.compression ++
        u32Bytes m.2.uncompressedLen)))))

/-- The fields of a head record that its checksum covers. -/
def contextHeadBody (head : ContextHead) : Bytes :=
  u64Bytes head.contextId ++ (u64Bytes head.headTurnId ++ (u32Bytes head.headDepth ++
    (u32Bytes head.flags ++ u64Bytes head.createdAtUnixMs)))

/-- The 36 bytes of a context head in `heads.tbl`. -/
def encodeContextHead (head : ContextHead) : Bytes :=
  contextHeadBody head ++ u32Bytes (crc32 (contextHeadBody head))

/-! ### Opening -/

/-- The `match` in the loop of `load_turns`: a corrupt or incomplete record is cut off. -/
def turnsLogRead (bs : Bytes) : Read StoreError TurnRecord :=
  match readTurnRecord bs with
  | .ok (record, rest) => .record record rest
  | .error (.corrupt _) => .cut
  | .error (.io .unexpectedEof) => .cut
  | .error e => .fail e

/-- `load_turns`: the turns, their offsets, and the log without a torn tail. -/
def loadTurns (log : Bytes) :
    Except StoreError ((HashMap UInt64 TurnRecord × HashMap UInt64 UInt64) × Bytes) :=
  scan turnsLogRead
    (fun s offset record =>
      (s.1.insert record.turnId record, s.2.insert record.turnId (UInt64.ofNat offset)))
    (∅, ∅) log

/-- The loop body of `load_meta`. The file is truncated when a field after the turn id is
cut off, but left alone when the turn id itself is. -/
def turnsMetaRead (bs : Bytes) : Read StoreError (UInt64 × TurnMeta) :=
  match takeU64 bs with
  | none => .stop
  | some (turnId, bs) =>
    match takeU32 bs with
    | none => .cut
    | some (len, bs) =>
      match takeBytes len.toNat bs with
      | none => .cut
      | some (buf, bs) =>
        match fromUtf8 buf with
        | none => .fail (.corrupt "invalid type id utf8")
        | some declaredTypeId =>
          match takeU32 bs with
          | none => .cut
          | some (declaredTypeVersion, bs) =>
            match takeU32 bs with
            | none => .cut
            | some (encoding, bs) =>
              match takeU32 bs with
              | none => .cut
              | some (compression, bs) =>
                match takeU32 bs with
                | none => .cut
                | some (uncompressedLen, bs) =>
                  .record
                    (turnId, { declaredTypeId, declaredTypeVersion, encoding, compression,
                               uncompressedLen })
                    bs

/-- `load_meta`. -/
def loadMeta (file : Bytes) : Except StoreError (HashMap UInt64 TurnMeta × Bytes) :=
  scan turnsMetaRead (fun s _ m => s.insert m.1 m.2) ∅ file

/-- The loop body of `load_heads`, with the same asymmetry as `load_meta`; a record with
a wrong checksum is cut off. -/
def headsTblRead (bs : Bytes) : Read StoreError ContextHead :=
  match takeU64 bs with
  | none => .stop
  | some (contextId, bs) =>
    match takeU64 bs with
    | none => .cut
    | some (headTurnId, bs) =>
      match takeU32 bs with
      | none => .cut
      | some (headDepth, bs) =>
        match takeU32 bs with
        | none => .cut
        | some (flags, bs) =>
          match takeU64 bs with
          | none => .cut
          | some (createdAtUnixMs, bs) =>
            match takeU32 bs with
            | none => .cut
            | some (crc, bs) =>
              let head : ContextHead :=
                { contextId, headTurnId, headDepth, createdAtUnixMs, flags }
              if crc ≠ crc32 (contextHeadBody head) then .cut else .record head bs

/-- `load_heads`: the last record of a context wins. -/
def loadHeads (file : Bytes) : Except StoreError (HashMap UInt64 ContextHead × Bytes) :=
  scan headsTblRead (fun s _ head => s.insert head.contextId head) ∅ file

/-- `rebuild_index`: the new content of `turns.idx`. -/
def rebuildIndex (turnIndex : HashMap UInt64 UInt64) : Bytes :=
  (LastWrite.sortedKeys turnIndex).flatMap fun turnId =>
    u64Bytes turnId ++ u64Bytes ((turnIndex.lookup turnId).getD 0)

/-- One more than the largest key, if there is one. -/
def nextId {α : Type} (m : HashMap UInt64 α) (default : UInt64) : UInt64 :=
  match m.keys.max with
  | ⊥ => default
  | some maxId => maxId + 1

/-- `update_counters`. -/
def TurnStore.updateCounters (s : TurnStore) : TurnStore :=
  { s with
    nextTurnId := nextId s.turns s.nextTurnId
    nextContextId := nextId s.heads s.nextContextId }

/-- `TurnStore::open`, with the files as it leaves them. -/
def TurnStore.openDir (d : DataDir) : Except StoreError (TurnStore × DataDir) := do
  let ((turns, turnIndex), log) ← loadTurns (d .turnsLog)
  let (turnMeta, metas) ← loadMeta (d .turnsMeta)
  let (heads, tbl) ← loadHeads (d .headsTbl)
  let store : TurnStore :=
    { turns, turnIndex, turnMeta, heads, nextTurnId := 1, nextContextId := 1 }
  return (store.updateCounters, fun
    | .turnsLog => log
    | .turnsIdx => rebuildIndex turnIndex
    | .turnsMeta => metas
    | .headsTbl => tbl
    | file => d file)

/-! ### Calls -/

def writeHead (head : ContextHead) : StoreM TurnStore Unit := do
  let _ ← seekEnd .headsTbl
  appendRecord writeError .headsTbl (encodeContextHead head)

/-- The turn a new context starts from. -/
def TurnStore.baseOf (s : TurnStore) (baseTurnId : UInt64) :
    Except StoreError (UInt64 × UInt32) :=
  if baseTurnId = 0 then .ok (0, 0)
  else
    match s.turns.lookup baseTurnId with
    | none => .error (.notFound "base turn")
    | some turn => .ok (turn.turnId, turn.depth)

def createContext (baseTurnId : UInt64) (now : UInt64) : StoreM TurnStore ContextHead := do
  let s ← getMem
  let (headTurnId, headDepth) ← liftExcept (s.baseOf baseTurnId)
  let contextId := s.nextContextId
  modifyMem fun s => { s with nextContextId := s.nextContextId + 1 }
  let head : ContextHead :=
    { contextId, headTurnId, headDepth, createdAtUnixMs := now, flags := 0 }
  writeHead head
  modifyMem fun s => { s with heads := s.heads.insert contextId head }
  return head

def forkContext (baseTurnId : UInt64) (now : UInt64) : StoreM TurnStore ContextHead :=
  createContext baseTurnId now

def TurnStore.getHead (s : TurnStore) (contextId : UInt64) : Except StoreError ContextHead :=
  match s.heads.lookup contextId with
  | none => .error (.notFound "context")
  | some head => .ok head

/-- The parent and the depth of a new turn. An explicit parent is looked up among the
turns only; the context is looked up when the parent is its head. -/
def TurnStore.parentOf (s : TurnStore) (contextId parentTurnId : UInt64) :
    Except StoreError (UInt64 × UInt32) :=
  if parentTurnId ≠ 0 then
    match s.turns.lookup parentTurnId with
    | none => .error (.notFound "parent turn")
    | some parent => .ok (parent.turnId, parent.depth + 1)
  else
    match s.heads.lookup contextId with
    | none => .error (.notFound "context")
    | some head =>
      if head.headTurnId = 0 then .ok (0, 0)
      else
        match s.turns.lookup head.headTurnId with
        | none => .error (.notFound "head turn")
        | some parent => .ok (parent.turnId, parent.depth + 1)

/-- The arguments of `append_turn`. -/
structure AppendArgs where
  contextId : UInt64
  parentTurnId : UInt64
  payloadHash : Hash
  encoding : UInt32
  declaredTypeId : String
  declaredTypeVersion : UInt32
  compression : UInt32
  uncompressedLen : UInt32
  deriving DecidableEq

/-- The record an append makes. -/
def AppendArgs.record (a : AppendArgs) (turnId parentId : UInt64) (depth : UInt32)
    (now : UInt64) : TurnRecord :=
  { turnId, parentTurnId := parentId, depth, codec := a.encoding, typeTag := 0,
    payloadHash := a.payloadHash, flags := 0, createdAtUnixMs := now }

/-- The metadata an append stores. -/
def AppendArgs.turnMeta (a : AppendArgs) : TurnMeta :=
  { declaredTypeId := a.declaredTypeId, declaredTypeVersion := a.declaredTypeVersion,
    encoding := a.encoding, compression := a.compression,
    uncompressedLen := a.uncompressedLen }

/-- The head an append gives its context. -/
def AppendArgs.head (a : AppendArgs) (record : TurnRecord) : ContextHead :=
  { contextId := a.contextId, headTurnId := record.turnId, headDepth := record.depth,
    createdAtUnixMs := record.createdAtUnixMs, flags := 0 }

def appendTurn (a : AppendArgs) (now : UInt64) : StoreM TurnStore TurnRecord := do
  let s ← getMem
  let (parentId, depth) ← liftExcept (s.parentOf a.contextId a.parentTurnId)
  let turnId := s.nextTurnId
  modifyMem fun s => { s with nextTurnId := s.nextTurnId + 1 }
  let record := a.record turnId parentId depth now
  let offset ← seekEnd .turnsLog
  appendRecord writeError .turnsLog (encodeTurnRecord record)
  let _ ← seekEnd .turnsIdx
  appendRecord writeError .turnsIdx (u64Bytes turnId ++ u64Bytes (UInt64.ofNat offset))
  let _ ← seekEnd .turnsMeta
  appendRecord writeError .turnsMeta (encodeTurnMeta (turnId, a.turnMeta))
  modifyMem fun s =>
    { s with
      turnMeta := s.turnMeta.insert turnId a.turnMeta
      turns := s.turns.insert turnId record
      turnIndex := s.turnIndex.insert turnId (UInt64.ofNat offset) }
  let head := a.head record
  writeHead head
  modifyMem fun s => { s with heads := s.heads.insert a.contextId head }
  return record

/-! ### Reads -/

def TurnStore.getTurn (s : TurnStore) (turnId : UInt64) : Except StoreError TurnRecord :=
  match s.turns.lookup turnId with
  | none => .error (.notFound "turn")
  | some record => .ok record

def TurnStore.getTurnMeta (s : TurnStore) (turnId : UInt64) : Except StoreError TurnMeta :=
  match s.turnMeta.lookup turnId with
  | none => .error (.notFound "turn meta")
  | some m => .ok m

/-- The loop of `get_last` and `get_before`: walk from `current` to the root, for at most
`limit` turns. The turns come out newest first. -/
def TurnStore.walkBack (s : TurnStore) : ℕ → UInt64 → Except StoreError (List TurnRecord)
  | 0, _ => .ok []
  | limit + 1, current =>
      if current = 0 then .ok []
      else do
        let record ← s.getTurn current
        let older ← s.walkBack limit record.parentTurnId
        return record :: older

def TurnStore.getLast (s : TurnStore) (contextId : UInt64) (limit : UInt32) :
    Except StoreError (List TurnRecord) := do
  let head ← s.getHead contextId
  let results ← s.walkBack limit.toNat head.headTurnId
  return results.reverse

def TurnStore.getBefore (s : TurnStore) (contextId beforeTurnId : UInt64) (limit : UInt32) :
    Except StoreError (List TurnRecord) := do
  let head ← s.getHead contextId
  if beforeTurnId = 0 ∨ head.headTurnId = 0 then
    s.getLast contextId limit
  else
    match s.turns.lookup beforeTurnId with
    | none => .error (.notFound "before turn")
    | some before => do
        let results ← s.walkBack limit.toNat before.parentTurnId
        return results.reverse

/-- The loop of `get_first_turn`, which no limit bounds: `none` when it has made `fuel`
passes and is still running. -/
def TurnStore.firstTurnLoop (s : TurnStore) :
    ℕ → UInt64 → Option (Except StoreError TurnRecord)
  | 0, _ => none
  | fuel + 1, current =>
      if current = 0 then some (.error (.notFound "first turn"))
      else
        match s.turns.lookup current with
        | none => some (.error (.notFound "turn"))
        | some record =>
          if record.depth = 0 then some (.ok record)
          else s.firstTurnLoop fuel record.parentTurnId

/-- `get_first_turn` within `fuel` passes of its loop. -/
def TurnStore.getFirstTurn (s : TurnStore) (fuel : ℕ) (contextId : UInt64) :
    Option (Except StoreError TurnRecord) :=
  match s.getHead contextId with
  | .error e => some (.error e)
  | .ok head => s.firstTurnLoop fuel head.headTurnId

end Cxdb
