import Cxdb.Frames
import Cxdb.Stores

/-!
# Requests and Responses

The payloads of `protocol/mod.rs`: what the server reads of a request, and what it writes
in a response. Fields are read one after another, and a field that is cut off is an
`UnexpectedEof`; bytes after the last field are left unread.
-/

open ByteFormat

namespace Cxdb

/-! ### Message types -/

/-- `MsgType`. -/
inductive MsgType where
  | hello
  | ctxCreate
  | ctxFork
  | getHead
  | appendTurn
  | getLast
  | getBefore
  | getRangeByDepth
  | getBlob
  | attachFs
  | putBlob
  | error
  deriving DecidableEq, Repr

/-- `MsgType as u16`. -/
def MsgType.toU16 : MsgType → UInt16
  | .hello => 1
  | .ctxCreate => 2
  | .ctxFork => 3
  | .getHead => 4
  | .appendTurn => 5
  | .getLast => 6
  | .getBefore => 7
  | .getRangeByDepth => 8
  | .getBlob => 9
  | .attachFs => 10
  | .putBlob => 11
  | .error => 255

/-! ### Requests -/

def readBytes (n : ℕ) : Reader Bytes := readWith (takeBytes n)

/-- `AppendTurnRequest`: the arguments of `append_turn`, the idempotency key and the
snapshot root. -/
structure AppendTurnRequest extends AppendRequest where
  idempotencyKey : Bytes
  fsRootHash : Option Hash
  deriving DecidableEq

structure AttachFsRequest where
  turnId : UInt64
  fsRootHash : Hash

structure PutBlobRequest where
  hash : Hash
  data : Bytes

structure GetLastRequest where
  contextId : UInt64
  limit : UInt32
  includePayload : UInt32

structure HelloRequest where
  protocolVersion : UInt16
  clientTag : String
  clientMetaJson : Option String

/-- What a reader makes of a payload; the bytes after it are ignored. -/
def parsePayload {α : Type} (r : Reader α) (payload : Bytes) : Except StoreError α :=
  (r payload).map (·.1)

def parseCtxCreate (payload : Bytes) : Except StoreError UInt64 :=
  parsePayload readU64 payload

def parseCtxFork (payload : Bytes) : Except StoreError UInt64 := parseCtxCreate payload

def parseGetHead (payload : Bytes) : Except StoreError UInt64 := parseCtxCreate payload

def parseGetLast (payload : Bytes) : Except StoreError GetLastRequest :=
  parsePayload (do
    let contextId ← readU64
    let limit ← readU32
    let includePayload ← readU32
    return { contextId, limit, includePayload }) payload

def parseGetBlob (payload : Bytes) : Except StoreError Hash :=
  if h : payload.length = 32 then .ok ⟨payload, h⟩
  else .error (.invalidInput "invalid blob hash length")

/-- The string that `bytes` spell. -/
def utf8OrError (bytes : Bytes) (message : String) : Except StoreError String :=
  match fromUtf8 bytes with
  | some s => .ok s
  | none => .error (.invalidInput message)

def readAppendTurn (flags : UInt16) : Reader AppendTurnRequest := do
  let contextId ← readU64
  let parentTurnId ← readU64
  let typeIdLen ← readU32
  let typeIdBytes ← readBytes typeIdLen.toNat
  let declaredTypeId ← utf8OrError typeIdBytes "declared_type_id not utf8"
  let declaredTypeVersion ← readU32
  let encoding ← readU32
  let compression ← readU32
  let uncompressedLen ← readU32
  let contentHash ← readHash
  let payloadLen ← readU32
  let payloadBytes ← readBytes payloadLen.toNat
  let idempotencyLen ← readU32
  let idempotencyKey ← readBytes idempotencyLen.toNat
  let fsRootHash ←
    if flags &&& 1 ≠ 0 then some <$> readHash else pure none
  return { contextId, parentTurnId, declaredTypeId, declaredTypeVersion, encoding,
           compression, uncompressedLen, contentHash, payloadBytes, idempotencyKey, fsRootHash }

/-- `parse_append_turn`. Bit 0 of the flags says that a snapshot root follows. -/
def parseAppendTurn (payload : Bytes) (flags : UInt16) : Except StoreError AppendTurnRequest :=
  parsePayload (readAppendTurn flags) payload

/-- The payload of an append as the clients write it. -/
def AppendTurnRequest.encode (r : AppendTurnRequest) : Bytes :=
  u64Bytes r.contextId ++ (u64Bytes r.parentTurnId ++
    (u32Bytes (UInt32.ofNat (utf8Bytes r.declaredTypeId).length) ++
      (utf8Bytes r.declaredTypeId ++ (u32Bytes r.declaredTypeVersion ++ (u32Bytes r.encoding ++
        (u32Bytes r.compression ++ (u32Bytes r.uncompressedLen ++ (r.contentHash.toList ++
          (u32Bytes (UInt32.ofNat r.payloadBytes.length) ++ (r.payloadBytes ++
            (u32Bytes (UInt32.ofNat r.idempotencyKey.length) ++ (r.idempotencyKey ++
              r.fsRootHash.elim [] fun root => root.toList))))))))))))

/-- Read one field, and then the rest. -/
theorem read_bind {α β : Type} {x : Reader α} {a : α} {bs rest : Bytes}
    (h : x bs = .ok (a, rest)) (f : α → Reader β) : (x >>= f) bs = f a rest := by
  simp [bind, StateT.bind, h, Except.bind]

theorem readBytes_append {bs : Bytes} (h : bs.length < 2 ^ 32) (rest : Bytes) :
    readBytes (UInt32.ofNat bs.length).toNat (bs ++ rest) = .ok (bs, rest) := by
  have hlen : (UInt32.ofNat bs.length).toNat = bs.length := by
    rw [UInt32.toNat_ofNat']
    exact Nat.mod_eq_of_lt h
  rw [hlen, readBytes, readWith, takeBytes_append rfl]

/-- **The server reads the append that a client wrote.** -/
theorem parseAppendTurn_encode (r : AppendTurnRequest) {flags : UInt16}
    (hflags : flags &&& 1 ≠ 0 ↔ r.fsRootHash.isSome)
    (htype : (utf8Bytes r.declaredTypeId).length < 2 ^ 32)
    (hpayload : r.payloadBytes.length < 2 ^ 32) (hkey : r.idempotencyKey.length < 2 ^ 32) :
    parseAppendTurn r.encode flags = .ok r := by
  have htype' : (utf8OrError (utf8Bytes r.declaredTypeId) "declared_type_id not utf8" :
      Except StoreError String) = .ok r.declaredTypeId := by
    simp [utf8OrError]
  have hread : readAppendTurn flags r.encode = .ok (r, []) := by
    rw [readAppendTurn, AppendTurnRequest.encode, read_bind (readU64_append _ _),
      read_bind (readU64_append _ _), read_bind (readU32_append _ _),
      read_bind (readBytes_append htype _), htype', read_bind rfl,
      read_bind (readU32_append _ _), read_bind (readU32_append _ _),
      read_bind (readU32_append _ _), read_bind (readU32_append _ _),
      read_bind (readHash_append _ _), read_bind (readU32_append _ _),
      read_bind (readBytes_append hpayload _), read_bind (readU32_append _ _),
      read_bind (readBytes_append hkey _)]
    obtain ⟨a, key, _ | root⟩ := r
    · rw [if_neg (by simp [hflags])]
      rfl
    · have hroot : (some <$> readHash : Reader (Option Hash)) root.toList =
          .ok (some root, []) := by
        have happend := readHash_append root []
        rw [List.append_nil] at happend
        simp [happend, Functor.map, StateT.map, bind, Except.bind, pure, Except.pure]
      rw [if_pos (by simp [hflags])]
      dsimp only [Option.elim]
      rw [read_bind hroot]
      rfl
  rw [parseAppendTurn, parsePayload, hread]
  rfl

def parseAttachFs (payload : Bytes) : Except StoreError AttachFsRequest :=
  if payload.length < 40 then .error (.invalidInput "attach_fs payload too short")
  else
    parsePayload (do
      let turnId ← readU64
      let fsRootHash ← readHash
      return { turnId, fsRootHash }) payload

def parsePutBlob (payload : Bytes) : Except StoreError PutBlobRequest :=
  if payload.length < 36 then .error (.invalidInput "put_blob payload too short")
  else
    parsePayload (do
      let hash ← readHash
      let dataLen ← readU32
      let data ← readBytes dataLen.toNat
      return { hash, data }) payload

/-- `parse_hello`: an empty payload is the one of an old client. -/
def parseHello (payload : Bytes) : Except StoreError HelloRequest :=
  if payload = [] then .ok { protocolVersion := 0, clientTag := "", clientMetaJson := none }
  else if payload.length < 4 then .error (.invalidInput "hello payload too short")
  else
    parsePayload (do
      let protocolVersion ← readU16
      let clientTagLen ← readU16
      if payload.length < 4 + clientTagLen.toNat + 4 then
        throw (.invalidInput "hello payload truncated")
      let clientTagBytes ← readBytes clientTagLen.toNat
      let clientTag ← utf8OrError clientTagBytes "client_tag not utf8"
      let clientMetaJsonLen ← readU32
      let clientMetaJson ←
        if 0 < clientMetaJsonLen then do
          let metaBytes ← readBytes clientMetaJsonLen.toNat
          let json ← utf8OrError metaBytes "client_meta_json not utf8"
          pure (some json)
        else pure none
      return { protocolVersion, clientTag, clientMetaJson }) payload

/-! ### Responses -/

def encodeHelloResp (sessionId : UInt64) (protocolVersion : UInt16) : Bytes :=
  u64Bytes sessionId ++ u16Bytes protocolVersion

def encodeCtxCreateResp (head : ContextHead) : Bytes :=
  u64Bytes head.contextId ++ (u64Bytes head.headTurnId ++ u32Bytes head.headDepth)

def encodeAppendAck (contextId newTurnId : UInt64) (newDepth : UInt32) (hash : Hash) : Bytes :=
  u64Bytes contextId ++ (u64Bytes newTurnId ++ (u32Bytes newDepth ++ hash.toList))

def encodeAttachFsResp (turnId : UInt64) (fsRootHash : Hash) : Bytes :=
  u64Bytes turnId ++ fsRootHash.toList

def encodePutBlobResp (hash : Hash) (wasNew : Bool) : Bytes :=
  hash.toList ++ [if wasNew then 1 else 0]

def encodeError (code : UInt32) (detail : String) : Bytes :=
  u32Bytes code ++ (u32Bytes (UInt32.ofNat (utf8Bytes detail).length) ++ utf8Bytes detail)

/-- The response to `GetLast`: a payload that is included is never compressed. -/
def encodeTurns (items : List TurnWithMeta) : Bytes :=
  u32Bytes (UInt32.ofNat items.length) ++ items.flatMap fun item =>
    u64Bytes item.record.turnId ++ (u64Bytes item.record.parentTurnId ++
      (u32Bytes item.record.depth ++
        (u32Bytes (UInt32.ofNat (utf8Bytes item.turnMeta.declaredTypeId).length) ++
          (utf8Bytes item.turnMeta.declaredTypeId ++
            (u32Bytes item.turnMeta.declaredTypeVersion ++ (u32Bytes item.turnMeta.encoding ++
              (u32Bytes (item.payload.elim item.turnMeta.compression fun _ => 0) ++
                (u32Bytes (item.payload.elim item.turnMeta.uncompressedLen fun p =>
                    UInt32.ofNat p.length) ++
                  (item.record.payloadHash.toList ++
                    item.payload.elim [] fun p =>
                      u32Bytes (UInt32.ofNat p.length) ++ p)))))))))

/-- The response to `GetBlob`. -/
def encodeBlob (bytes : Bytes) : Bytes := u32Bytes (UInt32.ofNat bytes.length) ++ bytes

end Cxdb
