import Cxdb.Decoders
import Cxdb.Handler

/-!
# Requests of the Clients

The requests that `client.rs`, `context.rs`, `turn.rs` and `fs.rs` of the Rust client write,
and the same functions of the Go client, which write the same bytes. A string of the Go
client is any sequence of bytes; the server reads type ids and tags as UTF-8.

## Main results

* `parseRequest_frame`: it parses the request that was put into the frame.
* `request_stream_roundtrip`: both of a stream of requests.
-/

open ByteFormat FaultyDisk Decoding

namespace Cxdb

/-! ### The requests -/

/-- `AppendRequest` of the clients; `τ` is the type of their strings. -/
structure ClientAppend (τ : Type) where
  contextId : UInt64
  parentTurnId : UInt64
  typeId : τ
  typeVersion : UInt32
  payload : Bytes
  idempotencyKey : Bytes
  encoding : UInt32
  compression : UInt32

/-- The requests of the clients, with the arguments of their functions. Only the Go client
has a function for `GET_BLOB`. -/
inductive ClientRequest (τ : Type) where
  | hello (clientTag : τ)
  | createContext (baseTurnId : UInt64)
  | forkContext (baseTurnId : UInt64)
  | getHead (contextId : UInt64)
  | getLast (contextId : UInt64) (limit : UInt32) (includePayload : Bool)
  | getBlob (hash : Hash)
  | appendTurn (req : ClientAppend τ) (fsRootHash : Option Hash)
  | attachFs (turnId : UInt64) (fsRootHash : Hash)
  | putBlob (data : Bytes)

variable {τ : Type} (text : τ → Bytes) (blake3 : Bytes → Hash)

/-- `ENCODING_MSGPACK` stands in for an encoding that is not set. -/
def ClientAppend.wireEncoding (r : ClientAppend τ) : UInt32 :=
  if r.encoding = 0 then 1 else r.encoding

/-- The payload of `append_turn` and `append_turn_with_fs`. -/
def ClientAppend.bytes (r : ClientAppend τ) (fsRootHash : Option Hash) : Bytes :=
  u64Bytes r.contextId ++ (u64Bytes r.parentTurnId ++
    (u32Bytes (UInt32.ofNat (text r.typeId).length) ++ (text r.typeId ++
      (u32Bytes r.typeVersion ++ (u32Bytes r.wireEncoding ++ (u32Bytes r.compression ++
        (u32Bytes (UInt32.ofNat r.payload.length) ++ ((blake3 r.payload).toList ++
          (u32Bytes (UInt32.ofNat r.payload.length) ++ (r.payload ++
            (u32Bytes (UInt32.ofNat r.idempotencyKey.length) ++ (r.idempotencyKey ++
              fsRootHash.elim [] fun root => root.toList))))))))))))

/-- `get_last` asks for ten turns where no limit is set. -/
def wireLimit (limit : UInt32) : UInt32 := if limit = 0 then 10 else limit

/-- The payload of a request. -/
def ClientRequest.payload : ClientRequest τ → Bytes
  | .hello clientTag =>
      u16Bytes 1 ++ (u16Bytes (UInt16.ofNat (text clientTag).length) ++
        (text clientTag ++ u32Bytes 0))
  | .createContext baseTurnId => u64Bytes baseTurnId
  | .forkContext baseTurnId => u64Bytes baseTurnId
  | .getHead contextId => u64Bytes contextId
  | .getLast contextId limit includePayload =>
      u64Bytes contextId ++ (u32Bytes (wireLimit limit) ++
        u32Bytes (if includePayload then 1 else 0))
  | .getBlob hash => hash.toList
  | .appendTurn req fsRootHash => req.bytes text blake3 fsRootHash
  | .attachFs turnId fsRootHash => u64Bytes turnId ++ fsRootHash.toList
  | .putBlob data =>
      (blake3 data).toList ++ (u32Bytes (UInt32.ofNat data.length) ++ data)

def ClientRequest.msgType : ClientRequest τ → MsgType
  | .hello _ => .hello
  | .createContext _ => .ctxCreate
  | .forkContext _ => .ctxFork
  | .getHead _ => .getHead
  | .getLast _ _ _ => .getLast
  | .getBlob _ => .getBlob
  | .appendTurn _ _ => .appendTurn
  | .attachFs _ _ => .attachFs
  | .putBlob _ => .putBlob

/-- Bit 0 says that a snapshot root follows. -/
def ClientRequest.flags : ClientRequest τ → UInt16
  | .appendTurn _ fsRootHash => if fsRootHash.isSome then 1 else 0
  | _ => 0

/-- The frame of a request. -/
def ClientRequest.frame (reqId : UInt64) (r : ClientRequest τ) : Frame :=
  Frame.make r.msgType.toU16 r.flags reqId (r.payload text blake3)

/-- The request with its strings replaced. -/
def ClientRequest.map {σ : Type} (f : σ → τ) : ClientRequest σ → ClientRequest τ
  | .hello clientTag => .hello (f clientTag)
  | .createContext baseTurnId => .createContext baseTurnId
  | .forkContext baseTurnId => .forkContext baseTurnId
  | .getHead contextId => .getHead contextId
  | .getLast contextId limit includePayload => .getLast contextId limit includePayload
  | .getBlob hash => .getBlob hash
  | .appendTurn req fsRootHash => .appendTurn { req with typeId := f req.typeId } fsRootHash
  | .attachFs turnId fsRootHash => .attachFs turnId fsRootHash
  | .putBlob data => .putBlob data

/-- The frame that the Rust client writes. -/
def Rust.request (reqId : UInt64) (r : ClientRequest String) : Frame :=
  r.frame utf8Bytes blake3 reqId

/-- The frame that the Go client writes. -/
def Go.request (reqId : UInt64) (r : ClientRequest Bytes) : Frame := r.frame id blake3 reqId

/-- Strings of UTF-8 make the same frame in both clients. -/
theorem Go.request_map (reqId : UInt64) (r : ClientRequest String) :
    Go.request blake3 reqId (r.map utf8Bytes) = Rust.request blake3 reqId r := by
  cases r <;> rfl

/-! ### What the server makes of them -/

/-- A request as the server has parsed it. -/
inductive ServerRequest where
  | hello (r : HelloRequest)
  | ctxCreate (baseTurnId : UInt64)
  | ctxFork (baseTurnId : UInt64)
  | getHead (contextId : UInt64)
  | appendTurn (r : AppendTurnRequest)
  | attachFs (r : AttachFsRequest)
  | putBlob (r : PutBlobRequest)
  | getLast (r : GetLastRequest)
  | getBlob (hash : Hash)

/-- The parse function that an arm of `handle_client` calls. -/
def parseRequest (frame : Frame) : Except StoreError ServerRequest :=
  let msgType := frame.header.msgType
  if msgType = MsgType.hello.toU16 then .hello <$> parseHello frame.payload
  else if msgType = MsgType.ctxCreate.toU16 then .ctxCreate <$> parseCtxCreate frame.payload
  else if msgType = MsgType.ctxFork.toU16 then .ctxFork <$> parseCtxFork frame.payload
  else if msgType = MsgType.getHead.toU16 then .getHead <$> parseGetHead frame.payload
  else if msgType = MsgType.appendTurn.toU16 then
    .appendTurn <$> parseAppendTurn frame.payload frame.header.flags
  else if msgType = MsgType.attachFs.toU16 then .attachFs <$> parseAttachFs frame.payload
  else if msgType = MsgType.putBlob.toU16 then .putBlob <$> parsePutBlob frame.payload
  else if msgType = MsgType.getLast.toU16 then .getLast <$> parseGetLast frame.payload
  else if msgType = MsgType.getBlob.toU16 then .getBlob <$> parseGetBlob frame.payload
  else .error (.invalidInput "unknown msg_type")

/-- The fields of an append. -/
def ClientAppend.fields (r : ClientAppend String) (fsRootHash : Option Hash) :
    AppendTurnRequest where
  contextId := r.contextId
  parentTurnId := r.parentTurnId
  declaredTypeId := r.typeId
  declaredTypeVersion := r.typeVersion
  encoding := r.wireEncoding
  compression := r.compression
  uncompressedLen := UInt32.ofNat r.payload.length
  contentHash := blake3 r.payload
  payloadBytes := r.payload
  idempotencyKey := r.idempotencyKey
  fsRootHash := fsRootHash

/-- The fields that a client puts into a request. -/
def ClientRequest.fields : ClientRequest String → ServerRequest
  | .hello clientTag => .hello { protocolVersion := 1, clientTag, clientMetaJson := none }
  | .createContext baseTurnId => .ctxCreate baseTurnId
  | .forkContext baseTurnId => .ctxFork baseTurnId
  | .getHead contextId => .getHead contextId
  | .getLast contextId limit includePayload =>
      .getLast { contextId, limit := wireLimit limit
                 includePayload := if includePayload then 1 else 0 }
  | .getBlob hash => .getBlob hash
  | .appendTurn req fsRootHash => .appendTurn (req.fields blake3 fsRootHash)
  | .attachFs turnId fsRootHash => .attachFs { turnId, fsRootHash }
  | .putBlob data => .putBlob { hash := blake3 data, data }

/-- A request that the server takes: its payload is at most 64 MiB long, and a tag is shorter
than its length field allows. -/
def ClientRequest.Sendable (r : ClientRequest τ) : Prop :=
  (r.payload text blake3).length ≤ maxFrameSize.toNat ∧
    ∀ clientTag, r = .hello clientTag → (text clientTag).length < 2 ^ 16

/-! ### The parsers undo the encoders -/

variable {blake3 : Bytes → Hash}

theorem parsePayload_of_read {α : Type} {r : Reader α} {payload rest : Bytes} {a : α}
    (h : r payload = .ok (a, rest)) : parsePayload r payload = .ok a := by
  rw [parsePayload, h]
  rfl

theorem parsePayload_all {α : Type} {r : Reader α} {payload : Bytes} {a : α}
    (h : r payload = .ok (a, [])) : parsePayload r payload = .ok a :=
  parsePayload_of_read h

theorem readU64_all (x : UInt64) : readU64 (u64Bytes x) = .ok (x, []) := by
  have h := readU64_append x []
  rwa [List.append_nil] at h

theorem readU32_all (x : UInt32) : readU32 (u32Bytes x) = .ok (x, []) := by
  have h := readU32_append x []
  rwa [List.append_nil] at h

theorem readHash_all (hash : Hash) : readHash hash.toList = .ok (hash, []) := by
  have h := readHash_append hash []
  rwa [List.append_nil] at h

theorem parseHello_payload (clientTag : String) (h : (utf8Bytes clientTag).length < 2 ^ 16) :
    parseHello (u16Bytes 1 ++ (u16Bytes (UInt16.ofNat (utf8Bytes clientTag).length) ++
        (utf8Bytes clientTag ++ u32Bytes 0))) =
      .ok { protocolVersion := 1, clientTag, clientMetaJson := none } := by
  obtain ⟨payload, hpayload⟩ : ∃ payload,
    payload = u16Bytes 1 ++ (u16Bytes (UInt16.ofNat (utf8Bytes clientTag).length) ++
      (utf8Bytes clientTag ++ u32Bytes 0)) := ⟨_, rfl⟩
  have hlen : (UInt16.ofNat (utf8Bytes clientTag).length).toNat = (utf8Bytes clientTag).length := by
    rw [UInt16.toNat_ofNat']
    exact Nat.mod_eq_of_lt h
  have htotal : payload.length = 8 + (utf8Bytes clientTag).length := by
    rw [hpayload]
    simp only [List.length_append, length_u16Bytes, length_u32Bytes]
    omega
  have hversion : readU16 payload = .ok (1, u16Bytes (UInt16.ofNat (utf8Bytes clientTag).length) ++
      (utf8Bytes clientTag ++ u32Bytes 0)) := by
    rw [hpayload, readU16_append]
  have htag : readBytes (utf8Bytes clientTag).length (utf8Bytes clientTag ++ u32Bytes 0) =
      .ok (utf8Bytes clientTag, u32Bytes 0) := by
    rw [readBytes, readWith, takeBytes_append rfl]
  have hutf8 : (utf8OrError (utf8Bytes clientTag) "client_tag not utf8" :
      Except StoreError String) = .ok clientTag := by
    rw [utf8OrError, fromUtf8_utf8Bytes]
  rw [← hpayload, parseHello, if_neg (List.ne_nil_of_length_pos (by omega)),
    if_neg (by omega)]
  refine parsePayload_all ?_
  rw [read_bind hversion, read_bind (readU16_append _ _), hlen]
  dsimp only
  rw [if_neg (by omega), read_bind htag, hutf8, read_bind rfl, read_bind (readU32_all _)]
  rfl

theorem parseAppendTurn_payload (req : ClientAppend String) (fsRootHash : Option Hash)
    (h : (req.bytes utf8Bytes blake3 fsRootHash).length ≤ maxFrameSize.toNat) :
    parseAppendTurn (req.bytes utf8Bytes blake3 fsRootHash)
        (ClientRequest.appendTurn req fsRootHash).flags = .ok (req.fields blake3 fsRootHash) := by
  have hmax : maxFrameSize.toNat < 2 ^ 32 := maxFrameSize.toNat_lt
  simp only [ClientAppend.bytes, List.length_append] at h
  have hencode : req.bytes utf8Bytes blake3 fsRootHash =
      (req.fields blake3 fsRootHash).encode := rfl
  rw [hencode]
  refine parseAppendTurn_encode _ ?_ ?_ ?_ ?_
  · cases fsRootHash <;> simp [ClientRequest.flags, ClientAppend.fields]
  all_goals
    simp only [ClientAppend.fields]
    omega

theorem parseGetLast_payload (contextId : UInt64) (limit includePayload : UInt32) :
    parseGetLast (u64Bytes contextId ++ (u32Bytes limit ++ u32Bytes includePayload)) =
      .ok { contextId, limit, includePayload } := by
  refine parsePayload_all ?_
  rw [read_bind (readU64_append _ _), read_bind (readU32_append _ _), read_bind (readU32_all _)]
  rfl

theorem parseAttachFs_payload (turnId : UInt64) (fsRootHash : Hash) :
    parseAttachFs (u64Bytes turnId ++ fsRootHash.toList) = .ok { turnId, fsRootHash } := by
  rw [parseAttachFs, if_neg (by
    rw [List.length_append, length_u64Bytes, List.Vector.toList_length]
    omega)]
  refine parsePayload_all ?_
  rw [read_bind (readU64_append _ _), read_bind (readHash_all _)]
  rfl

theorem parsePutBlob_payload (hash : Hash) {data : Bytes} (h : data.length < 2 ^ 32) :
    parsePutBlob (hash.toList ++ (u32Bytes (UInt32.ofNat data.length) ++ data)) =
      .ok { hash, data } := by
  have hdata := readBytes_append h []
  rw [List.append_nil] at hdata
  rw [parsePutBlob, if_neg (by
    rw [List.length_append, List.length_append, length_u32Bytes, List.Vector.toList_length]
    omega)]
  refine parsePayload_all ?_
  rw [read_bind (readHash_append _ _), read_bind (readU32_append _ _), read_bind hdata]
  rfl

/-- **The server parses what was put into the frame.** -/
theorem parseRequest_frame (reqId : UInt64) {r : ClientRequest String}
    (h : r.Sendable utf8Bytes blake3) :
    parseRequest (r.frame utf8Bytes blake3 reqId) = .ok (r.fields blake3) := by
  obtain ⟨hsize, htag⟩ := h
  cases r with
  | hello clientTag =>
      exact congrArg (ServerRequest.hello <$> ·) (parseHello_payload clientTag (htag _ rfl))
  | createContext baseTurnId =>
      exact congrArg (ServerRequest.ctxCreate <$> ·) (parsePayload_of_read (readU64_all baseTurnId))
  | forkContext baseTurnId =>
      exact congrArg (ServerRequest.ctxFork <$> ·) (parsePayload_of_read (readU64_all baseTurnId))
  | getHead contextId =>
      exact congrArg (ServerRequest.getHead <$> ·) (parsePayload_of_read (readU64_all contextId))
  | getLast contextId limit includePayload =>
      exact congrArg (ServerRequest.getLast <$> ·) (parseGetLast_payload _ _ _)
  | getBlob hash =>
      have hparse : parseGetBlob hash.toList = .ok hash := dif_pos hash.2
      exact congrArg (ServerRequest.getBlob <$> ·) hparse
  | appendTurn req fsRootHash =>
      exact congrArg (ServerRequest.appendTurn <$> ·)
        (parseAppendTurn_payload req fsRootHash hsize)
  | attachFs turnId fsRootHash =>
      exact congrArg (ServerRequest.attachFs <$> ·) (parseAttachFs_payload turnId fsRootHash)
  | putBlob data =>
      have hdata : data.length < 2 ^ 32 := by
        have := maxFrameSize.toNat_lt
        simp only [ClientRequest.payload, List.length_append] at hsize
        omega
      exact congrArg (ServerRequest.putBlob <$> ·) (parsePutBlob_payload _ hdata)

/-- **Requests are read as they were written.** A stream of requests of the Rust client, or of
the Go client with strings of UTF-8, is split into exactly their frames, and of each the
server parses the fields that were put in. -/
theorem request_stream_roundtrip (blake3 : Bytes → Hash)
    (sent : List (UInt64 × ClientRequest String)) (rest : Bytes)
    (hsent : ∀ p ∈ sent, p.2.Sendable utf8Bytes blake3) :
    repeated readFrame sent.length
          ((sent.flatMap fun p => (Rust.request blake3 p.1 p.2).bytes) ++ rest) =
        .ok (sent.map fun p => Rust.request blake3 p.1 p.2, rest) ∧
      repeated readFrame sent.length
          ((sent.flatMap fun p => (Go.request blake3 p.1 (p.2.map utf8Bytes)).bytes) ++ rest) =
        .ok (sent.map fun p => Go.request blake3 p.1 (p.2.map utf8Bytes), rest) ∧
      ∀ p ∈ sent, parseRequest (Rust.request blake3 p.1 p.2) = .ok (p.2.fields blake3) ∧
        parseRequest (Go.request blake3 p.1 (p.2.map utf8Bytes)) = .ok (p.2.fields blake3) := by
  have hrust : repeated readFrame sent.length
      ((sent.flatMap fun p => (Rust.request blake3 p.1 p.2).bytes) ++ rest) =
        .ok (sent.map fun p => Rust.request blake3 p.1 p.2, rest) :=
    repeated_ok fun pre p post hsplit => readFrame_bytes
      (Frame.framed_make (hsent p (hsplit ▸ List.mem_append_right _ List.mem_cons_self)).1) _
  simp only [Go.request_map]
  exact ⟨hrust, hrust, fun p hp =>
    ⟨parseRequest_frame p.1 (hsent p hp), parseRequest_frame p.1 (hsent p hp)⟩⟩

/-- A greeting, and an append with a snapshot root whose key and payload are empty. -/
def helloAndAppend : List (UInt64 × ClientRequest String) :=
  [(1, .hello "a"),
    (2, .appendTurn
      { contextId := 1, parentTurnId := 0, typeId := "t", typeVersion := 1, payload := []
        idempotencyKey := [], encoding := 0, compression := 0 }
      (some (List.Vector.replicate 32 7)))]

set_option maxRecDepth 4000 in
theorem request_stream_roundtrip_helloAndAppend :
    let blake3 : Bytes → Hash := fun _ => List.Vector.replicate 32 0
    let stream := helloAndAppend.flatMap fun p => (Rust.request blake3 p.1 p.2).bytes
    repeated readFrame 2 (stream ++ [0]) =
        .ok (helloAndAppend.map fun p => Rust.request blake3 p.1 p.2, [0]) ∧
      ∀ p ∈ helloAndAppend, parseRequest (Rust.request blake3 p.1 p.2) = .ok (p.2.fields blake3) := by
  intro blake3 stream
  have hsent : ∀ p ∈ helloAndAppend, p.2.Sendable utf8Bytes blake3 := by
    intro p hp
    rcases List.mem_cons.mp hp with rfl | hp
    · refine ⟨by decide, ?_⟩
      rintro _ ⟨⟩
      decide
    · obtain rfl := List.mem_singleton.mp hp
      exact ⟨by decide, fun _ h => by cases h⟩
  obtain ⟨hread, -, hparse⟩ := request_stream_roundtrip blake3 helloAndAppend [0] hsent
  exact ⟨hread, fun p hp => (hparse p hp).1⟩

/-- **A type id of the Go client that is not UTF-8** is not recovered: the server rejects the
request. -/
theorem request_typeId_not_utf8 :
    parseRequest (Go.request (fun _ => List.Vector.replicate 32 0) 1 (.appendTurn
        { contextId := 1, parentTurnId := 0, typeId := [0xff], typeVersion := 1, payload := []
          idempotencyKey := [], encoding := 1, compression := 0 } none)) =
      .error (.invalidInput "declared_type_id not utf8") := by
  rfl

end Cxdb
