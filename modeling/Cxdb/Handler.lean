import Cxdb.Requests
import Cxdb.SessionTracker
import Cxdb.Store

/-!
# The Handler of a Connection

`handle_client` of `main.rs`: a loop that reads a frame, serves the request in one of ten
arms, and writes the response. An arm either gives the `response` of the request, which may
be an error that is then reported in an ERROR frame, or it leaves the loop with `?`, and
with it the handler and the connection. `Served` tells the two apart.

What the connections share is behind locks: the store, whose lock an arm holds to its end,
the session tracker and the event bus. An arm is one step on them.
-/

open ByteFormat FaultyDisk

namespace Cxdb

/-! ### The state of the handler -/

/-- What the connections of a server share. -/
structure Shared where
  store : Store
  disk : DataDir
  tracker : SessionTracker
  events : List BusEvent

/-- The server before its first connection, on an empty directory. -/
def Shared.empty : Shared where
  store := Store.empty
  disk _ := []
  tracker := SessionTracker.new
  events := []

/-- A connection: the id of its session, the address of its peer, and the variables of
`handle_client`. -/
structure Session where
  sessionId : UInt64
  peerAddr : String
  clientTagReceived : Bool
  clientTag : String

/-- A connection that has just been accepted. -/
def Session.new (sessionId : UInt64) (peerAddr : String) : Session :=
  { sessionId, peerAddr, clientTagReceived := false, clientTag := "" }

/-- What an arm gives: the `response`, or the error that it leaves the handler with. -/
inductive Served where
  | response (r : Except StoreError (MsgType × Bytes))
  | leaves (e : StoreError)

/-- What the handler finds when a request comes: the shared state, the clock, and the fault
that the disk has in store for it. -/
structure Found where
  shared : Shared
  now : UInt64
  fault : Option (Fault DataFile)

/-- A request and what the handler finds. -/
structure Arrival extends Found where
  frame : Frame

variable (k : Crates)

/-- Run a call of the store. -/
def Shared.call {α : Type} (sh : Shared) (x : StoreM Store α)
    (fault : Option (Fault DataFile)) : Except StoreError α × Shared :=
  let r := runCall x sh.store sh.disk fault
  (r.1, { sh with store := r.2.1, disk := r.2.2 })

def Shared.publish (sh : Shared) (events : List BusEvent) : Shared :=
  { sh with events := sh.events ++ events }

/-! ### The arms -/

def serveHello (σ : Session) (sh : Shared) (now : UInt64) (payload : Bytes) :
    Served × Session × Shared :=
  match parseHello payload with
  | .error e => (.leaves e, σ, sh)
  | .ok hello =>
      let reply := .response (.ok (.hello, encodeHelloResp σ.sessionId 1))
      if σ.clientTagReceived then (reply, σ, sh)
      else
        (reply, { σ with clientTag := hello.clientTag, clientTagReceived := true },
          { sh with
            tracker := sh.tracker.register now σ.sessionId hello.clientTag (some σ.peerAddr)
          }.publish [.clientConnected σ.sessionId hello.clientTag])

/-- Register a session that has sent no `HELLO`, with an empty tag. -/
def ensureRegistered (σ : Session) (sh : Shared) (now : UInt64) : Session × Shared :=
  if σ.clientTagReceived then (σ, sh)
  else
    ({ σ with clientTagReceived := true },
      { sh with tracker := sh.tracker.register now σ.sessionId "" (some σ.peerAddr) })

/-- The arms of `CtxCreate` and `CtxFork`, which differ in the call of the store. -/
def serveContext (msgType : MsgType) (create : UInt64 → StoreM Stores ContextHead)
    (σ : Session) (sh : Shared) (now : UInt64) (fault : Option (Fault DataFile))
    (payload : Bytes) : Served × Session × Shared :=
  let (σ, sh) := ensureRegistered σ sh now
  match parseCtxCreate payload with
  | .error e => (.leaves e, σ, sh)
  | .ok baseTurnId =>
    match sh.call (onStores (create baseTurnId)) fault with
    | (.error e, sh) => (.leaves e, σ, sh)
    | (.ok head, sh) =>
        (.response (.ok (msgType, encodeCtxCreateResp head)), σ,
          { sh with tracker := sh.tracker.addContext σ.sessionId head.contextId }.publish
            [.contextCreated head.contextId (some σ.sessionId) σ.clientTag now])

def serveCtxCreate (σ : Session) (sh : Shared) (now : UInt64)
    (fault : Option (Fault DataFile)) (payload : Bytes) : Served × Session × Shared :=
  serveContext .ctxCreate (fun base => Stores.createContext base now) σ sh now fault payload

def serveCtxFork (σ : Session) (sh : Shared) (now : UInt64)
    (fault : Option (Fault DataFile)) (payload : Bytes) : Served × Session × Shared :=
  serveContext .ctxFork (fun base => Stores.forkContext base now) σ sh now fault payload

def serveGetHead (σ : Session) (sh : Shared) (payload : Bytes) : Served × Session × Shared :=
  match parseGetHead payload with
  | .error e => (.leaves e, σ, sh)
  | .ok contextId =>
      (.response ((sh.store.stores.turnStore.getHead contextId).map fun head =>
        (.getHead, encodeCtxCreateResp head)), σ, sh)

/-- The calls of the store in the arm of `AppendTurn`: the turn, and then its snapshot. -/
def appendWithFs (req : AppendTurnRequest) (now : UInt64) :
    StoreM Store (TurnRecord × Option ContextMetadata) := do
  let (record, metadata) ← Store.appendTurn k req.toAppendRequest now
  match req.fsRootHash with
  | some fsRootHash => onStores (Stores.attachFs record.turnId fsRootHash)
  | none => pure ()
  return (record, metadata)

/-- The events of an append. -/
def appendEvents (contextId : UInt64) (declaredTypeId : String) (declaredTypeVersion : UInt32)
    (record : TurnRecord) (metadata : Option ContextMetadata) : List BusEvent :=
  .turnAppended contextId record.turnId record.parentTurnId record.depth declaredTypeId
      declaredTypeVersion ::
    metadataEvents contextId metadata

def serveAppendTurn (σ : Session) (sh : Shared) (now : UInt64)
    (fault : Option (Fault DataFile)) (payload : Bytes) (flags : UInt16) :
    Served × Session × Shared :=
  match parseAppendTurn payload flags with
  | .error e => (.leaves e, σ, sh)
  | .ok req =>
    match sh.call (appendWithFs k req now) fault with
    | (.error e, sh) => (.leaves e, σ, sh)
    | (.ok (record, metadata), sh) =>
        (.response (.ok (.appendTurn,
            encodeAppendAck req.contextId record.turnId record.depth record.payloadHash)), σ,
          sh.publish (appendEvents req.contextId req.declaredTypeId req.declaredTypeVersion
            record metadata))

def serveAttachFs (σ : Session) (sh : Shared) (fault : Option (Fault DataFile))
    (payload : Bytes) : Served × Session × Shared :=
  match parseAttachFs payload with
  | .error e => (.leaves e, σ, sh)
  | .ok req =>
    match sh.call (onStores (Stores.attachFs req.turnId req.fsRootHash)) fault with
    | (.error e, sh) => (.leaves e, σ, sh)
    | (.ok _, sh) =>
        (.response (.ok (.attachFs, encodeAttachFsResp req.turnId req.fsRootHash)), σ, sh)

def servePutBlob (σ : Session) (sh : Shared) (fault : Option (Fault DataFile))
    (payload : Bytes) : Served × Session × Shared :=
  match parsePutBlob payload with
  | .error e => (.leaves e, σ, sh)
  | .ok req =>
      if k.blake3 req.data ≠ req.hash then
        (.response (.error (.invalidInput "blob hash mismatch")), σ, sh)
      else
        let wasNew := !sh.store.stores.blobStore.contains req.hash
        match sh.call (onStores (onBlobs (putIfAbsent k.zstd req.hash req.data))) fault with
        | (.error e, sh) => (.leaves e, σ, sh)
        | (.ok _, sh) => (.response (.ok (.putBlob, encodePutBlobResp req.hash wasNew)), σ, sh)

def serveGetLast (σ : Session) (sh : Shared) (payload : Bytes) : Served × Session × Shared :=
  match parseGetLast payload with
  | .error e => (.leaves e, σ, sh)
  | .ok req =>
    match sh.store.stores.getLast k.zstd (sh.disk .blobsPack) req.contextId req.limit
        (req.includePayload != 0) with
    | .error e => (.leaves e, σ, sh)
    | .ok items => (.response (.ok (.getLast, encodeTurns items)), σ, sh)

def serveGetBlob (σ : Session) (sh : Shared) (payload : Bytes) : Served × Session × Shared :=
  match parseGetBlob payload with
  | .error e => (.leaves e, σ, sh)
  | .ok hash =>
      (.response ((sh.store.stores.blobStore.get k.zstd (sh.disk .blobsPack) hash).map
        fun bytes => (.getBlob, encodeBlob bytes)), σ, sh)

/-- The `match msg_type` of the loop. -/
def serveRequest (σ : Session) (sh : Shared) (now : UInt64) (fault : Option (Fault DataFile))
    (frame : Frame) : Served × Session × Shared :=
  let msgType := frame.header.msgType
  if msgType = MsgType.hello.toU16 then serveHello σ sh now frame.payload
  else if msgType = MsgType.ctxCreate.toU16 then serveCtxCreate σ sh now fault frame.payload
  else if msgType = MsgType.ctxFork.toU16 then serveCtxFork σ sh now fault frame.payload
  else if msgType = MsgType.getHead.toU16 then serveGetHead σ sh frame.payload
  else if msgType = MsgType.appendTurn.toU16 then
    serveAppendTurn k σ sh now fault frame.payload frame.header.flags
  else if msgType = MsgType.attachFs.toU16 then serveAttachFs σ sh fault frame.payload
  else if msgType = MsgType.putBlob.toU16 then servePutBlob k σ sh fault frame.payload
  else if msgType = MsgType.getLast.toU16 then serveGetLast k σ sh frame.payload
  else if msgType = MsgType.getBlob.toU16 then serveGetBlob k σ sh frame.payload
  else (.response (.error (.invalidInput "unknown msg_type")), σ, sh)

/-! ### Responses -/

/-- `map_error`. -/
def mapError : StoreError → UInt32 × String
  | .notFound msg => (404, msg)
  | .invalidInput msg => (422, msg)
  | .corrupt msg => (500, msg)
  | .io kind => (500, k.ioText kind)

/-- The frame that answers a request, and what the error path publishes. -/
def respond (now reqId : UInt64) (r : Except StoreError (MsgType × Bytes)) :
    Frame × List BusEvent :=
  match r with
  | .ok (msgType, payload) => (Frame.make msgType.toU16 0 reqId payload, [])
  | .error err =>
      let (code, detail) := mapError k err
      (Frame.make MsgType.error.toU16 0 reqId (encodeError code detail),
        [.errorOccurred now (UInt16.ofNat code.toNat) detail])

/-- The shared state once the activity of the session is recorded. -/
def Arrival.active (σ : Session) (a : Arrival) : Shared :=
  { a.shared with tracker := a.shared.tracker.recordActivity a.now σ.sessionId }

/-- From what an arm gives to the response, which is missing when the arm leaves. -/
def Served.conclude (a : Arrival) (sh : Shared) : Served → Except StoreError Frame × Shared
  | .leaves e => (.error e, sh)
  | .response r =>
      let (frame, events) := respond k a.now a.frame.header.reqId r
      (.ok frame, sh.publish events)

/-- One pass of the loop, from the frame to its response. -/
def handleFrame (σ : Session) (a : Arrival) : Except StoreError Frame × Session × Shared :=
  let (served, σ, sh) := serveRequest k σ (a.active σ) a.now a.fault a.frame
  let (response, sh) := served.conclude k a sh
  (response, σ, sh)

/-! ### The loop -/

/-- `read_frame`. -/
def readFrame (bs : Bytes) : Except StoreError (Frame × Bytes) :=
  match takeU32 bs with
  | none => .error (.io .unexpectedEof)
  | some (len, _) =>
      if maxFrameSize < len then
        .error (.invalidInput ("frame size " ++ toString len.toNat ++ " exceeds maximum " ++
          toString maxFrameSize.toNat))
      else
        match takeFrame bs with
        | none => .error (.io .unexpectedEof)
        | some r => .ok r

/-- The frame is as long as its header says, and not too long. -/
structure Frame.Framed (f : Frame) : Prop where
  len : f.header.len.toNat = f.payload.length
  bounded : f.header.len ≤ maxFrameSize

/-- A well-framed request is read whole. -/
theorem readFrame_bytes {f : Frame} (h : f.Framed) (rest : Bytes) :
    readFrame (f.bytes ++ rest) = .ok (f, rest) := by
  have htaken : f.taken = f := by
    rw [Frame.taken, h.len, List.take_length]
  have hframe := takeFrame_bytes (f := f) (le_of_eq h.len) rest
  rw [htaken, h.len, List.drop_length, List.nil_append] at hframe
  have hlen : takeU32 (f.bytes ++ rest) = some (f.header.len,
      u16Bytes f.header.msgType ++ (u16Bytes f.header.flags ++ u64Bytes f.header.reqId) ++
        f.payload ++ rest) := by
    simp [Frame.bytes, FrameHeader.bytes, List.append_assoc]
  rw [readFrame, hlen]
  dsimp only
  rw [if_neg (UInt32.not_lt.mpr h.bounded), hframe]

/-- A frame that was written with its length is well framed. -/
theorem Frame.framed_make {msgType flags : UInt16} {reqId : UInt64} {payload : Bytes}
    (h : payload.length ≤ maxFrameSize.toNat) :
    (Frame.make msgType flags reqId payload).Framed := by
  have hlen : (UInt32.ofNat payload.length).toNat = payload.length := by
    rw [UInt32.toNat_ofNat']
    exact Nat.mod_eq_of_lt (lt_of_le_of_lt h maxFrameSize.toNat_lt)
  exact ⟨hlen, UInt32.le_iff_toNat_le.mpr (by rw [Frame.make, hlen]; exact h)⟩

/-- How a connection stands. -/
inductive LoopState where
  | serving
  | finished
  | left (e : StoreError)
  deriving DecidableEq

/-- `handle_client` on the bytes that come, as far as the list goes of what each request
finds: the responses, and how the loop stands then. The peer closes behind its last byte. -/
def handleClient : List Found → Session → Bytes → List Frame × LoopState
  | [], _, _ => ([], .serving)
  | found :: founds, σ, bs =>
    match readFrame bs with
    | .error (.io .unexpectedEof) => ([], .finished)
    | .error e => ([], .left e)
    | .ok (frame, bs) =>
      match handleFrame k σ { found with frame } with
      | (.error e, _, _) => ([], .left e)
      | (.ok response, σ, _) =>
          let (responses, state) := handleClient founds σ bs
          (response :: responses, state)

end Cxdb
