import Cxdb.Replies
import Cxdb.Transition

/-!
# The Server and its Connections

Any number of binary connections, each served by a thread of its own, and the HTTP server,
which handles one request after another in one thread. They share the store, the session
tracker and the event bus.

A binary request is one step: its arm holds the lock of the store from the call to the last
event it publishes. The HTTP handlers release the lock before they publish; so an HTTP
request is a step for its call, one for each of its events, and one for its response.

## Main results

* `handleFrame_pass`: what one pass of the loop does to the session and what is shared.
* `Server.exec`: the steps of the server.
-/

open ByteFormat FaultyDisk Transition

namespace Cxdb

variable {k : Crates}

/-! ### One pass of the loop -/

/-- An event of the error path. -/
def BusEvent.IsError : BusEvent → Prop
  | .errorOccurred .. => True
  | _ => False

/-- The response to a request that got as far as an answer of the store. -/
def appendReply (a : Arrival) (req : AppendTurnRequest)
    (x : Except StoreError (TurnRecord × Option ContextMetadata)) : Except StoreError Frame :=
  x.map fun r => Frame.make MsgType.appendTurn.toU16 0 a.frame.header.reqId
    (encodeAppendAck req.contextId r.1.turnId r.1.depth r.1.payloadHash)

/-- **What a pass can do**, to the session and to what the connections share. -/
inductive Pass (k : Crates) (σ : Session) (a : Arrival) :
    Except StoreError Frame → Session → Shared → Prop where
  /-- A request that leaves turns, contexts and sessions alone. -/
  | plain {reply : Except StoreError Frame} {sh : Shared} {errors : List BusEvent}
      (hturns : sh.store.stores.turnStore = a.shared.store.stores.turnStore)
      (htracker : sh.tracker = (a.active σ).tracker)
      (hevents : sh.events = a.shared.events ++ errors) (herrors : ∀ e ∈ errors, e.IsError)
      (happend : a.frame.header.msgType = MsgType.appendTurn.toU16 → ∃ e,
        parseAppendTurn a.frame.payload a.frame.header.flags = .error e ∧ reply = .error e) :
      Pass k σ a reply σ sh
  /-- The first `HELLO`. -/
  | hello {reply : Except StoreError Frame} {sh : Shared} {clientTag : String}
      (hmsg : a.frame.header.msgType = MsgType.hello.toU16)
      (hparse : ∃ hello, parseHello a.frame.payload = .ok hello)
      (hfirst : σ.clientTagReceived = false) (hstore : sh.store = a.shared.store)
      (htracker : sh.tracker = (a.active σ).tracker.register a.now σ.sessionId clientTag
        (some σ.peerAddr))
      (hevents : sh.events = a.shared.events ++ [.clientConnected σ.sessionId clientTag]) :
      Pass k σ a reply { σ with clientTag, clientTagReceived := true } sh
  /-- A context that is not created; its id may be taken. -/
  | noContext {e : StoreError} {sh : Shared}
      (hmsg : a.frame.header.msgType = MsgType.ctxCreate.toU16 ∨
        a.frame.header.msgType = MsgType.ctxFork.toU16)
      (hturns : ∃ n, sh.store.stores.turnStore =
        { a.shared.store.stores.turnStore with nextContextId := n })
      (htracker : sh.tracker = (ensureRegistered σ (a.active σ) a.now).2.tracker)
      (hevents : sh.events = a.shared.events) :
      Pass k σ a (.error e) (ensureRegistered σ (a.active σ) a.now).1 sh
  /-- A context that is created. -/
  | context {reply : Except StoreError Frame} {sh : Shared} {head : ContextHead}
      (hmsg : a.frame.header.msgType = MsgType.ctxCreate.toU16 ∨
        a.frame.header.msgType = MsgType.ctxFork.toU16)
      (hid : head.contextId = a.shared.store.stores.turnStore.nextContextId)
      (hturns : sh.store.stores.turnStore =
        { a.shared.store.stores.turnStore with
          heads := a.shared.store.stores.turnStore.heads.insert head.contextId head
          nextContextId := head.contextId + 1 })
      (htracker : sh.tracker = (ensureRegistered σ (a.active σ) a.now).2.tracker.addContext
        σ.sessionId head.contextId)
      (hevents : sh.events = a.shared.events ++ [.contextCreated head.contextId
        (some σ.sessionId) σ.clientTag a.now]) :
      Pass k σ a reply (ensureRegistered σ (a.active σ) a.now).1 sh
  /-- An append, as far as it gets. -/
  | appendTurn {req : AppendTurnRequest} {sh : Shared}
      {x : Except StoreError (TurnRecord × Option ContextMetadata)}
      (hmsg : a.frame.header.msgType = MsgType.appendTurn.toU16)
      (hparse : parseAppendTurn a.frame.payload a.frame.header.flags = .ok req)
      (houtcome : req.Outcome k a.now a.shared.store a.fault x sh.store)
      (htracker : sh.tracker = (a.active σ).tracker)
      (hevents : sh.events = a.shared.events ++ x.toOption.elim [] fun r =>
        appendEvents req.contextId req.declaredTypeId req.declaredTypeVersion r.1 r.2) :
      Pass k σ a (appendReply a req x) σ sh

/-- A request whose arm leaves turns, contexts, sessions and events alone. -/
theorem Pass.of_served {σ : Session} {a : Arrival} {sh : Shared} (served : Served)
    (hturns : sh.store.stores.turnStore = a.shared.store.stores.turnStore)
    (htracker : sh.tracker = (a.active σ).tracker) (hevents : sh.events = a.shared.events)
    (happend : a.frame.header.msgType = MsgType.appendTurn.toU16 → ∃ e,
      parseAppendTurn a.frame.payload a.frame.header.flags = .error e ∧ served = .leaves e) :
    Pass k σ a (served.conclude k a sh).1 σ (served.conclude k a sh).2 := by
  cases served with
  | leaves e =>
      exact .plain hturns htracker (hevents.trans (List.append_nil _).symm) (by simp)
        fun h => by
          obtain ⟨e', hparse, ⟨⟩⟩ := happend h
          exact ⟨e, hparse, rfl⟩
  | response r =>
      refine .plain hturns htracker
        (congrArg (· ++ (respond k a.now a.frame.header.reqId r).2) hevents) ?_ fun h => ?_
      · cases r with
        | ok r => simp [respond]
        | error e => simp [respond, BusEvent.IsError]
      · obtain ⟨e, -, ⟨⟩⟩ := happend h

/-- The arms of `CtxCreate` and `CtxFork`. -/
theorem serveContext_pass (msgType : MsgType) {σ : Session} {a : Arrival}
    (hmsg : a.frame.header.msgType = MsgType.ctxCreate.toU16 ∨
      a.frame.header.msgType = MsgType.ctxFork.toU16) :
    let r := serveContext msgType (fun base => Stores.createContext base a.now) σ (a.active σ)
      a.now a.fault a.frame.payload
    Pass k σ a (r.1.conclude k a r.2.2).1 r.2.1 (r.1.conclude k a r.2.2).2 := by
  have hstore : (ensureRegistered σ (a.active σ) a.now).2.store = a.shared.store :=
    (ensureRegistered_store σ (a.active σ) a.now).1
  have hevents : (ensureRegistered σ (a.active σ) a.now).2.events = a.shared.events := by
    unfold ensureRegistered
    split <;> rfl
  have htag : (ensureRegistered σ (a.active σ) a.now).1.sessionId = σ.sessionId ∧
      (ensureRegistered σ (a.active σ) a.now).1.clientTag = σ.clientTag := by
    unfold ensureRegistered
    split <;> exact ⟨rfl, rfl⟩
  intro r
  have hr : r = serveContext msgType (fun base => Stores.createContext base a.now) σ
    (a.active σ) a.now a.fault a.frame.payload := rfl
  clear_value r
  subst hr
  unfold serveContext
  dsimp only
  cases parseCtxCreate a.frame.payload with
  | error e =>
      exact .noContext hmsg ⟨_, congrArg (fun s => s.stores.turnStore) hstore⟩ rfl hevents
  | ok base =>
      dsimp only [Shared.call]
      rw [hstore, onStores_run, Stores.createContext, onTurns, runCall_zoom,
        createContext_outcome]
      cases a.shared.store.stores.turnStore.baseOf base with
      | error e => exact .noContext hmsg ⟨_, rfl⟩ rfl hevents
      | ok b =>
          obtain ⟨w, hw⟩ : ∃ w : Entry, w = { turn := none, head :=
              ⟨a.shared.store.stores.turnStore.nextContextId, b.1, b.2, a.now, 0⟩ } := ⟨_, rfl⟩
          dsimp only
          rw [← hw]
          cases hstop : w.stop a.fault with
          | none =>
              rw [if_pos rfl]
              subst hw
              refine @Pass.context k σ a _ _ ⟨_, b.1, b.2, a.now, 0⟩ hmsg rfl rfl ?_ ?_
              · exact congrArg (fun id => SessionTracker.addContext _ id _) htag.1
              · refine (List.append_nil _).trans ?_
                simp only [Shared.publish, hevents, htag]
          | some f =>
              rw [if_neg (Option.some_ne_none f)]
              subst hw
              refine .noContext hmsg ⟨a.shared.store.stores.turnStore.nextContextId + 1, ?_⟩ rfl
                hevents
              simp only [Served.conclude, TurnStore.after]
              split <;> rfl

/-- An attachment leaves the turns alone. -/
theorem attachFs_turnStore (turnId : UInt64) (fsRootHash : Hash) (s : Stores) (d : DataDir)
    (fault : Option (Fault DataFile)) :
    (runCall (Stores.attachFs turnId fsRootHash) s d fault).2.1.turnStore = s.turnStore := by
  rw [Stores.attachFs_run]
  split
  · rfl
  · split
    · split <;> rfl
    · rfl

/-- **Every pass of the loop is one of these.** -/
theorem handleFrame_pass (σ : Session) (a : Arrival) :
    Pass k σ a (handleFrame k σ a).1 (handleFrame k σ a).2.1 (handleFrame k σ a).2.2 := by
  have hother : ∀ {m : MsgType}, a.frame.header.msgType = m.toU16 → m ≠ .appendTurn →
      ∀ {P : Prop}, a.frame.header.msgType = MsgType.appendTurn.toU16 → P := by
    intro m hm hne P h
    rw [hm] at h
    exact absurd h (by revert hne; cases m <;> decide)
  unfold handleFrame serveRequest
  dsimp only
  split
  next hm =>
    unfold serveHello
    cases hparse : parseHello a.frame.payload with
    | error e => exact .of_served _ rfl rfl rfl (hother hm (by decide))
    | ok hello =>
        dsimp only
        split
        · exact .of_served _ rfl rfl rfl (hother hm (by decide))
        next hfirst =>
          exact .hello hm ⟨hello, hparse⟩ (by simpa using hfirst) rfl rfl (List.append_nil _)
  split
  next hm => exact serveContext_pass .ctxCreate (Or.inl hm)
  split
  next hm => exact serveContext_pass .ctxFork (Or.inr hm)
  split
  next hm =>
    unfold serveGetHead
    cases parseGetHead a.frame.payload with
    | error e => exact .of_served _ rfl rfl rfl (hother hm (by decide))
    | ok id => exact .of_served _ rfl rfl rfl (hother hm (by decide))
  split
  next hm =>
    unfold serveAppendTurn
    cases hparse : parseAppendTurn a.frame.payload a.frame.header.flags with
    | error e => exact .of_served _ rfl rfl rfl fun _ => ⟨e, hparse, rfl⟩
    | ok req =>
        dsimp only [Shared.call, Arrival.active]
        rcases hrun : runCall (appendWithFs k req a.now) a.shared.store a.shared.disk a.fault with
          ⟨e | ⟨record, metadata⟩, s', d'⟩
        · refine Pass.appendTurn (x := .error e) hm hparse ?_ rfl (List.append_nil _).symm
          exact appendWithFs_outcome hrun
        · refine Pass.appendTurn (x := .ok (record, metadata)) hm hparse ?_ rfl
            (List.append_nil _)
          exact appendWithFs_outcome hrun
  split
  next hm =>
    unfold serveAttachFs
    cases parseAttachFs a.frame.payload with
    | error e => exact .of_served _ rfl rfl rfl (hother hm (by decide))
    | ok req =>
        have hturns := attachFs_turnStore req.turnId req.fsRootHash a.shared.store.stores
          a.shared.disk a.fault
        dsimp only [Shared.call, Arrival.active]
        rw [onStores_run]
        dsimp only
        cases (runCall (Stores.attachFs req.turnId req.fsRootHash) a.shared.store.stores
          a.shared.disk a.fault).1 with
        | error e => exact .of_served _ hturns rfl rfl (hother hm (by decide))
        | ok u => exact .of_served _ hturns rfl rfl (hother hm (by decide))
  split
  next hm =>
    unfold servePutBlob
    cases parsePutBlob a.frame.payload with
    | error e => exact .of_served _ rfl rfl rfl (hother hm (by decide))
    | ok req =>
        dsimp only [Shared.call, Arrival.active]
        split
        · exact .of_served _ rfl rfl rfl (hother hm (by decide))
        · rw [onStores_run, onBlobs, runCall_zoom]
          dsimp only
          cases (runCall (putIfAbsent k.zstd req.hash req.data) a.shared.store.stores.blobStore
            a.shared.disk a.fault).1 with
          | error e => exact .of_served _ rfl rfl rfl (hother hm (by decide))
          | ok entry => exact .of_served _ rfl rfl rfl (hother hm (by decide))
  split
  next hm =>
    unfold serveGetLast
    cases parseGetLast a.frame.payload with
    | error e => exact .of_served _ rfl rfl rfl (hother hm (by decide))
    | ok req =>
        dsimp only
        cases (a.active σ).store.stores.getLast k.zstd ((a.active σ).disk .blobsPack)
            req.contextId req.limit (req.includePayload != 0) with
        | error e => exact .of_served _ rfl rfl rfl (hother hm (by decide))
        | ok items => exact .of_served _ rfl rfl rfl (hother hm (by decide))
  split
  next hm =>
    unfold serveGetBlob
    cases parseGetBlob a.frame.payload with
    | error e => exact .of_served _ rfl rfl rfl (hother hm (by decide))
    | ok hash => exact .of_served _ rfl rfl rfl (hother hm (by decide))
  next happend _ _ _ _ =>
    exact .of_served _ rfl rfl rfl fun h => absurd h happend

/-! ### HTTP -/

/-- The requests over HTTP that change what is shared. A request for the JSON of a context
asks for its metadata. -/
inductive HttpCall where
  | createContext (baseTurnId : UInt64) (clientTag : String)
  | forkContext (baseTurnId : UInt64) (clientTag : String)
  | appendTurn (contextId parentTurnId : UInt64) (typeId : String) (typeVersion : UInt32)
      (payloadBytes : Bytes)
  | getContext (contextId : UInt64)
  deriving DecidableEq

/-- A request that the HTTP thread is handling: the events that it has still to publish, and
the turn that its response names. -/
structure HttpRequest where
  toPublish : List BusEvent
  turnId : Option UInt64

/-- The append of the HTTP handler. -/
def httpAppendRequest (k : Crates) (contextId parentTurnId : UInt64) (typeId : String)
    (typeVersion : UInt32) (payloadBytes : Bytes) : AppendRequest :=
  { contextId, parentTurnId, declaredTypeId := typeId, declaredTypeVersion := typeVersion,
    encoding := 1, compression := 0, uncompressedLen := UInt32.ofNat payloadBytes.length,
    contentHash := k.blake3 payloadBytes, payloadBytes }

/-- A request that fails publishes its error. -/
def httpError (k : Crates) (now : UInt64) (e : StoreError) : HttpRequest :=
  let (status, message) := mapError k e
  { toPublish := [.errorOccurred now (UInt16.ofNat status.toNat) message], turnId := none }

/-- A create or a fork over HTTP. -/
def Shared.httpContext (k : Crates) (create : StoreM Stores ContextHead) (clientTag : String)
    (now : UInt64) (fault : Option (Fault DataFile)) (sh : Shared) : HttpRequest × Shared :=
  match sh.call (onStores create) fault with
  | (.error e, sh) => (httpError k now e, sh)
  | (.ok head, sh) =>
      ({ toPublish := [.contextCreated head.contextId none clientTag now], turnId := none }, sh)

/-- What an HTTP handler does before it publishes. -/
def Shared.http (k : Crates) (call : HttpCall) (now : UInt64) (fault : Option (Fault DataFile))
    (sh : Shared) : HttpRequest × Shared :=
  match call with
  | .createContext base clientTag =>
      sh.httpContext k (Stores.createContext base now) clientTag now fault
  | .forkContext base clientTag =>
      sh.httpContext k (Stores.forkContext base now) clientTag now fault
  | .appendTurn contextId parentTurnId typeId typeVersion payloadBytes =>
      let r := httpAppendRequest k contextId parentTurnId typeId typeVersion payloadBytes
      match sh.call (Store.appendTurn k r now) fault with
      | (.error e, sh) => (httpError k now e, sh)
      | (.ok (record, metadata), sh) =>
          ({ toPublish := appendEvents contextId typeId typeVersion record metadata
             turnId := some record.turnId }, sh)
  | .getContext contextId =>
      ({ toPublish := [], turnId := none },
        { sh with store := (sh.store.getContextMetadata k (sh.disk .blobsPack) contextId).2 })

/-! ### The server -/

/-- A connection that was accepted; it is served until `handle_client` returns. -/
structure Connection where
  session : Session
  served : Bool

/-- What is remembered of an `AppendTurn`: the turn that it created, and the one that its
ack named. -/
structure KeyedAppend where
  contextId : UInt64
  idempotencyKey : Bytes
  sentAt : UInt64
  created : Option UInt64
  acked : Option UInt64
  deriving DecidableEq

/-- The server: what is shared, the counter of sessions, the connections by their session,
and the HTTP thread. `acks` and `appends` remember the acks that were sent, and what became
of the appends of the connections. -/
structure Server where
  shared : Shared
  nextSessionId : UInt64
  connections : HashMap UInt64 Connection
  http : Option HttpRequest
  acks : List UInt64
  appends : List KeyedAppend

/-- A server that has opened its store. -/
def Server.opened (store : Store) (disk : DataDir) : Server where
  shared := { store, disk, tracker := SessionTracker.new, events := [] }
  nextSessionId := 1
  connections := ∅
  http := none
  acks := []
  appends := []

/-- Why `read_frame` fails: the peer has closed, the read timeout has passed, or anything
else, such as a frame that is too long. -/
inductive HangUp where
  | eof
  | timedOut
  | failed
  deriving DecidableEq

/-- The steps of the server. A request that is answered may still lose its connection while
the response is `written`. -/
inductive ServerEvent where
  | connect (peerAddr : String)
  | request (sessionId : UInt64) (frame : Frame) (now : UInt64)
      (fault : Option (Fault DataFile)) (written : Bool)
  | hangUp (sessionId : UInt64) (reason : HangUp)
  | http (call : HttpCall) (now : UInt64) (fault : Option (Fault DataFile))
  | publish
  | httpRespond

/-- The turn that an append ack names. -/
def ackedTurnId (frame : Frame) : Option UInt64 :=
  if frame.header.msgType = MsgType.appendTurn.toU16 then do
    let (_, rest) ← takeU64 frame.payload
    let (turnId, _) ← takeU64 rest
    return turnId
  else none

/-- The ack that a request gets, if it is `written`. -/
def ackOf (reply : Except StoreError Frame) (written : Bool) : Option UInt64 :=
  if written then reply.toOption.bind ackedTurnId else none

/-- The turn that an append created: it took the next id, and the turn with that id is
there. -/
def createdTurn (before after : TurnStore) : Option UInt64 :=
  if after.nextTurnId ≠ before.nextTurnId ∧ before.nextTurnId ∈ after.turns then
    some before.nextTurnId
  else none

/-- What is remembered of a request, if it is an append. -/
def Arrival.keyedAppend (a : Arrival) (after : Shared) (acked : Option UInt64) :
    Option KeyedAppend :=
  if a.frame.header.msgType = MsgType.appendTurn.toU16 then
    match parseAppendTurn a.frame.payload a.frame.header.flags with
    | .error _ => none
    | .ok req =>
        some { contextId := req.contextId, idempotencyKey := req.idempotencyKey,
               sentAt := a.now, acked
               created := createdTurn a.shared.store.stores.turnStore
                 after.store.stores.turnStore }
  else none

/-- A request of a connection. When its arm leaves the handler, or the response cannot be
written, `handle_client` returns. -/
def Server.serve (k : Crates) (m : Server) (sessionId : UInt64) (σ : Session) (a : Arrival)
    (written : Bool) : Server :=
  let (reply, σ', sh) := handleFrame k σ a
  { m with
    shared := sh
    connections := m.connections.insert sessionId
      { session := σ', served := reply.isOk && written }
    acks := m.acks ++ (ackOf reply written).toList
    appends := m.appends ++ (a.keyedAppend sh (ackOf reply written)).toList }

/-- The end of a connection whose next frame cannot be read. Only the loop that breaks
unregisters the session. -/
def Server.close (m : Server) (sessionId : UInt64) (σ : Session) (reason : HangUp) : Server :=
  let connections := m.connections.insert sessionId { session := σ, served := false }
  let m := { m with connections }
  if reason = .failed then m
  else
    let (orphaned, tracker) := m.shared.tracker.unregister sessionId
    let events := [.clientDisconnected sessionId σ.clientTag orphaned]
    { m with shared := { m.shared with tracker }.publish events }

/-- What the server finds when a request comes. -/
def Server.arrival (m : Server) (frame : Frame) (now : UInt64)
    (fault : Option (Fault DataFile)) : Arrival :=
  { shared := m.shared, now, fault, frame }

/-- The session of a connection that is being served. -/
def Server.serving (m : Server) (sessionId : UInt64) : Option Session :=
  (m.connections.lookup sessionId).bind fun c => if c.served then some c.session else none

/-- The steps of the server. -/
def Server.exec (k : Crates) (m : Server) : ServerEvent → Option Server
  | .connect peerAddr =>
      some { m with
        nextSessionId := m.nextSessionId + 1
        connections := m.connections.insert m.nextSessionId
          { session := Session.new m.nextSessionId peerAddr, served := true } }
  | .request sessionId frame now fault written =>
      (m.serving sessionId).map fun σ =>
        m.serve k sessionId σ (m.arrival frame now fault) written
  | .hangUp sessionId reason =>
      (m.serving sessionId).map fun σ => m.close sessionId σ reason
  | .http call now fault =>
    match m.http with
    | some _ => none
    | none =>
        let (request, shared) := m.shared.http k call now fault
        some { m with shared, http := some request }
  | .publish =>
    match m.http with
    | some ⟨e :: es, turnId⟩ =>
        some { m with shared := m.shared.publish [e], http := some ⟨es, turnId⟩ }
    | _ => none
  | .httpRespond =>
    match m.http with
    | some ⟨[], turnId⟩ => some { m with http := none, acks := m.acks ++ turnId.toList }
    | _ => none

/-! ### Ids -/

/-- A create takes the next id for its context, and leaves the turns alone. -/
theorem Stores.createContext_takes {base now : UInt64} {s s' : Stores} {d d' : DataDir}
    {fault : Option (Fault DataFile)} {x : Except StoreError ContextHead}
    (h : runCall (Stores.createContext base now) s d fault = (x, s', d')) :
    s'.turnStore.nextTurnId = s.turnStore.nextTurnId ∧
      (s'.turnStore.nextContextId = s.turnStore.nextContextId ∨
        s'.turnStore.nextContextId = s.turnStore.nextContextId + 1) ∧
      ∀ head, x = .ok head → head.contextId = s.turnStore.nextContextId ∧
        s'.turnStore.nextContextId = s.turnStore.nextContextId + 1 := by
  rw [Stores.createContext, onTurns, runCall_zoom, createContext_outcome] at h
  cases hb : s.turnStore.baseOf base with
  | error e =>
      rw [hb] at h
      obtain ⟨rfl, rfl, -⟩ := by simpa using h
      exact ⟨rfl, Or.inl rfl, by simp⟩
  | ok b =>
      rw [hb] at h
      obtain ⟨w, hw⟩ : ∃ w : Entry, w = { turn := none, head :=
          ⟨s.turnStore.nextContextId, b.1, b.2, now, 0⟩ } := ⟨_, rfl⟩
      dsimp only at h
      rw [← hw] at h
      cases hstop : w.stop fault with
      | none =>
          rw [hstop, if_pos rfl] at h
          obtain ⟨rfl, rfl, -⟩ := by simpa using h
          subst hw
          refine ⟨rfl, Or.inr rfl, ?_⟩
          rintro _ ⟨⟩
          exact ⟨rfl, rfl⟩
      | some f =>
          rw [hstop, if_neg (Option.some_ne_none f)] at h
          obtain ⟨rfl, rfl, -⟩ := by simpa using h
          subst hw
          simp only [TurnStore.after]
          split <;> exact ⟨rfl, Or.inr rfl, by simp⟩

/-- An append of the store is an append request without a snapshot. -/
theorem Store.appendTurn_asRequest {r : AppendRequest} {now : UInt64} {s s' : Store}
    {d d' : DataDir} {fault : Option (Fault DataFile)}
    {x : Except StoreError (TurnRecord × Option ContextMetadata)}
    (h : runCall (Store.appendTurn k r now) s d fault = (x, s', d')) :
    AppendTurnRequest.Outcome k { r with idempotencyKey := [], fsRootHash := none } now s fault
      x s' := by
  have hrun := appendWithFs_run (k := k) { r with idempotencyKey := [], fsRootHash := none }
    now s d fault
  rw [h] at hrun
  obtain e | ⟨record, metadata⟩ := x
  · exact appendWithFs_outcome hrun
  · exact appendWithFs_outcome hrun

/-! ### Acks -/

/-- An append ack names its turn. -/
theorem ackedTurnId_encode (reqId contextId turnId : UInt64) (depth : UInt32) (hash : Hash) :
    ackedTurnId (Frame.make MsgType.appendTurn.toU16 0 reqId
      (encodeAppendAck contextId turnId depth hash)) = some turnId := by
  simp [ackedTurnId, Frame.make, encodeAppendAck]

/-- Only an append gets an append ack. -/
theorem ackOf_eq_none {σ : Session} {a : Arrival}
    (h : a.frame.header.msgType ≠ MsgType.appendTurn.toU16) (written : Bool) :
    ackOf (handleFrame k σ a).1 written = none := by
  unfold ackOf
  split
  case isFalse => rfl
  cases hreply : (handleFrame k σ a).1 with
  | error e => rfl
  | ok f =>
      have htype := (handleFrame_answeredBy hreply σ).2
      have hne : f.header.msgType ≠ MsgType.appendTurn.toU16 := by
        rw [htype]
        split
        · exact h
        · decide
      simp [Except.toOption, ackedTurnId, hne]

/-- What an append is acked with. -/
theorem ackOf_appendReply (a : Arrival) (req : AppendTurnRequest)
    (x : Except StoreError (TurnRecord × Option ContextMetadata)) (written : Bool) :
    ackOf (appendReply a req x) written =
      if written then x.toOption.map fun r => r.1.turnId else none := by
  unfold ackOf appendReply
  cases x with
  | error e => rfl
  | ok r =>
      cases written with
      | false => rfl
      | true => simp [Except.map, Except.toOption, ackedTurnId_encode]

end Cxdb
