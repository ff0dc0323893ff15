import Cxdb.MetadataExtraction

/-!
# Sessions and Events

`SessionTracker` of `metrics.rs`: which clients are connected, and which contexts they have
created. A context is live while the session that created it is registered. And the events
of `events.rs`, which the server publishes on its `EventBus`; the bus is the list of what
has been published.

The locks of the tracker are taken one at a time; a call is one step here.
-/

namespace Cxdb

/-! ### Sessions -/

structure ClientSession where
  sessionId : UInt64
  clientTag : String
  peerAddr : Option String
  connectedAt : UInt64
  lastActivityAt : UInt64
  contextsCreated : List UInt64

structure SessionTracker where
  sessions : HashMap UInt64 ClientSession
  contextToSession : HashMap UInt64 UInt64

namespace SessionTracker

def new : SessionTracker := { sessions := ∅, contextToSession := ∅ }

def register (t : SessionTracker) (now sessionId : UInt64) (clientTag : String)
    (peerAddr : Option String) : SessionTracker :=
  { t with
    sessions := t.sessions.insert sessionId
      { sessionId, clientTag, peerAddr, connectedAt := now, lastActivityAt := now,
        contextsCreated := [] } }

/-- Change a session, if it is registered. -/
def modifySession (t : SessionTracker) (sessionId : UInt64)
    (f : ClientSession → ClientSession) : SessionTracker :=
  match t.sessions.lookup sessionId with
  | none => t
  | some session => { t with sessions := t.sessions.insert sessionId (f session) }

def recordActivity (t : SessionTracker) (now sessionId : UInt64) : SessionTracker :=
  t.modifySession sessionId fun session => { session with lastActivityAt := now }

def addContext (t : SessionTracker) (sessionId contextId : UInt64) : SessionTracker :=
  { t with contextToSession := t.contextToSession.insert contextId sessionId }.modifySession
    sessionId fun session =>
      if contextId ∈ session.contextsCreated then session
      else { session with contextsCreated := session.contextsCreated ++ [contextId] }

/-- Remove a session; its contexts are no longer live. -/
def unregister (t : SessionTracker) (sessionId : UInt64) : List UInt64 × SessionTracker :=
  match t.sessions.lookup sessionId with
  | none => ([], t)
  | some session =>
      (session.contextsCreated,
        { sessions := t.sessions.erase sessionId
          contextToSession :=
            session.contextsCreated.foldl (fun m ctxId => m.erase ctxId) t.contextToSession })

/-- `get_live_context_ids`. -/
def getLiveContextIds (t : SessionTracker) : Finset UInt64 := t.contextToSession.keys

end SessionTracker

/-! ### Events -/

/-- `StoreEvent` of `events.rs`. A context that HTTP created has no session; the source
writes "http" there, and it writes the ids as decimal strings. -/
inductive BusEvent where
  | contextCreated (contextId : UInt64) (sessionId : Option UInt64) (clientTag : String)
      (createdAt : UInt64)
  | contextMetadataUpdated (contextId : UInt64) (clientTag title : Option String)
      (labels : Option (List String)) (hasProvenance : Bool)
  | contextLinked (childContextId parentContextId : UInt64) (rootContextId : Option UInt64)
      (spawnReason : Option String)
  | turnAppended (contextId turnId parentTurnId : UInt64) (depth : UInt32)
      (declaredTypeId : String) (declaredTypeVersion : UInt32)
  | clientConnected (sessionId : UInt64) (clientTag : String)
  | clientDisconnected (sessionId : UInt64) (clientTag : String) (contexts : List UInt64)
  | errorOccurred (timestampMs : UInt64) (statusCode : UInt16) (message : String)
  deriving DecidableEq

/-- The events that follow from the metadata of a context's first append. -/
def metadataEvents (contextId : UInt64) (metadata : Option ContextMetadata) : List BusEvent :=
  match metadata with
  | none => []
  | some m =>
      .contextMetadataUpdated contextId m.clientTag m.title m.labels m.provenance.isSome ::
        match m.provenance with
        | none => []
        | some prov =>
            prov.parentContextId.toList.map fun parentContextId =>
              .contextLinked contextId parentContextId prov.rootContextId prov.spawnReason

end Cxdb
