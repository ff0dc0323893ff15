import Cxdb.ServerSystem

/-!
# Live Contexts

A context is live while the session that created it is registered with the tracker. Only a
connection whose loop breaks, at the end of its bytes or after an idle timeout, unregisters
its session; `EndsCleanly` excludes the other ways in which a registered session can end.

## Main results

* `Tracked.exec`: what a step preserves when registered sessions end cleanly.
* `live_contexts_tracked`: then the live contexts are those that the sessions created whose
  connections are being served, and every other session is unregistered.
-/

open ByteFormat FaultyDisk Transition

namespace Cxdb

variable {k : Crates}

/-! ### The tracker -/

namespace SessionTracker

/-- The contexts of a session, if it is registered. -/
def contextsOf (t : SessionTracker) (sessionId : UInt64) : Option (List UInt64) :=
  (t.sessions.lookup sessionId).map ClientSession.contextsCreated

theorem mem_sessions {t : SessionTracker} {id : UInt64} :
    id ∈ t.sessions ↔ (t.contextsOf id).isSome = true := by
  rw [contextsOf, Option.isSome_map, Finmap.lookup_isSome]

theorem contextsOf_modifySession (t : SessionTracker) (sessionId id : UInt64)
    (f : ClientSession → ClientSession) :
    (t.modifySession sessionId f).contextsOf id =
      if id = sessionId then (t.sessions.lookup id).map fun s => (f s).contextsCreated
      else t.contextsOf id := by
  unfold modifySession contextsOf
  by_cases hid : id = sessionId
  · subst hid
    cases hl : t.sessions.lookup id with
    | none => simp [hl]
    | some s => simp
  · cases hl : t.sessions.lookup sessionId with
    | none => simp [hid]
    | some s => simp [hid]

@[simp] theorem contextToSession_modifySession (t : SessionTracker) (sessionId : UInt64)
    (f : ClientSession → ClientSession) :
    (t.modifySession sessionId f).contextToSession = t.contextToSession := by
  unfold modifySession
  split <;> rfl

/-- Activity changes no context. -/
@[simp] theorem contextsOf_recordActivity (t : SessionTracker) (now sessionId id : UInt64) :
    (t.recordActivity now sessionId).contextsOf id = t.contextsOf id := by
  rw [recordActivity, contextsOf_modifySession]
  split <;> rfl

@[simp] theorem contextToSession_recordActivity (t : SessionTracker) (now sessionId : UInt64) :
    (t.recordActivity now sessionId).contextToSession = t.contextToSession :=
  contextToSession_modifySession ..

/-- A session is registered without contexts. -/
theorem contextsOf_register (t : SessionTracker) (now sessionId : UInt64) (clientTag : String)
    (peerAddr : Option String) (id : UInt64) :
    (t.register now sessionId clientTag peerAddr).contextsOf id =
      if id = sessionId then some [] else t.contextsOf id := by
  unfold register contextsOf
  by_cases hid : id = sessionId
  · subst hid
    simp
  · simp [hid]

/-- A registered session gets a context. -/
theorem contextsOf_addContext (t : SessionTracker) (sessionId contextId id : UInt64) :
    (t.addContext sessionId contextId).contextsOf id =
      if id = sessionId then
        (t.contextsOf id).map fun ids => if contextId ∈ ids then ids else ids ++ [contextId]
      else t.contextsOf id := by
  rw [addContext, contextsOf_modifySession]
  split
  · rw [contextsOf, Option.map_map]
    refine congrArg (Option.map · _) (funext fun s => ?_)
    simp only [Function.comp_apply]
    split <;> rfl
  · rfl

@[simp] theorem contextToSession_addContext (t : SessionTracker) (sessionId contextId : UInt64) :
    (t.addContext sessionId contextId).contextToSession =
      t.contextToSession.insert contextId sessionId :=
  contextToSession_modifySession ..

theorem contextsOf_unregister (t : SessionTracker) (sessionId id : UInt64) :
    (t.unregister sessionId).2.contextsOf id =
      if id = sessionId then none else t.contextsOf id := by
  unfold unregister
  by_cases hid : id = sessionId
  · subst hid
    cases hl : t.sessions.lookup id with
    | none => simp [contextsOf, hl]
    | some s => simp [contextsOf]
  · cases hl : t.sessions.lookup sessionId with
    | none => simp [hid]
    | some s => simp [contextsOf, hid]

/-- Erasing keys. -/
theorem lookup_foldl_erase {α : Type} (m : HashMap UInt64 α) (ids : List UInt64) (id : UInt64) :
    (ids.foldl (fun m ctxId => m.erase ctxId) m).lookup id =
      if id ∈ ids then none else m.lookup id := by
  induction ids generalizing m with
  | nil => simp
  | cons a ids ih =>
      rw [List.foldl_cons, ih]
      by_cases hid : id = a
      · subst hid
        simp
      · simp [hid]

theorem contextToSession_unregister (t : SessionTracker) (sessionId contextId : UInt64) :
    (t.unregister sessionId).2.contextToSession.lookup contextId =
      if contextId ∈ (t.contextsOf sessionId).getD [] then none
      else t.contextToSession.lookup contextId := by
  unfold unregister contextsOf
  cases hl : t.sessions.lookup sessionId with
  | none => simp
  | some s => simpa using lookup_foldl_erase _ _ _

end SessionTracker

/-! ### The events of sessions -/

/-- The session that created a context, in an event of its creation. -/
def BusEvent.creation : BusEvent → Option (UInt64 × UInt64)
  | .contextCreated contextId (some sessionId) _ _ => some (contextId, sessionId)
  | _ => none

/-- The contexts that sessions have created, with their sessions. -/
def creations (events : List BusEvent) : List (UInt64 × UInt64) :=
  events.filterMap BusEvent.creation

/-- The event says that a session has ended. -/
def BusEvent.ends (sessionId : UInt64) : BusEvent → Bool
  | .clientDisconnected id _ _ => id = sessionId
  | _ => false

/-- How often the end of a session was published. -/
def endsOf (events : List BusEvent) (sessionId : UInt64) : ℕ :=
  events.countP (BusEvent.ends sessionId)

/-- The event is about no session. -/
def BusEvent.Foreign (e : BusEvent) : Prop := e.creation = none ∧ ∀ id, e.ends id = false

@[simp] theorem creations_append (es es' : List BusEvent) :
    creations (es ++ es') = creations es ++ creations es' :=
  List.filterMap_append ..

@[simp] theorem endsOf_append (es es' : List BusEvent) (id : UInt64) :
    endsOf (es ++ es') id = endsOf es id + endsOf es' id :=
  List.countP_append ..

/-- Events about no session change neither. -/
theorem foreign_events {es : List BusEvent} (h : ∀ e ∈ es, e.Foreign) :
    creations es = [] ∧ ∀ id, endsOf es id = 0 := by
  refine ⟨List.filterMap_eq_nil_iff.mpr fun e he => (h e he).1, fun id => ?_⟩
  refine List.countP_eq_zero.mpr fun e he => ?_
  rw [(h e he).2 id]
  exact Bool.false_ne_true

theorem BusEvent.IsError.foreign {e : BusEvent} (h : e.IsError) : e.Foreign := by
  cases e <;> first | exact ⟨rfl, fun _ => rfl⟩ | cases h

theorem appendEvents_foreign (contextId : UInt64) (declaredTypeId : String)
    (declaredTypeVersion : UInt32) (record : TurnRecord) (metadata : Option ContextMetadata) :
    ∀ e ∈ appendEvents contextId declaredTypeId declaredTypeVersion record metadata,
      e.Foreign := by
  intro e he
  rcases List.mem_cons.mp he with rfl | he
  · exact ⟨rfl, fun _ => rfl⟩
  · unfold metadataEvents at he
    split at he
    · cases he
    · rcases List.mem_cons.mp he with rfl | he
      · exact ⟨rfl, fun _ => rfl⟩
      · split at he
        · cases he
        · obtain ⟨_, -, rfl⟩ := List.mem_map.mp he
          exact ⟨rfl, fun _ => rfl⟩

/-! ### Clean ends -/

/-- The session will be registered, if it is not yet. -/
def Arrival.Registers (σ : Session) (a : Arrival) : Prop :=
  σ.clientTagReceived = true ∨
    (a.frame.header.msgType = MsgType.hello.toU16 ∧
      ∃ hello, parseHello a.frame.payload = .ok hello) ∨
    a.frame.header.msgType = MsgType.ctxCreate.toU16 ∨
    a.frame.header.msgType = MsgType.ctxFork.toU16

/-- A counter that has an id to give, and another one after it. -/
def Room (next : UInt64) : Prop := next.toNat + 1 < 2 ^ 64

instance (next : UInt64) : Decidable (Room next) := Nat.decLt _ _

/-- The call creates a context. -/
def HttpCall.creates : HttpCall → Bool
  | .createContext .. | .forkContext .. => true
  | _ => false

/-- The step ends no registered session but by the end of its bytes or an idle timeout, and
the counters of sessions and contexts have ids left. -/
def Server.EndsCleanly (k : Crates) (m : Server) : ServerEvent → Prop
  | .connect _ => Room m.nextSessionId
  | .request sessionId frame now fault written =>
      (frame.header.msgType = MsgType.ctxCreate.toU16 ∨
          frame.header.msgType = MsgType.ctxFork.toU16 →
        Room m.shared.store.stores.turnStore.nextContextId) ∧
        ∀ σ ∈ m.serving sessionId, (m.arrival frame now fault).Registers σ →
          (m.arrival frame now fault).Answered k ∧ written = true
  | .hangUp sessionId reason =>
      ∀ σ ∈ m.serving sessionId, σ.clientTagReceived = true → reason ≠ .failed
  | .http call _ _ =>
      call.creates = true → Room m.shared.store.stores.turnStore.nextContextId
  | _ => True

/-- The session is registered: it said hello, or created a context, and its connection is
being served. -/
def Server.registered (m : Server) (sessionId : UInt64) : Bool :=
  (m.serving sessionId).any Session.clientTagReceived

/-- The tracker knows the registered sessions and the contexts that they created. -/
structure Server.Tracked (m : Server) : Prop where
  connection : ∀ id c, m.connections.lookup id = some c →
    c.session.sessionId = id ∧ id < m.nextSessionId
  sessions : ∀ id, (m.shared.tracker.contextsOf id).isSome = m.registered id
  contexts : ∀ id ids, m.shared.tracker.contextsOf id = some ids →
    ∀ c, c ∈ ids ↔ m.shared.tracker.contextToSession.lookup c = some id
  live : ∀ c id, m.shared.tracker.contextToSession.lookup c = some id ↔
    (c, id) ∈ creations m.shared.events ∧ m.registered id = true
  creator : ∀ c id, (c, id) ∈ creations m.shared.events →
    c < m.shared.store.stores.turnStore.nextContextId ∧
      ∃ conn, m.connections.lookup id = some conn ∧ conn.session.clientTagReceived = true
  ended : ∀ id conn, m.connections.lookup id = some conn →
    (conn.served = true → endsOf m.shared.events id = 0) ∧
      (conn.served = false → conn.session.clientTagReceived = true →
        endsOf m.shared.events id = 1)
  unknown : ∀ id, m.connections.lookup id = none → endsOf m.shared.events id = 0
  http : ∀ r ∈ m.http, ∀ e ∈ r.toPublish, e.Foreign

/-- An append leaves the counter of contexts alone. -/
theorem AppendTurnRequest.Outcome.nextContextId {req : AppendTurnRequest} {now : UInt64}
    {s s' : Store} {fault : Option (Fault DataFile)}
    {x : Except StoreError (TurnRecord × Option ContextMetadata)}
    (h : req.Outcome k now s fault x s') :
    s'.stores.turnStore.nextContextId = s.stores.turnStore.nextContextId := by
  have hafter : ∀ (p : UInt64 × UInt32) (len : ℕ) (stop : Option (Fault DataFile)),
      (s.stores.turnStore.after (req.args.entry s.stores.turnStore.nextTurnId p now) len
        stop).nextContextId = s.stores.turnStore.nextContextId := by
    intro p len stop
    cases stop with
    | none => rfl
    | some f =>
        simp only [TurnStore.after]
        split <;> rfl
  cases h with
  | stopped hreach hturns hroots => exact (congrArg TurnStore.nextContextId hturns :)
  | cut hreach hfault hfile hparent hturns hroots =>
      exact (congrArg TurnStore.nextContextId hturns).trans (hafter ..)
  | unattached hreach hspares hready hraw hparent hturns hroots =>
      exact (congrArg TurnStore.nextContextId hturns).trans (hafter ..)
  | appended hreach hspares hready hraw hparent hturns =>
      exact (congrArg TurnStore.nextContextId hturns).trans (hafter ..)

/-- So does an append of the store. -/
theorem Store.appendTurn_nextContextId {r : AppendRequest} {now : UInt64} {s s' : Store}
    {d d' : DataDir} {fault : Option (Fault DataFile)}
    {x : Except StoreError (TurnRecord × Option ContextMetadata)}
    (h : runCall (Store.appendTurn k r now) s d fault = (x, s', d')) :
    s'.stores.turnStore.nextContextId = s.stores.turnStore.nextContextId :=
  (Store.appendTurn_asRequest h).nextContextId

/-- The HTTP handlers leave the sessions alone. -/
theorem Shared.http_foreign (call : HttpCall) (now : UInt64) (fault : Option (Fault DataFile))
    (sh : Shared) :
    let r := sh.http k call now fault
    r.2.tracker = sh.tracker ∧ r.2.events = sh.events ∧ (∀ e ∈ r.1.toPublish, e.Foreign) ∧
      (r.2.store.stores.turnStore.nextContextId = sh.store.stores.turnStore.nextContextId ∨
        call.creates = true ∧ r.2.store.stores.turnStore.nextContextId =
          sh.store.stores.turnStore.nextContextId + 1) := by
  have herror : ∀ e, ∀ e' ∈ (httpError k now e).toPublish, e'.Foreign := by
    intro e e' he'
    rw [httpError] at he'
    obtain rfl := List.mem_singleton.mp he'
    exact ⟨rfl, fun _ => rfl⟩
  have hcontext : ∀ base clientTag,
      let r := sh.httpContext k (Stores.createContext base now) clientTag now fault
      r.2.tracker = sh.tracker ∧ r.2.events = sh.events ∧ (∀ e ∈ r.1.toPublish, e.Foreign) ∧
        (r.2.store.stores.turnStore.nextContextId = sh.store.stores.turnStore.nextContextId ∨
          r.2.store.stores.turnStore.nextContextId =
            sh.store.stores.turnStore.nextContextId + 1) := by
    intro base clientTag
    unfold Shared.httpContext Shared.call
    dsimp only
    rw [onStores_run]
    rcases hrun : runCall (Stores.createContext base now) sh.store.stores sh.disk fault with
      ⟨e | head, s', d'⟩
    · exact ⟨rfl, rfl, herror e, (Stores.createContext_takes hrun).2.1⟩
    · refine ⟨rfl, rfl, fun e he => ?_, (Stores.createContext_takes hrun).2.1⟩
      obtain rfl := List.mem_singleton.mp he
      exact ⟨rfl, fun _ => rfl⟩
  cases call with
  | createContext base clientTag =>
      obtain ⟨htracker, hevents, hforeign, hnext⟩ := hcontext base clientTag
      exact ⟨htracker, hevents, hforeign, hnext.imp_right fun h => ⟨rfl, h⟩⟩
  | forkContext base clientTag =>
      obtain ⟨htracker, hevents, hforeign, hnext⟩ := hcontext base clientTag
      exact ⟨htracker, hevents, hforeign, hnext.imp_right fun h => ⟨rfl, h⟩⟩
  | appendTurn contextId parentTurnId typeId typeVersion payloadBytes =>
      unfold Shared.http Shared.call
      dsimp only
      rcases hrun : runCall (Store.appendTurn k
        (httpAppendRequest k contextId parentTurnId typeId typeVersion payloadBytes) now)
        sh.store sh.disk fault with ⟨e | ⟨record, metadata⟩, s', d'⟩
      · exact ⟨rfl, rfl, herror e, Or.inl (Store.appendTurn_nextContextId hrun)⟩
      · exact ⟨rfl, rfl, appendEvents_foreign _ _ _ _ _, Or.inl (Store.appendTurn_nextContextId hrun)⟩
  | getContext contextId =>
      refine ⟨rfl, rfl, fun e he => absurd he List.not_mem_nil, Or.inl ?_⟩
      simp only [Shared.http, Store.getContextMetadata]
      split <;> rfl

/-- What a server looks like in which one connection has changed. -/
structure Server.Changes (m m' : Server) (id : UInt64) (conn : Connection) : Prop where
  connections : ∀ i, m'.connections.lookup i =
    if i = id then some conn else m.connections.lookup i
  sessionId : conn.session.sessionId = id
  nextSessionId : m'.nextSessionId = m.nextSessionId
  nextContextId : ∀ c, c < m.shared.store.stores.turnStore.nextContextId →
    c < m'.shared.store.stores.turnStore.nextContextId
  http : m'.http = m.http

theorem Server.registered_eq {m : Server} {id : UInt64} : m.registered id = true ↔
    ∃ c, m.connections.lookup id = some c ∧ c.served = true ∧
      c.session.clientTagReceived = true := by
  unfold Server.registered Server.serving
  cases m.connections.lookup id with
  | none => simp
  | some c => cases hs : c.served <;> simp [hs]

namespace Server.Tracked

variable {m m' : Server} {id : UInt64} {conn : Connection} {σ : Session}

/-- What a served connection is. -/
theorem of_serving (h : m.Tracked) (hσ : m.serving id = some σ) :
    m.connections.lookup id = some ⟨σ, true⟩ ∧ σ.sessionId = id ∧ id < m.nextSessionId ∧
      endsOf m.shared.events id = 0 ∧ m.registered id = σ.clientTagReceived := by
  obtain ⟨⟨σ', served⟩, hc, hs⟩ := Option.bind_eq_some_iff.mp hσ
  cases served with
  | false => cases hs
  | true =>
      obtain rfl := Option.some.inj hs
      refine ⟨hc, (h.connection id _ hc).1, (h.connection id _ hc).2, (h.ended id _ hc).1 rfl, ?_⟩
      rw [Server.registered, hσ]
      rfl

/-- A request that changes nothing for its session, and leaves it served if it is
registered. -/
theorem touch (h : m.Tracked) (hσ : m.serving id = some σ) (hchanges : m.Changes m' id conn)
    (hsame : conn.session.clientTagReceived = σ.clientTagReceived)
    (hserved : σ.clientTagReceived = true → conn.served = true)
    (hcontexts : ∀ i, m'.shared.tracker.contextsOf i = m.shared.tracker.contextsOf i)
    (hmap : m'.shared.tracker.contextToSession = m.shared.tracker.contextToSession)
    {es : List BusEvent} (hevents : m'.shared.events = m.shared.events ++ es)
    (hforeign : ∀ e ∈ es, e.Foreign) : m'.Tracked := by
  obtain ⟨hlookup, -, hlt, hends, hreg⟩ := h.of_serving hσ
  obtain ⟨hcreations, hends'⟩ := foreign_events hforeign
  have hregistered : ∀ i, m'.registered i = m.registered i := by
    intro i
    by_cases hi : i = id
    · subst hi
      rw [hreg, Server.registered, Server.serving, hchanges.connections, if_pos rfl]
      cases hσ' : σ.clientTagReceived with
      | false => cases hc : conn.served <;> simp [hc, hsame, hσ']
      | true => simp [hserved hσ', hsame, hσ']
    · rw [Server.registered, Server.serving, hchanges.connections, if_neg hi]
      rfl
  have hcreated : creations m'.shared.events = creations m.shared.events := by
    rw [hevents, creations_append, hcreations, List.append_nil]
  have hendsOf : ∀ i, endsOf m'.shared.events i = endsOf m.shared.events i := by
    intro i
    rw [hevents, endsOf_append, hends', Nat.add_zero]
  constructor
  · intro i c hc
    rw [hchanges.connections] at hc
    rw [hchanges.nextSessionId]
    split at hc
    next hi =>
      subst hi
      obtain rfl := Option.some.inj hc
      exact ⟨hchanges.sessionId, hlt⟩
    next => exact h.connection i c hc
  · intro i
    rw [hcontexts, hregistered]
    exact h.sessions i
  · rw [hmap]
    intro i ids hids
    rw [hcontexts] at hids
    exact h.contexts i ids hids
  · intro c i
    rw [hmap, hcreated, hregistered]
    exact h.live c i
  · intro c i hci
    rw [hcreated] at hci
    obtain ⟨hc, conn', hconn', htag⟩ := h.creator c i hci
    refine ⟨hchanges.nextContextId c hc, ?_⟩
    rw [hchanges.connections]
    split
    next hi =>
      subst hi
      rw [hlookup] at hconn'
      obtain rfl := Option.some.inj hconn'
      exact ⟨conn, rfl, hsame.trans htag⟩
    next => exact ⟨conn', hconn', htag⟩
  · intro i c hc
    rw [hchanges.connections] at hc
    rw [hendsOf]
    split at hc
    next hi =>
      subst hi
      obtain rfl := Option.some.inj hc
      refine ⟨fun _ => hends, fun hs htag => ?_⟩
      rw [hserved (hsame.symm.trans htag)] at hs
      cases hs
    next => exact h.ended i c hc
  · intro i hi
    rw [hchanges.connections] at hi
    rw [hendsOf]
    split at hi
    · cases hi
    · exact h.unknown i hi
  · rw [hchanges.http]
    exact h.http

/-- A session is registered, and stays served. -/
theorem register (h : m.Tracked) (hσ : m.serving id = some σ)
    (hfirst : σ.clientTagReceived = false) (hchanges : m.Changes m' id conn)
    (htag : conn.session.clientTagReceived = true) (hserved : conn.served = true)
    (hcontexts : ∀ i, m'.shared.tracker.contextsOf i =
      if i = id then some [] else m.shared.tracker.contextsOf i)
    (hmap : m'.shared.tracker.contextToSession = m.shared.tracker.contextToSession)
    {es : List BusEvent} (hevents : m'.shared.events = m.shared.events ++ es)
    (hforeign : ∀ e ∈ es, e.Foreign) : m'.Tracked := by
  obtain ⟨hlookup, -, hlt, hends, hreg⟩ := h.of_serving hσ
  obtain ⟨hcreations, hends'⟩ := foreign_events hforeign
  rw [hfirst] at hreg
  have hregistered : ∀ i, m'.registered i = if i = id then true else m.registered i := by
    intro i
    rw [Server.registered, Server.serving, hchanges.connections]
    split
    · simp [hserved, htag]
    · rfl
  have hcreated : creations m'.shared.events = creations m.shared.events := by
    rw [hevents, creations_append, hcreations, List.append_nil]
  have hendsOf : ∀ i, endsOf m'.shared.events i = endsOf m.shared.events i := by
    intro i
    rw [hevents, endsOf_append, hends', Nat.add_zero]
  -- The session has created nothing before.
  have hnone : ∀ c, (c, id) ∉ creations m.shared.events := by
    intro c hc
    obtain ⟨-, conn', hconn', htag'⟩ := h.creator c id hc
    rw [hlookup] at hconn'
    obtain rfl := Option.some.inj hconn'
    rw [hfirst] at htag'
    cases htag'
  have hlive : ∀ c, m.shared.tracker.contextToSession.lookup c ≠ some id := fun c hc =>
    hnone c ((h.live c id).mp hc).1
  constructor
  · intro i c hc
    rw [hchanges.connections] at hc
    rw [hchanges.nextSessionId]
    split at hc
    next hi =>
      subst hi
      obtain rfl := Option.some.inj hc
      exact ⟨hchanges.sessionId, hlt⟩
    next => exact h.connection i c hc
  · intro i
    rw [hcontexts, hregistered]
    split
    · rfl
    · exact h.sessions i
  · rw [hmap]
    intro i ids hids c
    rw [hcontexts] at hids
    split at hids
    next hi =>
      subst hi
      obtain rfl := Option.some.inj hids
      simp [hlive c]
    next => exact h.contexts i ids hids c
  · intro c i
    rw [hmap, hcreated, hregistered]
    split
    next hi =>
      subst hi
      simp [hlive c, hnone c]
    next => exact h.live c i
  · intro c i hci
    rw [hcreated] at hci
    obtain ⟨hc, conn', hconn', htag'⟩ := h.creator c i hci
    refine ⟨hchanges.nextContextId c hc, ?_⟩
    rw [hchanges.connections]
    split
    · exact ⟨conn, rfl, htag⟩
    · exact ⟨conn', hconn', htag'⟩
  · intro i c hc
    rw [hchanges.connections] at hc
    rw [hendsOf]
    split at hc
    next hi =>
      subst hi
      obtain rfl := Option.some.inj hc
      refine ⟨fun _ => hends, fun hs _ => ?_⟩
      rw [hserved] at hs
      cases hs
    next => exact h.ended i c hc
  · intro i hi
    rw [hchanges.connections] at hi
    rw [hendsOf]
    split at hi
    · cases hi
    · exact h.unknown i hi
  · rw [hchanges.http]
    exact h.http

/-- A registered session creates the context with the next id, and stays served. -/
theorem addContext (h : m.Tracked) (hσ : m.serving id = some σ)
    (hreg : σ.clientTagReceived = true) (hchanges : m.Changes m' id conn)
    (htag : conn.session.clientTagReceived = true) (hserved : conn.served = true) {c₀ : UInt64}
    (hc₀ : m.shared.store.stores.turnStore.nextContextId = c₀)
    (hc₀' : c₀ < m'.shared.store.stores.turnStore.nextContextId)
    (htracker : m'.shared.tracker = m.shared.tracker.addContext id c₀)
    {clientTag : String} {now : UInt64}
    (hevents : m'.shared.events =
      m.shared.events ++ [.contextCreated c₀ (some id) clientTag now]) : m'.Tracked := by
  obtain ⟨hlookup, -, hlt, hends, hregistered⟩ := h.of_serving hσ
  rw [hreg] at hregistered
  have hregistered' : ∀ i, m'.registered i = m.registered i := by
    intro i
    by_cases hi : i = id
    · subst hi
      rw [hregistered, Server.registered, Server.serving, hchanges.connections, if_pos rfl]
      simp [hserved, htag]
    · rw [Server.registered, Server.serving, hchanges.connections, if_neg hi]
      rfl
  have hcreated : creations m'.shared.events = creations m.shared.events ++ [(c₀, id)] := by
    rw [hevents, creations_append]
    rfl
  have hendsOf : ∀ i, endsOf m'.shared.events i = endsOf m.shared.events i := by
    intro i
    rw [hevents, endsOf_append]
    rfl
  have hmap := SessionTracker.contextToSession_addContext m.shared.tracker id c₀
  -- The next id is the id of no context so far.
  have hnew : ∀ i, (c₀, i) ∉ creations m.shared.events := by
    intro i hi
    have hlt := (h.creator c₀ i hi).1
    rw [hc₀] at hlt
    exact UInt64.lt_irrefl _ hlt
  have hnolive : ∀ i, m.shared.tracker.contextToSession.lookup c₀ ≠ some i := fun i hi =>
    hnew i ((h.live c₀ i).mp hi).1
  constructor
  · intro i c hc
    rw [hchanges.connections] at hc
    rw [hchanges.nextSessionId]
    split at hc
    next hi =>
      subst hi
      obtain rfl := Option.some.inj hc
      exact ⟨hchanges.sessionId, hlt⟩
    next => exact h.connection i c hc
  · intro i
    rw [htracker, SessionTracker.contextsOf_addContext, hregistered', ← h.sessions i]
    split <;> simp
  · intro i ids hids c
    rw [htracker, SessionTracker.contextsOf_addContext] at hids
    rw [htracker, hmap]
    by_cases hc : c = c₀
    · subst hc
      rw [Finmap.lookup_insert]
      split at hids
      next hi =>
        subst hi
        obtain ⟨ids', hids', rfl⟩ := Option.map_eq_some_iff.mp hids
        refine iff_of_true ?_ rfl
        split
        next hmem => exact hmem
        next => exact List.mem_append_right _ (List.mem_singleton_self _)
      next hi =>
        refine iff_of_false (fun hmem => ?_) fun heq => hi (Option.some.inj heq).symm
        exact hnolive i ((h.contexts i ids hids c).mp hmem)
    · rw [Finmap.lookup_insert_of_ne _ hc]
      split at hids
      next hi =>
        subst hi
        obtain ⟨ids', hids', rfl⟩ := Option.map_eq_some_iff.mp hids
        rw [← h.contexts i ids' hids' c]
        split
        · rfl
        · simp [hc]
      next => exact h.contexts i ids hids c
  · intro c i
    rw [htracker, hmap, hcreated, hregistered']
    by_cases hc : c = c₀
    · subst hc
      rw [Finmap.lookup_insert]
      constructor
      · rintro ⟨⟩
        exact ⟨List.mem_append_right _ (List.mem_singleton_self _), hregistered⟩
      · rintro ⟨hmem, -⟩
        rcases List.mem_append.mp hmem with hmem | hmem
        · exact absurd hmem (hnew i)
        · obtain ⟨-, rfl⟩ := Prod.mk.inj (List.mem_singleton.mp hmem)
          rfl
    · rw [Finmap.lookup_insert_of_ne _ hc, h.live c i]
      simp [hc]
  · intro c i hci
    rw [hcreated] at hci
    rw [hchanges.connections]
    rcases List.mem_append.mp hci with hci | hci
    · obtain ⟨hc, conn', hconn', htag'⟩ := h.creator c i hci
      refine ⟨hchanges.nextContextId c hc, ?_⟩
      split
      · exact ⟨conn, rfl, htag⟩
      · exact ⟨conn', hconn', htag'⟩
    · obtain ⟨rfl, rfl⟩ := Prod.mk.inj (List.mem_singleton.mp hci)
      rw [if_pos rfl]
      exact ⟨hc₀', conn, rfl, htag⟩
  · intro i c hc
    rw [hchanges.connections] at hc
    rw [hendsOf]
    split at hc
    next hi =>
      subst hi
      obtain rfl := Option.some.inj hc
      refine ⟨fun _ => hends, fun hs _ => ?_⟩
      rw [hserved] at hs
      cases hs
    next => exact h.ended i c hc
  · intro i hi
    rw [hchanges.connections] at hi
    rw [hendsOf]
    split at hi
    · cases hi
    · exact h.unknown i hi
  · rw [hchanges.http]
    exact h.http

/-- The loop of a connection breaks: its session is unregistered, if it is registered, and
the end is published. -/
theorem unregister (h : m.Tracked) (hσ : m.serving id = some σ) (hchanges : m.Changes m' id conn)
    (hsame : conn.session.clientTagReceived = σ.clientTagReceived) (hserved : conn.served = false)
    (htracker : m'.shared.tracker = (m.shared.tracker.unregister id).2)
    {clientTag : String} {contexts : List UInt64}
    (hevents : m'.shared.events =
      m.shared.events ++ [.clientDisconnected id clientTag contexts]) : m'.Tracked := by
  obtain ⟨hlookup, -, hlt, hends, hreg⟩ := h.of_serving hσ
  have hregistered : ∀ i, m'.registered i = if i = id then false else m.registered i := by
    intro i
    rw [Server.registered, Server.serving, hchanges.connections]
    split
    · simp [hserved]
    · rfl
  have hcontexts := SessionTracker.contextsOf_unregister m.shared.tracker id
  have hcreated : creations m'.shared.events = creations m.shared.events := by
    rw [hevents, creations_append]
    exact List.append_nil _
  have hendsOf : ∀ i, endsOf m'.shared.events i =
      endsOf m.shared.events i + if i = id then 1 else 0 := by
    intro i
    rw [hevents, endsOf_append]
    by_cases hi : i = id
    · subst hi
      simp [endsOf, BusEvent.ends]
    · simp [endsOf, BusEvent.ends, hi, Ne.symm hi]
  -- The contexts of the session are those that the map gives it.
  have howned : ∀ c, c ∈ (m.shared.tracker.contextsOf id).getD [] ↔
      m.shared.tracker.contextToSession.lookup c = some id := by
    intro c
    cases hl : m.shared.tracker.contextsOf id with
    | some ids => exact h.contexts id ids hl c
    | none =>
        have hno : m.registered id = false := by rw [← h.sessions id, hl]; rfl
        refine iff_of_false (by simp) fun hc => ?_
        rw [((h.live c id).mp hc).2] at hno
        cases hno
  have hmap : ∀ c i, m'.shared.tracker.contextToSession.lookup c = some i ↔
      i ≠ id ∧ m.shared.tracker.contextToSession.lookup c = some i := by
    intro c i
    rw [htracker, SessionTracker.contextToSession_unregister]
    simp only [howned c]
    split
    next hc => simp [hc, eq_comm]
    next hc =>
      refine ⟨fun hi => ⟨?_, hi⟩, And.right⟩
      rintro rfl
      exact hc hi
  constructor
  · intro i c hc
    rw [hchanges.connections] at hc
    rw [hchanges.nextSessionId]
    split at hc
    next hi =>
      subst hi
      obtain rfl := Option.some.inj hc
      exact ⟨hchanges.sessionId, hlt⟩
    next => exact h.connection i c hc
  · intro i
    rw [hregistered, htracker, hcontexts]
    split
    · rfl
    · exact h.sessions i
  · intro i ids hids c
    rw [htracker, hcontexts] at hids
    rw [hmap]
    split at hids
    · cases hids
    next hi => simpa [hi] using h.contexts i ids hids c
  · intro c i
    rw [hmap, hcreated, hregistered, h.live c i]
    split
    next hi => simp [hi]
    next hi => simp [hi]
  · intro c i hci
    rw [hcreated] at hci
    obtain ⟨hc, conn', hconn', htag⟩ := h.creator c i hci
    refine ⟨hchanges.nextContextId c hc, ?_⟩
    rw [hchanges.connections]
    split
    next hi =>
      subst hi
      rw [hlookup] at hconn'
      obtain rfl := Option.some.inj hconn'
      exact ⟨conn, rfl, hsame.trans htag⟩
    next => exact ⟨conn', hconn', htag⟩
  · intro i c hc
    rw [hchanges.connections] at hc
    rw [hendsOf]
    split at hc
    next hi =>
      subst hi
      obtain rfl := Option.some.inj hc
      simp [hends, hserved]
    next hi => simpa [hi] using h.ended i c hc
  · intro i hi
    rw [hchanges.connections] at hi
    rw [hendsOf]
    split at hi
    · cases hi
    next hid => simpa [hid] using h.unknown i hi
  · rw [hchanges.http]
    exact h.http

/-- A connection is accepted. -/
theorem connect (h : m.Tracked) (hroom : Room m.nextSessionId) (peerAddr : String) :
    ({ m with
        nextSessionId := m.nextSessionId + 1
        connections := m.connections.insert m.nextSessionId
          { session := Session.new m.nextSessionId peerAddr, served := true } } :
      Server).Tracked := by
  obtain ⟨id, hid⟩ : ∃ id, id = m.nextSessionId := ⟨_, rfl⟩
  have hnew : m.connections.lookup id = none := by
    cases hl : m.connections.lookup id with
    | none => rfl
    | some c => exact absurd (hid ▸ (h.connection _ c hl).2) (UInt64.lt_irrefl _)
  obtain ⟨m', hm'⟩ : ∃ m' : Server, m' = { m with
      nextSessionId := m.nextSessionId + 1
      connections := m.connections.insert m.nextSessionId
        { session := Session.new m.nextSessionId peerAddr, served := true } } := ⟨_, rfl⟩
  have hconn : ∀ i, m'.connections.lookup i = if i = id then
      some { session := Session.new id peerAddr, served := true }
      else m.connections.lookup i := by
    intro i
    rw [hm', ← hid]
    by_cases hi : i = id
    · subst hi
      simp
    · simp [hi]
  have hregistered : ∀ i, m'.registered i = m.registered i := by
    intro i
    rw [Server.registered, Server.serving, hconn]
    split
    next hi =>
      subst hi
      simp [Server.registered, Server.serving, hnew, Session.new]
    next => rfl
  have hshared : m'.shared = m.shared := by rw [hm']
  rw [← hm']
  constructor
  · intro i c hc
    rw [hconn] at hc
    have hlt : m.nextSessionId < m'.nextSessionId := by
      rw [hm', UInt64.lt_iff_toNat_lt]
      exact (toNat_add_one hroom).symm ▸ Nat.lt_succ_self _
    split at hc
    next hi =>
      subst hi
      obtain rfl := Option.some.inj hc
      exact ⟨rfl, hid ▸ hlt⟩
    next => exact ⟨(h.connection i c hc).1, UInt64.lt_trans (h.connection i c hc).2 hlt⟩
  · intro i
    rw [hshared, hregistered]
    exact h.sessions i
  · rw [hshared]
    exact h.contexts
  · intro c i
    rw [hshared, hregistered]
    exact h.live c i
  · intro c i hci
    rw [hshared] at hci ⊢
    obtain ⟨hc, conn', hconn', htag⟩ := h.creator c i hci
    refine ⟨hc, conn', ?_, htag⟩
    rw [hconn, if_neg ?_, hconn']
    rintro rfl
    rw [hnew] at hconn'
    cases hconn'
  · intro i c hc
    rw [hconn] at hc
    rw [hshared]
    split at hc
    next hi =>
      subst hi
      obtain rfl := Option.some.inj hc
      exact ⟨fun _ => h.unknown i hnew, fun hs => by cases hs⟩
    next => exact h.ended i c hc
  · intro i hi
    rw [hconn] at hi
    rw [hshared]
    split at hi
    · cases hi
    · exact h.unknown i hi
  · rw [hm']
    exact h.http

/-- What the HTTP thread does, to the store and by publishing events about no session. -/
theorem foreign (h : m.Tracked) (hconnections : m'.connections = m.connections)
    (hsession : m'.nextSessionId = m.nextSessionId)
    (htracker : m'.shared.tracker = m.shared.tracker) {es : List BusEvent}
    (hevents : m'.shared.events = m.shared.events ++ es) (hforeign : ∀ e ∈ es, e.Foreign)
    (hnext : ∀ c, c < m.shared.store.stores.turnStore.nextContextId →
      c < m'.shared.store.stores.turnStore.nextContextId)
    (hhttp : ∀ r ∈ m'.http, ∀ e ∈ r.toPublish, e.Foreign) : m'.Tracked := by
  obtain ⟨hcreations, hends⟩ := foreign_events hforeign
  have hcreated : creations m'.shared.events = creations m.shared.events := by
    rw [hevents, creations_append, hcreations, List.append_nil]
  have hendsOf : ∀ i, endsOf m'.shared.events i = endsOf m.shared.events i := by
    intro i
    rw [hevents, endsOf_append, hends, Nat.add_zero]
  have hregistered : ∀ i, m'.registered i = m.registered i := by
    intro i
    rw [Server.registered, Server.serving, hconnections]
    rfl
  constructor
  · rw [hconnections, hsession]
    exact h.connection
  · intro i
    rw [htracker, hregistered]
    exact h.sessions i
  · rw [htracker]
    exact h.contexts
  · intro c i
    rw [htracker, hcreated, hregistered]
    exact h.live c i
  · intro c i hci
    rw [hcreated] at hci
    rw [hconnections]
    exact ⟨hnext c (h.creator c i hci).1, (h.creator c i hci).2⟩
  · intro i c hc
    rw [hconnections] at hc
    rw [hendsOf]
    exact h.ended i c hc
  · intro i hi
    rw [hconnections] at hi
    rw [hendsOf]
    exact h.unknown i hi
  · exact hhttp

/-- A session that may have to be registered first creates a context. -/
theorem create (h : m.Tracked) (hσ : m.serving id = some σ) (hchanges : m.Changes m' id conn)
    (htag : conn.session.clientTagReceived = true) (hserved : conn.served = true) {c₀ : UInt64}
    (hc₀ : m.shared.store.stores.turnStore.nextContextId = c₀)
    (hc₀' : c₀ < m'.shared.store.stores.turnStore.nextContextId) {t : SessionTracker}
    (hcontexts : ∀ i, t.contextsOf i =
      if σ.clientTagReceived = true then m.shared.tracker.contextsOf i
      else if i = id then some [] else m.shared.tracker.contextsOf i)
    (hmap : t.contextToSession = m.shared.tracker.contextToSession)
    (htracker : m'.shared.tracker = t.addContext id c₀) {clientTag : String} {now : UInt64}
    (hevents : m'.shared.events =
      m.shared.events ++ [.contextCreated c₀ (some id) clientTag now]) : m'.Tracked := by
  obtain ⟨m₁, hm₁⟩ : ∃ m₁ : Server, m₁ = { m with
      shared := { m.shared with tracker := t }
      connections := m.connections.insert id { conn with served := true } } := ⟨_, rfl⟩
  have hchanges₁ : m.Changes m₁ id { conn with served := true } := by
    rw [hm₁]
    refine ⟨fun i => ?_, hchanges.sessionId, rfl, fun c hc => hc, rfl⟩
    by_cases hi : i = id
    · subst hi
      simp
    · simp [hi]
  have hevents₁ : m₁.shared.events = m.shared.events ++ [] := by
    rw [hm₁]
    exact (List.append_nil _).symm
  have htracker₁ : m₁.shared.tracker = t := by rw [hm₁]
  have h₁ : m₁.Tracked := by
    cases hfirst : σ.clientTagReceived with
    | true =>
        refine h.touch hσ hchanges₁ (htag.trans hfirst.symm) (fun _ => rfl) (fun i => ?_) ?_
          hevents₁ (fun e he => absurd he List.not_mem_nil)
        · rw [htracker₁, hcontexts, hfirst, if_pos rfl]
        · rw [htracker₁, hmap]
    | false =>
        refine h.register hσ hfirst hchanges₁ htag rfl (fun i => ?_) ?_ hevents₁
          (fun e he => absurd he List.not_mem_nil)
        · rw [htracker₁, hcontexts, hfirst, if_neg Bool.false_ne_true]
        · rw [htracker₁, hmap]
  have hσ₁ : m₁.serving id = some conn.session := by
    rw [Server.serving, hchanges₁.connections, if_pos rfl]
    rfl
  have hstore₁ : m₁.shared.store = m.shared.store := by rw [hm₁]
  refine h₁.addContext hσ₁ htag ⟨fun i => ?_, hchanges.sessionId, ?_, ?_, ?_⟩ htag hserved
    (by rw [hstore₁, hc₀]) hc₀' (by rw [htracker, htracker₁]) (by rw [hevents, hm₁])
  · rw [hchanges.connections, hchanges₁.connections]
    split <;> rfl
  · rw [hchanges.nextSessionId, hm₁]
  · rw [hstore₁]
    exact hchanges.nextContextId
  · rw [hchanges.http, hm₁]

theorem lt_of_next {c n n' : UInt64} (hc : c < n)
    (h : n' = n ∨ n' = n + 1 ∧ Room n) : c < n' := by
  rcases h with rfl | ⟨rfl, hroom⟩
  · exact hc
  · refine UInt64.lt_trans hc ?_
    rw [UInt64.lt_iff_toNat_lt, toNat_add_one hroom]
    exact Nat.lt_succ_self _

theorem request (h : m.Tracked) {frame : Frame} {now : UInt64}
    {fault : Option (Fault DataFile)} {written : Bool} (hσ : m.serving id = some σ)
    (hin : m.EndsCleanly k (.request id frame now fault written)) :
    (m.serve k id σ (m.arrival frame now fault) written).Tracked := by
  obtain ⟨hlookup, hsession, hlt, hends, hreg⟩ := h.of_serving hσ
  have hpass := handleFrame_pass (k := k) σ (m.arrival frame now fault)
  have hok := handleFrame_isOk (k := k) σ (m.arrival frame now fault)
  unfold Server.serve
  rcases hframe : handleFrame k σ (m.arrival frame now fault) with ⟨reply, σ', sh⟩
  rw [hframe] at hpass hok
  dsimp only at hpass hok ⊢
  -- A request of a session that is or will be registered leaves its connection served.
  have hserved : (m.arrival frame now fault).Registers σ → (reply.isOk && written) = true := by
    intro hregisters
    obtain ⟨hanswered, hwritten⟩ := hin.2 σ hσ hregisters
    obtain ⟨f, rfl⟩ := hok.mpr hanswered
    rw [hwritten]
    rfl
  have hchanges : ∀ acks appends, σ'.sessionId = id →
      (∀ c, c < m.shared.store.stores.turnStore.nextContextId →
        c < sh.store.stores.turnStore.nextContextId) →
      m.Changes { m with
          shared := sh
          connections := m.connections.insert id ⟨σ', reply.isOk && written⟩
          acks, appends } id ⟨σ', reply.isOk && written⟩ := by
    intro acks appends hid hnext
    refine ⟨fun i => ?_, hid, rfl, hnext, rfl⟩
    by_cases hi : i = id
    · subst hi
      simp
    · simp [hi]
  have hactive : ∀ i, ((m.arrival frame now fault).active σ).tracker.contextsOf i =
      m.shared.tracker.contextsOf i :=
    fun i => SessionTracker.contextsOf_recordActivity ..
  have hactiveMap : ((m.arrival frame now fault).active σ).tracker.contextToSession =
      m.shared.tracker.contextToSession :=
    SessionTracker.contextToSession_recordActivity ..
  cases hpass with
  | plain hturns htracker hevents herrors happend =>
      refine h.touch hσ (hchanges _ _ hsession ?_) rfl (fun htag => hserved (Or.inl htag)) ?_ ?_
        hevents fun e he => (herrors e he).foreign
      · rw [hturns]
        exact fun c hc => hc
      · rw [htracker]
        exact hactive
      · rw [htracker]
        exact hactiveMap
  | hello hmsg hparse hfirst hstore htracker hevents =>
      refine h.register hσ hfirst (hchanges _ _ hsession ?_) rfl
        (hserved (Or.inr (Or.inl ⟨hmsg, hparse⟩))) (fun i => ?_) ?_ hevents ?_
      · rw [hstore]
        exact fun c hc => hc
      · rw [htracker, SessionTracker.contextsOf_register, hactive, hsession]
      · rw [htracker]
        exact hactiveMap
      · intro e he
        obtain rfl := List.mem_singleton.mp he
        exact ⟨rfl, fun _ => rfl⟩
  | noContext hmsg hturns htracker hevents =>
      -- Such a request is answered.
      have hleft := hserved (Or.inr (Or.inr hmsg))
      cases hleft
  | @context reply sh head hmsg hid hturns htracker hevents =>
      have hserved := hserved (Or.inr (Or.inr hmsg))
      have hroom := hin.1 hmsg
      have hnext : sh.store.stores.turnStore.nextContextId =
          m.shared.store.stores.turnStore.nextContextId + 1 := by
        rw [hturns, hid]
        rfl
      have htag : (ensureRegistered σ ((m.arrival frame now fault).active σ)
          now).1.clientTagReceived = true := by
        unfold ensureRegistered
        split
        next htag => exact htag
        next => rfl
      have hid₁ : (ensureRegistered σ ((m.arrival frame now fault).active σ)
          now).1.sessionId = id := by
        unfold ensureRegistered
        split <;> exact hsession
      have htracker' : sh.tracker =
          (ensureRegistered σ ((m.arrival frame now fault).active σ) now).2.tracker.addContext id
            head.contextId :=
        htracker.trans (congrArg (fun i => SessionTracker.addContext _ i _) hsession)
      have hevents' : sh.events = m.shared.events ++
          [.contextCreated head.contextId (some id) σ.clientTag now] := by
        rw [← hsession]
        exact hevents
      refine h.create hσ (hchanges _ _ hid₁ fun c hc => lt_of_next hc (Or.inr ⟨hnext, hroom⟩))
        htag hserved hid.symm ?_ (fun i => ?_) ?_ htracker' hevents'
      · have hlt : head.contextId < head.contextId + 1 := by
          rw [hid, UInt64.lt_iff_toNat_lt]
          exact (toNat_add_one hroom).symm ▸ Nat.lt_succ_self _
        rw [hturns]
        exact hlt
      · unfold ensureRegistered
        split
        · exact hactive i
        · rw [← hsession]
          exact (SessionTracker.contextsOf_register ..).trans (by rw [hactive])
      · unfold ensureRegistered
        split <;> exact hactiveMap
  | @appendTurn req sh x hmsg hparse houtcome htracker hevents =>
      refine h.touch hσ (hchanges _ _ hsession ?_) rfl (fun htag => hserved (Or.inl htag)) ?_ ?_
        hevents ?_
      · intro c hc
        exact houtcome.nextContextId.symm ▸ hc
      · rw [htracker]
        exact hactive
      · rw [htracker]
        exact hactiveMap
      · obtain e | r := x
        · exact fun e he => absurd he List.not_mem_nil
        · exact appendEvents_foreign _ _ _ _ _

/-- **Every step keeps the tracker right**, if registered sessions end cleanly. -/
theorem exec (h : m.Tracked) {e : ServerEvent} (hin : m.EndsCleanly k e)
    (he : m.exec k e = some m') : m'.Tracked := by
  cases e with
  | connect peerAddr =>
      rw [Server.exec] at he
      obtain rfl := Option.some.inj he
      exact h.connect hin peerAddr
  | request id frame now fault written =>
      rw [Server.exec] at he
      obtain ⟨σ, hσ, rfl⟩ := Option.map_eq_some_iff.mp he
      exact h.request hσ hin
  | hangUp id reason =>
      rw [Server.exec] at he
      obtain ⟨σ, hσ, rfl⟩ := Option.map_eq_some_iff.mp he
      obtain ⟨-, hsession, -⟩ := h.of_serving hσ
      have hchanges : ∀ shared : Shared, shared.store = m.shared.store →
          m.Changes { m with shared, connections := m.connections.insert id ⟨σ, false⟩ } id
            ⟨σ, false⟩ := by
        intro shared hstore
        refine ⟨fun i => ?_, hsession, rfl, by rw [hstore]; exact fun c hc => hc, rfl⟩
        by_cases hi : i = id
        · subst hi
          simp
        · simp [hi]
      unfold Server.close
      dsimp only
      split
      next hreason =>
        have hfirst : σ.clientTagReceived = false := by
          cases htag : σ.clientTagReceived with
          | false => rfl
          | true => exact absurd hreason (hin σ hσ htag)
        exact h.touch hσ (hchanges m.shared rfl) rfl
          (fun htag => absurd (htag.symm.trans hfirst) (by simp)) (fun _ => rfl) rfl
          (List.append_nil _).symm fun e he => absurd he List.not_mem_nil
      next => exact h.unregister hσ (hchanges _ rfl) rfl rfl rfl rfl
  | http call now fault =>
      rw [Server.exec] at he
      split at he
      · cases he
      next hidle =>
      have hforeign := m.shared.http_foreign (k := k) call now fault
      rcases hr : m.shared.http k call now fault with ⟨r, sh⟩
      rw [hr] at he hforeign
      obtain ⟨htracker, hevents, hpublish, hnext⟩ := hforeign
      dsimp only at htracker hevents hpublish hnext
      obtain rfl := Option.some.inj he
      refine h.foreign rfl rfl htracker (hevents.trans (List.append_nil _).symm)
        (fun e he => absurd he List.not_mem_nil) (fun c hc => ?_) ?_
      · exact lt_of_next hc (hnext.imp_right fun ⟨hcreates, heq⟩ => ⟨heq, hin hcreates⟩)
      · rintro _ ⟨⟩
        exact hpublish
  | publish =>
      rw [Server.exec] at he
      split at he
      next e es turnId hhttp =>
        obtain rfl := Option.some.inj he
        have hpublish := h.http _ hhttp
        refine h.foreign rfl rfl rfl rfl ?_ (fun c hc => hc) ?_
        · exact fun e' he' => hpublish e' (List.mem_cons.mpr (Or.inl (List.mem_singleton.mp he')))
        · rintro _ ⟨⟩
          exact fun e' he' => hpublish e' (List.mem_cons_of_mem _ he')
      · cases he
  | httpRespond =>
      rw [Server.exec] at he
      split at he
      next turnId hhttp =>
        obtain rfl := Option.some.inj he
        exact h.foreign rfl rfl rfl (List.append_nil _).symm
          (fun e he => absurd he List.not_mem_nil) (fun c hc => hc) (by rintro _ ⟨⟩)
      · cases he

end Server.Tracked

/-! ### Runs -/

/-- **Live contexts**, in every run in which registered sessions end cleanly: a context is
live exactly when a session created it whose connection is being served, and a registered
session whose connection is no longer served is unregistered, and its end was published
once. -/
theorem live_contexts_tracked {store : Store} {disk : DataDir} {es : List ServerEvent}
    {m : Server}
    (hrun : Run (Guarded (Server.EndsCleanly k) (Steps (Server.exec k)))
      (Server.opened store disk) es m) :
    (∀ c, c ∈ m.shared.tracker.getLiveContextIds ↔
      ∃ id, (m.serving id).isSome = true ∧ (c, id) ∈ creations m.shared.events) ∧
    ∀ id conn, m.connections.lookup id = some conn → conn.served = false →
      conn.session.clientTagReceived = true →
        id ∉ m.shared.tracker.sessions ∧ endsOf m.shared.events id = 1 := by
  have h : m.Tracked := by
    refine hrun.invariant (I := fun _ m => m.Tracked) ?_ fun _ _ _ _ hi hs => hi.exec hs.1 hs.2
    constructor <;> intros <;>
      simp_all [Server.opened, SessionTracker.new, SessionTracker.contextsOf, Server.registered,
        Server.serving, creations, endsOf]
  refine ⟨fun c => ?_, fun id conn hconn hserved htag => ⟨fun hmem => ?_, ?_⟩⟩
  · rw [SessionTracker.getLiveContextIds, Finmap.mem_keys]
    constructor
    · intro hc
      obtain ⟨id, hid⟩ := Finmap.mem_iff.mp hc
      obtain ⟨hcreated, hreg⟩ := (h.live c id).mp hid
      refine ⟨id, ?_, hcreated⟩
      cases hσ : m.serving id with
      | none => simp [Server.registered, hσ] at hreg
      | some σ => rfl
    · rintro ⟨id, hserving, hcreated⟩
      obtain ⟨σ, hσ⟩ := Option.isSome_iff_exists.mp hserving
      obtain ⟨hlookup, -, -, -, hreg⟩ := h.of_serving hσ
      obtain ⟨-, conn, hconn, htag⟩ := h.creator c id hcreated
      rw [hlookup] at hconn
      obtain rfl := Option.some.inj hconn
      exact Finmap.mem_iff.mpr ⟨id, (h.live c id).mpr ⟨hcreated, hreg.trans htag⟩⟩
  · rw [SessionTracker.mem_sessions, h.sessions id] at hmem
    simp [Server.registered, Server.serving, hconn, hserved] at hmem
  · exact (h.ended id conn hconn).2 hserved htag

/-- Every request is answered, and every connection ends cleanly. -/
def Server.AllGoesWell (k : Crates) (m : Server) : ServerEvent → Prop
  | .connect _ => Room m.nextSessionId
  | .request sessionId frame now fault written =>
      Room m.shared.store.stores.turnStore.nextContextId ∧ written = true ∧
        ∀ σ ∈ m.serving sessionId, (handleFrame k σ (m.arrival frame now fault)).1.isOk = true
  | .hangUp _ reason => reason ≠ .failed
  | .http _ _ _ => Room m.shared.store.stores.turnStore.nextContextId
  | _ => True

instance (m : Server) (e : ServerEvent) : Decidable (m.AllGoesWell k e) := by
  cases e <;> unfold Server.AllGoesWell <;> infer_instance

theorem Server.AllGoesWell.endsCleanly {m : Server} {e : ServerEvent} (h : m.AllGoesWell k e) :
    m.EndsCleanly k e := by
  cases e with
  | connect => exact h
  | request =>
      refine ⟨fun _ => h.1, fun σ hσ _ => ⟨(handleFrame_isOk σ _).mp ?_, h.2.1⟩⟩
      have hok := h.2.2 σ hσ
      cases hr : (handleFrame k σ (m.arrival _ _ _)).1 with
      | ok f => exact ⟨f, rfl⟩
      | error e =>
          rw [hr] at hok
          cases hok
  | hangUp => exact fun _ _ _ => h
  | http => exact fun _ => h
  | _ => trivial

/-- A connection asks for a new context. -/
def createRequest (sessionId reqId : UInt64) : ServerEvent :=
  .request sessionId (Frame.make MsgType.ctxCreate.toU16 0 reqId (u64Bytes 0)) 0 none true

/-- Two connections create a context each, and the first one closes. -/
def oneCloses : List ServerEvent :=
  [.connect "", .connect "", createRequest 1 1, createRequest 2 1, .hangUp 1 .eof]

set_option maxRecDepth 4000 in
/-- `live_contexts_tracked` when one of two connections has closed. -/
theorem live_contexts_tracked_oneCloses :
    ∃ m : Server, creations m.shared.events = [(1, 1), (2, 2)] ∧ m.serving 1 = none ∧
      (m.serving 2).isSome = true ∧ 1 ∉ m.shared.tracker.getLiveContextIds ∧
      2 ∈ m.shared.tracker.getLiveContextIds := by
  obtain ⟨m, hrun, hcreations, hfirst, hsecond⟩ := exists_run_of_foldlM
    (Server.AllGoesWell .plain) (Server.exec .plain) (Server.opened Store.empty fun _ => [])
    oneCloses
    (fun m => creations m.shared.events = [(1, 1), (2, 2)] ∧
      (m.serving 1).isSome = false ∧ (m.serving 2).isSome = true)
    (by decide)
  have hclean : Run (Guarded (Server.EndsCleanly .plain) (Steps (Server.exec .plain)))
      (Server.opened Store.empty fun _ => []) oneCloses m :=
    hrun.mono fun _ _ _ hs => ⟨hs.1.endsCleanly, hs.2⟩
  have hlive := (live_contexts_tracked hclean).1
  refine ⟨m, hcreations, by simpa using hfirst, hsecond, fun h₁ => ?_, ?_⟩
  · obtain ⟨id, hserving, hid⟩ := (hlive 1).mp h₁
    rw [hcreations] at hid
    obtain rfl : id = 1 := by simpa using hid
    rw [hfirst] at hserving
    cases hserving
  · exact (hlive 2).mpr ⟨2, hsecond, by simp [hcreations]⟩

/-- A connection creates a context and then asks for the turns of one that is not there. -/
def asksForUnknown : List ServerEvent :=
  [.connect "", createRequest 1 1,
    .request 1 (Frame.make MsgType.getLast.toU16 0 2 (u64Bytes 9 ++ u32Bytes 1 ++ u32Bytes 0)) 1
      none true]

set_option maxRecDepth 4000 in
/-- **A context that stays live** when nobody is connected any more. -/
theorem live_context_leaks :
    ∃ m : Server, Run (Steps (Server.exec .plain)) (Server.opened Store.empty fun _ => [])
        asksForUnknown m ∧
      1 ∈ m.shared.tracker.getLiveContextIds ∧ (∀ id ∈ m.connections.keys, m.serving id = none) ∧
      1 ∈ m.shared.tracker.sessions ∧ endsOf m.shared.events 1 = 0 := by
  obtain ⟨m, hrun, hlive, hkeys, hserving, hsessions, hends⟩ := exists_run_of_foldlM
    (fun _ _ => True) (Server.exec .plain) (Server.opened Store.empty fun _ => [])
    asksForUnknown
    (fun m => 1 ∈ m.shared.tracker.getLiveContextIds ∧ m.connections.keys = {1} ∧
      (m.serving 1).isSome = false ∧ 1 ∈ m.shared.tracker.sessions ∧
      endsOf m.shared.events 1 = 0)
    (by decide)
  refine ⟨m, hrun.of_guarded, hlive, fun id hid => ?_, hsessions, hends⟩
  rw [hkeys, Finset.mem_singleton] at hid
  subst hid
  simpa using hserving

end Cxdb
