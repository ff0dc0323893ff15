import Cxdb.ServerSystem
import Cxdb.TurnInvariant

/-!
# The Order of Turn Events

A binary append publishes its `TurnAppended` under the lock of the store. An HTTP append
gives the lock back first; an append of another connection can then take the next id and
publish before it. `PublishesInOrder` excludes such an append.

## Main results

* `Ordered.exec`: what a step preserves when it publishes in order.
* `turn_events_ordered`: then the events of the turns are published in the order of the
  turn ids, one for each append that is acknowledged.
-/

open ByteFormat FaultyDisk Transition

namespace Cxdb

variable {k : Crates}

/-! ### The ids on the bus -/

/-- The types are told apart by their numbers. -/
theorem MsgType.toU16_inj {t t' : MsgType} (h : t.toU16 = t'.toU16) : t = t' := by
  cases t <;> cases t' <;> first | rfl | exact absurd h (by decide)

/-- The turn of a `TurnAppended`. -/
def BusEvent.turnId : BusEvent → Option UInt64
  | .turnAppended _ turnId _ _ _ _ => some turnId
  | _ => none

/-- The turns of the events, in the order of the events. -/
def turnIds (events : List BusEvent) : List UInt64 := events.filterMap BusEvent.turnId

@[simp] theorem turnIds_append (es es' : List BusEvent) :
    turnIds (es ++ es') = turnIds es ++ turnIds es' :=
  List.filterMap_append ..

theorem turnIds_eq_nil {es : List BusEvent} (h : ∀ e ∈ es, e.turnId = none) :
    turnIds es = [] :=
  List.filterMap_eq_nil_iff.mpr h

theorem BusEvent.IsError.turnId {e : BusEvent} (h : e.IsError) : e.turnId = none := by
  cases e <;> first | rfl | cases h

/-- An append has one event of its turn. -/
@[simp] theorem turnIds_appendEvents (contextId : UInt64) (declaredTypeId : String)
    (declaredTypeVersion : UInt32) (record : TurnRecord) (metadata : Option ContextMetadata) :
    turnIds (appendEvents contextId declaredTypeId declaredTypeVersion record metadata) =
      [record.turnId] := by
  have hmeta : turnIds (metadataEvents contextId metadata) = [] := by
    refine turnIds_eq_nil fun e he => ?_
    unfold metadataEvents at he
    split at he
    · cases he
    · rcases List.mem_cons.mp he with rfl | he
      · rfl
      · split at he
        · cases he
        · obtain ⟨_, -, rfl⟩ := List.mem_map.mp he
          rfl
  exact congrArg (record.turnId :: ·) hmeta

/-- The turns of the events that the HTTP thread has still to publish. -/
def Server.pending (m : Server) : List UInt64 := m.http.elim [] fun r => turnIds r.toPublish

/-! ### The ids that calls take -/

/-- The next id stays, or moves by one. -/
def Moves (s s' : TurnStore) : Prop :=
  s'.nextTurnId = s.nextTurnId ∨ s'.nextTurnId = s.nextTurnId + 1

/-- An append request takes the next id for its turn. -/
theorem AppendTurnRequest.Outcome.takes {req : AppendTurnRequest} {now : UInt64}
    {s s' : Store} {fault : Option (Fault DataFile)}
    {x : Except StoreError (TurnRecord × Option ContextMetadata)}
    (h : req.Outcome k now s fault x s') :
    Moves s.stores.turnStore s'.stores.turnStore ∧
      ∀ r, x = .ok r → r.1.turnId = s.stores.turnStore.nextTurnId ∧
        s'.stores.turnStore.nextTurnId = s.stores.turnStore.nextTurnId + 1 := by
  cases h with
  | stopped hreach hturns hroots =>
      exact ⟨Or.inl (congrArg TurnStore.nextTurnId hturns :), by simp⟩
  | @cut stores p len f hreach hfault hfile hparent hturns hroots =>
      have hnext : stores.turnStore.nextTurnId = s.stores.turnStore.nextTurnId + 1 := by
        rw [hturns, after_nextTurnId]
        rfl
      exact ⟨Or.inr hnext, by simp⟩
  | @unattached e stores p len raw hreach hspares hready hraw hparent hturns hroots =>
      have hnext : stores.turnStore.nextTurnId = s.stores.turnStore.nextTurnId + 1 := by
        rw [hturns, after_nextTurnId]
        rfl
      exact ⟨Or.inr hnext, by simp⟩
  | @appended stores p len raw hreach hspares hready hraw hparent hturns =>
      have hnext : stores.turnStore.nextTurnId = s.stores.turnStore.nextTurnId + 1 := by
        rw [hturns, after_nextTurnId]
        rfl
      refine ⟨Or.inr hnext, ?_⟩
      rintro _ ⟨⟩
      exact ⟨rfl, hnext⟩

/-- So does an append of the store. -/
theorem Store.appendTurn_takes {r : AppendRequest} {now : UInt64} {s s' : Store}
    {d d' : DataDir} {fault : Option (Fault DataFile)}
    {x : Except StoreError (TurnRecord × Option ContextMetadata)}
    (h : runCall (Store.appendTurn k r now) s d fault = (x, s', d')) :
    Moves s.stores.turnStore s'.stores.turnStore ∧
      ∀ r, x = .ok r → r.1.turnId = s.stores.turnStore.nextTurnId ∧
        s'.stores.turnStore.nextTurnId = s.stores.turnStore.nextTurnId + 1 :=
  (Store.appendTurn_asRequest h).takes

/-- The call appends a turn. -/
def HttpCall.appends : HttpCall → Bool
  | .appendTurn .. => true
  | _ => false

/-- What an HTTP call does to the ids and to what it has to publish. -/
theorem Shared.http_takes (call : HttpCall) (now : UInt64) (fault : Option (Fault DataFile))
    (sh : Shared) :
    let r := sh.http k call now fault
    r.2.events = sh.events ∧
      (r.2.store.stores.turnStore.nextTurnId = sh.store.stores.turnStore.nextTurnId ∨
        call.appends = true ∧
          Moves sh.store.stores.turnStore r.2.store.stores.turnStore) ∧
      ((turnIds r.1.toPublish = [] ∧ r.1.turnId = none) ∨
        (turnIds r.1.toPublish = [sh.store.stores.turnStore.nextTurnId] ∧
          r.1.turnId = some sh.store.stores.turnStore.nextTurnId ∧
          r.2.store.stores.turnStore.nextTurnId = sh.store.stores.turnStore.nextTurnId + 1)) := by
  have herror : ∀ e, turnIds (httpError k now e).toPublish = [] := fun e =>
    turnIds_eq_nil (by simp [httpError, BusEvent.turnId])
  have hcontext : ∀ base clientTag,
      let r := sh.httpContext k (Stores.createContext base now) clientTag now fault
      r.2.events = sh.events ∧
        r.2.store.stores.turnStore.nextTurnId = sh.store.stores.turnStore.nextTurnId ∧
        turnIds r.1.toPublish = [] ∧ r.1.turnId = none := by
    intro base clientTag
    unfold Shared.httpContext Shared.call
    dsimp only
    rw [onStores_run]
    rcases hrun : runCall (Stores.createContext base now) sh.store.stores sh.disk fault with
      ⟨e | head, s', d'⟩
    · exact ⟨rfl, (Stores.createContext_takes hrun).1, herror e, rfl⟩
    · exact ⟨rfl, (Stores.createContext_takes hrun).1, rfl, rfl⟩
  cases call with
  | createContext base clientTag =>
      obtain ⟨hevents, hmoves, hids⟩ := hcontext base clientTag
      exact ⟨hevents, Or.inl hmoves, Or.inl hids⟩
  | forkContext base clientTag =>
      obtain ⟨hevents, hmoves, hids⟩ := hcontext base clientTag
      exact ⟨hevents, Or.inl hmoves, Or.inl hids⟩
  | appendTurn contextId parentTurnId typeId typeVersion payloadBytes =>
      unfold Shared.http Shared.call
      dsimp only
      rcases hrun : runCall (Store.appendTurn k
        (httpAppendRequest k contextId parentTurnId typeId typeVersion payloadBytes) now)
        sh.store sh.disk fault with ⟨e | ⟨record, metadata⟩, s', d'⟩
      · exact ⟨rfl, Or.inr ⟨rfl, (Store.appendTurn_takes hrun).1⟩, Or.inl ⟨herror e, rfl⟩⟩
      · obtain ⟨hmoves, hok⟩ := Store.appendTurn_takes hrun
        obtain ⟨hid, hnext⟩ := hok _ rfl
        dsimp only at hid
        refine ⟨rfl, Or.inr ⟨rfl, hmoves⟩, Or.inr ⟨?_, congrArg some hid, hnext⟩⟩
        dsimp only
        rw [turnIds_appendEvents, hid]
  | getContext contextId =>
      refine ⟨rfl, Or.inl ?_, Or.inl ⟨rfl, rfl⟩⟩
      simp only [Shared.http, Store.getContextMetadata]
      split <;> rfl

/-! ### Order -/

/-- The step publishes in order: an append of a connection that will be acknowledged finds
no event of a turn that is still to be published. And an append finds an id to take. -/
def Server.PublishesInOrder (k : Crates) (m : Server) : ServerEvent → Prop
  | .request _ frame now fault _ =>
      frame.header.msgType = MsgType.appendTurn.toU16 →
        m.shared.store.stores.turnStore.nextTurnId.toNat + 1 < 2 ^ 64 ∧
          ((m.arrival frame now fault).Answered k → m.pending = [])
  | .http call _ _ =>
      call.appends = true → m.shared.store.stores.turnStore.nextTurnId.toNat + 1 < 2 ^ 64
  | _ => True

/-- The turns that are or will be published, in this order, are in the order of their ids,
and the acknowledged ones are published. -/
structure Server.Ordered (m : Server) : Prop where
  increasing : (turnIds m.shared.events ++ m.pending).Pairwise (· < ·)
  below : ∀ id ∈ turnIds m.shared.events ++ m.pending,
    id < m.shared.store.stores.turnStore.nextTurnId
  acked : ∀ id ∈ m.acks, id ∈ turnIds m.shared.events
  reply : ∀ r ∈ m.http, ∀ id ∈ r.turnId, id ∈ turnIds m.shared.events ++ m.pending

theorem lt_next {x y : UInt64} (h : y.toNat + 1 < 2 ^ 64) (hxy : x ≤ y) : x < y + 1 := by
  rw [UInt64.lt_iff_toNat_lt, toNat_add_one h]
  exact Nat.lt_succ_of_le (UInt64.le_iff_toNat_le.mp hxy)

/-- One more id, the next one. -/
theorem pairwise_append_next {ids : List UInt64} {next : UInt64}
    (h : ids.Pairwise (· < ·)) (hbelow : ∀ id ∈ ids, id < next) :
    (ids ++ [next]).Pairwise (· < ·) :=
  List.pairwise_append.mpr ⟨h, List.pairwise_singleton _ _, by simpa using hbelow⟩

namespace Server.Ordered

variable {m m' : Server}

/-- A step adds nothing to the turns that are or will be published, or the next one. -/
theorem extend (h : m.Ordered) {next : UInt64}
    (hnext : m.shared.store.stores.turnStore.nextTurnId = next)
    (hids : (turnIds m'.shared.events ++ m'.pending = turnIds m.shared.events ++ m.pending ∧
        m'.shared.store.stores.turnStore.nextTurnId = next) ∨
      ((turnIds m'.shared.events ++ m'.pending = turnIds m.shared.events ++ m.pending ∨
          turnIds m'.shared.events ++ m'.pending =
            turnIds m.shared.events ++ m.pending ++ [next]) ∧
        m'.shared.store.stores.turnStore.nextTurnId = next + 1 ∧ next.toNat + 1 < 2 ^ 64))
    (hacked : ∀ id ∈ m'.acks, id ∈ turnIds m'.shared.events)
    (hreply : ∀ r ∈ m'.http, ∀ id ∈ r.turnId, id ∈ turnIds m'.shared.events ++ m'.pending) :
    m'.Ordered := by
  have hbelow := h.below
  rw [hnext] at hbelow
  rcases hids with ⟨hids, hnext'⟩ | ⟨hids | hids, hnext', hroom⟩
  · refine ⟨hids ▸ h.increasing, ?_, hacked, hreply⟩
    rw [hids, hnext']
    exact hbelow
  · refine ⟨hids ▸ h.increasing, ?_, hacked, hreply⟩
    rw [hids, hnext']
    exact fun id hid => lt_next hroom (UInt64.le_of_lt (hbelow id hid))
  · refine ⟨hids ▸ pairwise_append_next h.increasing hbelow, ?_, hacked, hreply⟩
    rw [hids, hnext']
    intro id hid
    rcases List.mem_append.mp hid with hid | hid
    · exact lt_next hroom (UInt64.le_of_lt (hbelow id hid))
    · rw [List.mem_singleton.mp hid]
      exact lt_next hroom (UInt64.le_refl _)

/-- A step that publishes no event of a turn. -/
theorem unchanged (h : m.Ordered) (hevents : turnIds m'.shared.events = turnIds m.shared.events)
    (hhttp : m'.http = m.http) (hacks : m'.acks = m.acks)
    (hmoves : Moves m.shared.store.stores.turnStore m'.shared.store.stores.turnStore)
    (hroom : m'.shared.store.stores.turnStore.nextTurnId ≠
        m.shared.store.stores.turnStore.nextTurnId →
      m.shared.store.stores.turnStore.nextTurnId.toNat + 1 < 2 ^ 64) : m'.Ordered := by
  have hpending : m'.pending = m.pending := congrArg (Option.elim · [] _) hhttp
  have hids : turnIds m'.shared.events ++ m'.pending =
      turnIds m.shared.events ++ m.pending := by
    rw [hevents, hpending]
  refine h.extend rfl ?_ ?_ ?_
  · by_cases heq : m'.shared.store.stores.turnStore.nextTurnId =
      m.shared.store.stores.turnStore.nextTurnId
    · exact Or.inl ⟨hids, heq⟩
    · exact Or.inr ⟨Or.inl hids, hmoves.resolve_left heq, hroom heq⟩
  · rw [hevents, hacks]
    exact h.acked
  · rw [hids, hhttp]
    exact h.reply

theorem request (h : m.Ordered) {id : UInt64} {frame : Frame} {now : UInt64}
    {fault : Option (Fault DataFile)} {written : Bool} {σ : Session}
    (hin : m.PublishesInOrder k (.request id frame now fault written)) :
    (m.serve k id σ (m.arrival frame now fault) written).Ordered := by
  have hpass := handleFrame_pass (k := k) σ (m.arrival frame now fault)
  have hack := ackOf_eq_none (k := k) (σ := σ) (a := m.arrival frame now fault)
  have hanswered := handleFrame_isOk (k := k) σ (m.arrival frame now fault)
  unfold Server.serve
  rcases hframe : handleFrame k σ (m.arrival frame now fault) with ⟨reply, σ', sh⟩
  rw [hframe] at hpass hack hanswered
  dsimp only at hpass hack hanswered ⊢
  -- A request that publishes no event of a turn gets no append ack.
  have hquiet : turnIds sh.events = turnIds m.shared.events → ackOf reply written = none →
      Moves m.shared.store.stores.turnStore sh.store.stores.turnStore →
      (sh.store.stores.turnStore.nextTurnId ≠ m.shared.store.stores.turnStore.nextTurnId →
        m.shared.store.stores.turnStore.nextTurnId.toNat + 1 < 2 ^ 64) →
      ∀ connections appends, Server.Ordered
        { m with shared := sh, connections, appends
                 acks := m.acks ++ (ackOf reply written).toList } := by
    intro hevents hnone hmoves hroom connections appends
    exact h.unchanged hevents rfl (by rw [hnone]; exact List.append_nil _) hmoves hroom
  have hother : ∀ {t : MsgType}, frame.header.msgType = t.toU16 → t ≠ .appendTurn →
      ackOf reply written = none := by
    intro t ht hne
    refine hack (fun happend => ?_) written
    exact hne (MsgType.toU16_inj (ht.symm.trans happend))
  cases hpass with
  | plain hturns htracker hevents herrors happend =>
      refine hquiet ?_ ?_ (Or.inl (congrArg _ hturns)) (fun hne => absurd (congrArg _ hturns) hne)
        _ _
      · rw [hevents, turnIds_append, turnIds_eq_nil fun e he => (herrors e he).turnId]
        exact List.append_nil _
      · by_cases hmsg : frame.header.msgType = MsgType.appendTurn.toU16
        · obtain ⟨e, -, rfl⟩ := happend hmsg
          cases written <;> rfl
        · exact hack hmsg written
  | hello hmsg hparse hfirst hstore htracker hevents =>
      have hturns := congrArg (fun s : Store => s.stores.turnStore.nextTurnId) hstore
      refine hquiet ?_ (hother hmsg (by decide)) (Or.inl hturns) (fun hne => absurd hturns hne) _ _
      rw [hevents, turnIds_append]
      exact List.append_nil _
  | @noContext e sh hmsg hturns htracker hevents =>
      obtain ⟨n, hturns⟩ := hturns
      have hnext : sh.store.stores.turnStore.nextTurnId =
          m.shared.store.stores.turnStore.nextTurnId := by
        rw [hturns]
        rfl
      refine hquiet (congrArg turnIds hevents) ?_ (Or.inl hnext) (fun hne => absurd hnext hne) _ _
      exact hmsg.elim (hother · (by decide)) (hother · (by decide))
  | @context reply sh head hmsg hid hturns htracker hevents =>
      have hnext : sh.store.stores.turnStore.nextTurnId =
          m.shared.store.stores.turnStore.nextTurnId := by
        rw [hturns]
        rfl
      refine hquiet ?_ ?_ (Or.inl hnext) (fun hne => absurd hnext hne) _ _
      · rw [hevents, turnIds_append]
        exact List.append_nil _
      · exact hmsg.elim (hother · (by decide)) (hother · (by decide))
  | @appendTurn req sh x hmsg hparse houtcome htracker hevents =>
      obtain ⟨hmoves, hok⟩ := houtcome.takes
      obtain ⟨hroom, hpending⟩ := hin hmsg
      obtain e | r := x
      · refine hquiet ?_ (by rw [ackOf_appendReply]; cases written <;> rfl) hmoves
          (fun _ => hroom) _ _
        exact congrArg turnIds (hevents.trans (List.append_nil _))
      · have hid : r.1.turnId = m.shared.store.stores.turnStore.nextTurnId := (hok r rfl).1
        have hnext := (hok r rfl).2
        have hnone : m.pending = [] := hpending (hanswered.mp ⟨_, rfl⟩)
        have hids : turnIds sh.events =
            turnIds m.shared.events ++ [m.shared.store.stores.turnStore.nextTurnId] := by
          rw [hevents, turnIds_append]
          exact congrArg (_ ++ ·) ((turnIds_appendEvents ..).trans (congrArg (fun id => [id]) hid))
        have hreply := h.reply
        rw [hnone, List.append_nil] at hreply
        have hids' : turnIds sh.events ++ m.pending = turnIds m.shared.events ++ m.pending ++
            [m.shared.store.stores.turnStore.nextTurnId] := by
          rw [hnone, hids, List.append_nil, List.append_nil]
        refine h.extend rfl (Or.inr ⟨Or.inr hids', hnext, hroom⟩) ?_ ?_
        · intro id hmem
          rw [hids]
          rcases List.mem_append.mp hmem with hmem | hmem
          · exact List.mem_append_left _ (h.acked id hmem)
          · rw [ackOf_appendReply] at hmem
            cases written with
            | false => cases hmem
            | true =>
                refine List.mem_append_right _ ?_
                rwa [← hid]
        · intro r' hr' id hmem
          rw [hids]
          exact List.mem_append_left _ (List.mem_append_left _ (hreply r' hr' id hmem))

/-- **Every step keeps the order**, if it publishes in order. -/
theorem exec (h : m.Ordered) {e : ServerEvent} (hin : m.PublishesInOrder k e)
    (he : m.exec k e = some m') : m'.Ordered := by
  cases e with
  | connect peerAddr =>
      rw [Server.exec] at he
      obtain rfl := Option.some.inj he
      exact h.unchanged rfl rfl rfl (Or.inl rfl) (fun hne => absurd rfl hne)
  | request id frame now fault written =>
      rw [Server.exec] at he
      obtain ⟨σ, -, rfl⟩ := Option.map_eq_some_iff.mp he
      exact h.request hin
  | hangUp id reason =>
      rw [Server.exec] at he
      obtain ⟨σ, -, rfl⟩ := Option.map_eq_some_iff.mp he
      unfold Server.close
      dsimp only
      split
      · exact h.unchanged rfl rfl rfl (Or.inl rfl) (fun hne => absurd rfl hne)
      · refine h.unchanged ?_ rfl rfl (Or.inl rfl) (fun hne => absurd rfl hne)
        exact (turnIds_append _ _).trans (List.append_nil _)
  | http call now fault =>
      rw [Server.exec] at he
      split at he
      · cases he
      next hidle =>
      have htakes := m.shared.http_takes (k := k) call now fault
      rcases hr : m.shared.http k call now fault with ⟨r, sh⟩
      rw [hr] at he htakes
      obtain ⟨hevents, hmoves, hids⟩ := htakes
      dsimp only at hevents hmoves hids
      obtain rfl := Option.some.inj he
      have hpending : m.pending = [] := by rw [Server.pending, hidle]; rfl
      have hevents' : turnIds sh.events =
          turnIds m.shared.events ++ m.pending := by
        rw [hevents, hpending, List.append_nil]
      have hacked : ∀ id ∈ m.acks, id ∈ turnIds sh.events := by
        rw [hevents]
        exact h.acked
      rcases hids with ⟨hnone, hturn⟩ | ⟨hone, hturn, hnext⟩
      · have hids : turnIds sh.events ++
            turnIds r.toPublish =
              turnIds m.shared.events ++ m.pending := by
          rw [hnone, List.append_nil, hevents']
        refine h.extend rfl ?_ hacked ?_
        · rcases hmoves with hnext | ⟨happends, hnext | hnext⟩
          · exact Or.inl ⟨hids, hnext⟩
          · exact Or.inl ⟨hids, hnext⟩
          · exact Or.inr ⟨Or.inl hids, hnext, hin happends⟩
        · rintro _ ⟨⟩ id hid
          rw [hturn] at hid
          cases hid
      · have hids : turnIds sh.events ++
            turnIds r.toPublish =
              turnIds m.shared.events ++ m.pending ++
                [m.shared.store.stores.turnStore.nextTurnId] := by
          rw [hone, hevents']
        have happends : call.appends = true := by
          rcases hmoves with hsame | ⟨happends, -⟩
          · rw [hnext] at hsame
            exact absurd hsame (by simp)
          · exact happends
        refine h.extend rfl (Or.inr ⟨Or.inr hids, hnext, hin happends⟩) hacked ?_
        rintro _ ⟨⟩ id hid
        rw [hturn] at hid
        obtain rfl := Option.some.inj hid
        exact hids.symm ▸ List.mem_append_right _ (List.mem_singleton_self _)
  | publish =>
      rw [Server.exec] at he
      split at he
      next e es turnId hhttp =>
        obtain rfl := Option.some.inj he
        have hids : turnIds (m.shared.publish [e]).events ++ turnIds es =
            turnIds m.shared.events ++ m.pending := by
          rw [Server.pending, hhttp, Shared.publish, turnIds_append, List.append_assoc,
            ← turnIds_append]
          rfl
        refine h.extend rfl (Or.inl ⟨hids, rfl⟩) ?_ ?_
        · intro id hid
          exact (turnIds_append _ _).symm ▸ List.mem_append_left _ (h.acked id hid)
        · rintro _ ⟨⟩ id hid
          exact hids.symm ▸ h.reply _ hhttp id hid
      · cases he
  | httpRespond =>
      rw [Server.exec] at he
      split at he
      next turnId hhttp =>
        obtain rfl := Option.some.inj he
        have hpending : m.pending = [] := by rw [Server.pending, hhttp]; rfl
        refine h.extend rfl (Or.inl ⟨congrArg (_ ++ ·) hpending.symm, rfl⟩) ?_ (by simp)
        intro id hid
        rcases List.mem_append.mp hid with hid | hid
        · exact h.acked id hid
        · have := h.reply _ hhttp id (Option.mem_toList.mp hid)
          rwa [hpending, List.append_nil] at this
      · cases he

end Server.Ordered

/-! ### Runs -/

/-- **Events in the order of the turns**, in every run whose steps publish in order: the
events of the turns have increasing turn ids, and every acknowledged turn has one. -/
theorem turn_events_ordered {store : Store} {disk : DataDir} {es : List ServerEvent}
    {m : Server}
    (hrun : Run (Guarded (Server.PublishesInOrder k) (Steps (Server.exec k)))
      (Server.opened store disk) es m) :
    (turnIds m.shared.events).Pairwise (· < ·) ∧
      ∀ id ∈ m.acks, (turnIds m.shared.events).count id = 1 := by
  have hordered : m.Ordered := by
    refine hrun.invariant (I := fun _ m => m.Ordered) ?_ fun _ _ _ _ hi hs => hi.exec hs.1 hs.2
    exact ⟨List.Pairwise.nil, by simp [turnIds, Server.opened, Server.pending],
      by simp [Server.opened], by simp [Server.opened]⟩
  have hincreasing : (turnIds m.shared.events).Pairwise (· < ·) :=
    (List.pairwise_append.mp hordered.increasing).1
  have hnodup : (turnIds m.shared.events).Nodup :=
    hincreasing.imp fun hlt => UInt64.ne_of_lt hlt
  exact ⟨hincreasing, fun id hid => List.count_eq_one_of_mem hnodup (hordered.acked id hid)⟩

/-- An append of the empty payload by a connection. -/
def plainAppendFrame (contextId reqId : UInt64) (idempotencyKey : Bytes) : Frame :=
  Frame.make MsgType.appendTurn.toU16 0 reqId
    ({ contextId, parentTurnId := 0, declaredTypeId := "", declaredTypeVersion := 1,
       encoding := 1, compression := 0, uncompressedLen := 0, contentHash := emptyHash,
       payloadBytes := [], idempotencyKey, fsRootHash := none } : AppendTurnRequest).encode

/-- A connection creates a context. -/
def firstContext : List ServerEvent :=
  [.connect "", .request 1 (Frame.make MsgType.ctxCreate.toU16 0 1 (u64Bytes 0)) 0 none true]

/-- An append over HTTP publishes its events before the connection appends. -/
def appendsInTurn : List ServerEvent :=
  firstContext ++ [.http (.appendTurn 1 0 "" 1 nilPayload) 1 none, .publish, .httpRespond,
    .request 1 (plainAppendFrame 1 2 []) 2 none true]

/-- The connection appends when the append over HTTP has given back the lock, and has not
published yet. -/
def appendInBetween : List ServerEvent :=
  firstContext ++ [.http (.appendTurn 1 0 "" 1 nilPayload) 1 none,
    .request 1 (plainAppendFrame 1 2 []) 2 none true, .publish, .httpRespond]

/-- A request of a connection. -/
def ServerEvent.isRequest : ServerEvent → Bool
  | .request .. => true
  | _ => false

/-- No request comes while an event of a turn is to be published. -/
def Server.PublishesAlone (m : Server) (e : ServerEvent) : Prop :=
  (e.isRequest = true → m.pending = []) ∧
    m.shared.store.stores.turnStore.nextTurnId.toNat + 1 < 2 ^ 64

instance (m : Server) (e : ServerEvent) : Decidable (m.PublishesAlone e) :=
  inferInstanceAs (Decidable (_ ∧ _))

theorem Server.PublishesAlone.inOrder {m : Server} {e : ServerEvent} (h : m.PublishesAlone e) :
    m.PublishesInOrder k e := by
  cases e with
  | request => exact fun _ => ⟨h.2, fun _ => h.1 rfl⟩
  | http => exact fun _ => h.2
  | _ => trivial

set_option maxRecDepth 4000 in
/-- `turn_events_ordered` over an append of each kind. -/
theorem turn_events_ordered_appendsInTurn :
    ∃ m : Server, m.acks = [1, 2] ∧ (turnIds m.shared.events).Pairwise (· < ·) ∧
      ∀ id ∈ m.acks, (turnIds m.shared.events).count id = 1 := by
  obtain ⟨m, hrun, hacks⟩ := exists_run_of_foldlM
    Server.PublishesAlone (Server.exec .plain) (Server.opened Store.empty fun _ => [])
    appendsInTurn (fun m => m.acks = [1, 2]) (by decide)
  have hordered : Run (Guarded (Server.PublishesInOrder .plain) (Steps (Server.exec .plain)))
      (Server.opened Store.empty fun _ => []) appendsInTurn m :=
    hrun.mono fun _ _ _ hs => ⟨hs.1.inOrder, hs.2⟩
  exact ⟨m, hacks, turn_events_ordered hordered⟩

set_option maxRecDepth 4000 in
/-- **Events out of order**: turn 2 is published before turn 1. -/
theorem turn_events_reordered :
    ∃ m, Run (Steps (Server.exec .plain)) (Server.opened Store.empty fun _ => [])
        appendInBetween m ∧
      turnIds m.shared.events = [2, 1] ∧ ¬(turnIds m.shared.events).Pairwise (· < ·) := by
  obtain ⟨m, hrun, hids⟩ := exists_run_of_foldlM (fun _ _ => True) (Server.exec .plain)
    (Server.opened Store.empty fun _ => []) appendInBetween
    (fun m => turnIds m.shared.events = [2, 1]) (by decide)
  exact ⟨m, hrun.of_guarded, hids, by rw [hids]; decide⟩

end Cxdb
