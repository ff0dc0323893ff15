import Cxdb.AppendAtomicity

/-!
# One Response for a Request

When the arms of the handler answer, and the loop of the handler over the bytes that a
connection sends. Parse failures, and failures of the store in `CtxCreate`, `CtxFork`,
`AppendTurn`, `AttachFs` and `GetLast`, leave the loop with `?`; the other failures are
reported. `Arrival.Answered` is the condition under which no arm leaves.

Other connections may change what is shared between two requests of this one, so each
request comes with the shared state that it finds.

## Main results

* `handleFrame_isOk`: a pass of the loop gives a response exactly when the request is
  `Answered`.
* `one_response_per_request`: a connection gets one response for each of its requests, in
  order, and is served on, exactly when all of them are `Answered`.
-/

open ByteFormat FaultyDisk

namespace Cxdb

variable {k : Crates}

/-! ### When an arm answers -/

/-- The arm gives a response. -/
def Served.answers : Served → Bool
  | .response _ => true
  | .leaves _ => false

theorem serveHello_answers (σ : Session) (sh : Shared) (now : UInt64) (payload : Bytes) :
    (serveHello σ sh now payload).1.answers = true ↔ ∃ hello, parseHello payload = .ok hello := by
  unfold serveHello
  cases parseHello payload with
  | error e => simp [Served.answers]
  | ok hello =>
      dsimp only
      split <;> simp [Served.answers]

@[simp] theorem ensureRegistered_store (σ : Session) (sh : Shared) (now : UInt64) :
    (ensureRegistered σ sh now).2.store = sh.store ∧
      (ensureRegistered σ sh now).2.disk = sh.disk := by
  unfold ensureRegistered
  split <;> exact ⟨rfl, rfl⟩

/-- `CtxCreate` and `CtxFork` answer when the payload holds a base turn that is there, and
`heads.tbl` can be written. -/
theorem serveContext_answers (msgType : MsgType) (σ : Session) (sh : Shared) (now : UInt64)
    (fault : Option (Fault DataFile)) (payload : Bytes) :
    (serveContext msgType (fun base => Stores.createContext base now) σ sh now fault
        payload).1.answers = true ↔
      ∃ base, parseCtxCreate payload = .ok base ∧
        (∃ b, sh.store.stores.turnStore.baseOf base = .ok b) ∧ Spares fault [.headsTbl] := by
  unfold serveContext
  obtain ⟨hstore, hdisk⟩ := ensureRegistered_store σ sh now
  rcases hreg : ensureRegistered σ sh now with ⟨σ', sh'⟩
  rw [hreg] at hstore hdisk
  dsimp only at hstore hdisk ⊢
  cases hparse : parseCtxCreate payload with
  | error e => simp [Served.answers]
  | ok base =>
      have hok := Stores.createContext_isOk base now sh.store.stores sh.disk fault
      dsimp only [Shared.call]
      rw [onStores_run, hstore, hdisk]
      simp only [Except.ok.injEq, exists_eq_left', ← hok]
      cases (runCall (Stores.createContext base now) sh.store.stores sh.disk fault).1 <;>
        simp [Served.answers]

theorem serveGetHead_answers (σ : Session) (sh : Shared) (payload : Bytes) :
    (serveGetHead σ sh payload).1.answers = true ↔ ∃ id, parseGetHead payload = .ok id := by
  unfold serveGetHead
  cases parseGetHead payload <;> simp [Served.answers]


theorem serveAppendTurn_answers (σ : Session) (sh : Shared) (now : UInt64)
    (fault : Option (Fault DataFile)) (payload : Bytes) (flags : UInt16) :
    (serveAppendTurn k σ sh now fault payload flags).1.answers = true ↔
      ∃ req, parseAppendTurn payload flags = .ok req ∧
        req.Reaches k.zstd k.blake3 sh.store.stores fault ∧ Spares fault turnFiles ∧
          req.FsReady sh.store.stores fault := by
  unfold serveAppendTurn
  cases hparse : parseAppendTurn payload flags with
  | error e => simp [Served.answers]
  | ok req =>
      have hok := appendWithFs_isOk (k := k) req now sh.store sh.disk fault
      dsimp only [Shared.call]
      simp only [Except.ok.injEq, exists_eq_left', ← hok]
      cases (runCall (appendWithFs k req now) sh.store sh.disk fault).1 <;>
        simp [Served.answers]

theorem serveAttachFs_answers (σ : Session) (sh : Shared) (fault : Option (Fault DataFile))
    (payload : Bytes) :
    (serveAttachFs σ sh fault payload).1.answers = true ↔
      ∃ req, parseAttachFs payload = .ok req ∧ req.turnId ∈ sh.store.stores.turnStore.turns ∧
        req.fsRootHash ∈ sh.store.stores.blobStore.index ∧ rootStop fault = none := by
  unfold serveAttachFs
  cases hparse : parseAttachFs payload with
  | error e => simp [Served.answers]
  | ok req =>
      have hok := Stores.attachFs_isOk req.turnId req.fsRootHash sh.store.stores sh.disk fault
      dsimp only [Shared.call]
      rw [onStores_run]
      simp only [Except.ok.injEq, exists_eq_left', ← hok]
      cases (runCall (Stores.attachFs req.turnId req.fsRootHash) sh.store.stores sh.disk
        fault).1 <;> simp [Served.answers]

/-- A put with a wrong hash is reported. -/
theorem servePutBlob_answers (σ : Session) (sh : Shared) (fault : Option (Fault DataFile))
    (payload : Bytes) :
    (servePutBlob k σ sh fault payload).1.answers = true ↔
      ∃ req, parsePutBlob payload = .ok req ∧ (k.blake3 req.data = req.hash →
        req.hash ∈ sh.store.stores.blobStore.index ∨ putStop fault = none) := by
  unfold servePutBlob
  cases hparse : parsePutBlob payload with
  | error e => simp [Served.answers]
  | ok req =>
      by_cases hhash : k.blake3 req.data = req.hash
      · have hok := putIfAbsent_isOk k.zstd req.hash req.data sh.store.stores.blobStore sh.disk
          fault
        dsimp only [Shared.call]
        rw [if_neg (not_not.mpr hhash), onStores_run, onBlobs, runCall_zoom]
        simp only [Except.ok.injEq, exists_eq_left', hhash, true_imp_iff, ← hok]
        cases (runCall (putIfAbsent k.zstd req.hash req.data) sh.store.stores.blobStore sh.disk
          fault).1 <;> simp [Served.answers]
      · simp [hhash, Served.answers]

theorem serveGetLast_answers (σ : Session) (sh : Shared) (payload : Bytes) :
    (serveGetLast k σ sh payload).1.answers = true ↔
      ∃ req, parseGetLast payload = .ok req ∧
        ∃ items, sh.store.stores.getLast k.zstd (sh.disk .blobsPack) req.contextId req.limit
          (req.includePayload != 0) = .ok items := by
  unfold serveGetLast
  cases hparse : parseGetLast payload with
  | error e => simp [Served.answers]
  | ok req =>
      simp only [Except.ok.injEq, exists_eq_left']
      cases sh.store.stores.getLast k.zstd (sh.disk .blobsPack) req.contextId req.limit
        (req.includePayload != 0) <;> simp [Served.answers]

theorem serveGetBlob_answers (σ : Session) (sh : Shared) (payload : Bytes) :
    (serveGetBlob k σ sh payload).1.answers = true ↔
      ∃ hash, parseGetBlob payload = .ok hash := by
  unfold serveGetBlob
  cases parseGetBlob payload <;> simp [Served.answers]

/-! ### When a request is answered -/

/-- The failures that the arm of a request leaves the handler with do not occur. The other
failures are reported. -/
structure Arrival.Answered (k : Crates) (a : Arrival) : Prop where
  hello : a.frame.header.msgType = MsgType.hello.toU16 →
    ∃ hello, parseHello a.frame.payload = .ok hello
  context : a.frame.header.msgType = MsgType.ctxCreate.toU16 ∨
      a.frame.header.msgType = MsgType.ctxFork.toU16 →
    ∃ base, parseCtxCreate a.frame.payload = .ok base ∧
      (∃ b, a.shared.store.stores.turnStore.baseOf base = .ok b) ∧ Spares a.fault [.headsTbl]
  getHead : a.frame.header.msgType = MsgType.getHead.toU16 →
    ∃ id, parseGetHead a.frame.payload = .ok id
  appendTurn : a.frame.header.msgType = MsgType.appendTurn.toU16 →
    ∃ req, parseAppendTurn a.frame.payload a.frame.header.flags = .ok req ∧
      req.Reaches k.zstd k.blake3 a.shared.store.stores a.fault ∧ Spares a.fault turnFiles ∧
        req.FsReady a.shared.store.stores a.fault
  attachFs : a.frame.header.msgType = MsgType.attachFs.toU16 →
    ∃ req, parseAttachFs a.frame.payload = .ok req ∧
      req.turnId ∈ a.shared.store.stores.turnStore.turns ∧
        req.fsRootHash ∈ a.shared.store.stores.blobStore.index ∧ rootStop a.fault = none
  putBlob : a.frame.header.msgType = MsgType.putBlob.toU16 →
    ∃ req, parsePutBlob a.frame.payload = .ok req ∧ (k.blake3 req.data = req.hash →
      req.hash ∈ a.shared.store.stores.blobStore.index ∨ putStop a.fault = none)
  getLast : a.frame.header.msgType = MsgType.getLast.toU16 →
    ∃ req, parseGetLast a.frame.payload = .ok req ∧
      ∃ items, a.shared.store.stores.getLast k.zstd (a.shared.disk .blobsPack) req.contextId
        req.limit (req.includePayload != 0) = .ok items
  getBlob : a.frame.header.msgType = MsgType.getBlob.toU16 →
    ∃ hash, parseGetBlob a.frame.payload = .ok hash

/-- What the arm of a request gives. -/
def Arrival.served (k : Crates) (σ : Session) (a : Arrival) : Served :=
  (serveRequest k σ (a.active σ) a.now a.fault a.frame).1

theorem Arrival.answered_iff (σ : Session) (a : Arrival) :
    a.Answered k ↔ (a.served k σ).answers = true := by
  unfold Arrival.served serveRequest
  dsimp only
  split
  next h =>
    rw [serveHello_answers]
    refine ⟨fun ha => ha.hello h, fun hp => ?_⟩
    constructor <;> intro h' <;> first | exact hp | (rw [h] at h'; exact absurd h' (by decide))
  split
  next h =>
    rw [serveCtxCreate, serveContext_answers]
    refine ⟨fun ha => ha.context (Or.inl h), fun hp => ?_⟩
    constructor <;> intro h' <;> first | exact hp | (rw [h] at h'; exact absurd h' (by decide))
  split
  next h =>
    refine Iff.trans ?_ (serveContext_answers .ctxFork σ (a.active σ) a.now a.fault
      a.frame.payload).symm
    refine ⟨fun ha => ha.context (Or.inr h), fun hp => ?_⟩
    constructor <;> intro h' <;> first | exact hp | (rw [h] at h'; exact absurd h' (by decide))
  split
  next h =>
    rw [serveGetHead_answers]
    refine ⟨fun ha => ha.getHead h, fun hp => ?_⟩
    constructor <;> intro h' <;> first | exact hp | (rw [h] at h'; exact absurd h' (by decide))
  split
  next h =>
    rw [serveAppendTurn_answers]
    refine ⟨fun ha => ha.appendTurn h, fun hp => ?_⟩
    constructor <;> intro h' <;> first | exact hp | (rw [h] at h'; exact absurd h' (by decide))
  split
  next h =>
    rw [serveAttachFs_answers]
    refine ⟨fun ha => ha.attachFs h, fun hp => ?_⟩
    constructor <;> intro h' <;> first | exact hp | (rw [h] at h'; exact absurd h' (by decide))
  split
  next h =>
    rw [servePutBlob_answers]
    refine ⟨fun ha => ha.putBlob h, fun hp => ?_⟩
    constructor <;> intro h' <;> first | exact hp | (rw [h] at h'; exact absurd h' (by decide))
  split
  next h =>
    rw [serveGetLast_answers]
    refine ⟨fun ha => ha.getLast h, fun hp => ?_⟩
    constructor <;> intro h' <;> first | exact hp | (rw [h] at h'; exact absurd h' (by decide))
  split
  next h =>
    rw [serveGetBlob_answers]
    refine ⟨fun ha => ha.getBlob h, fun hp => ?_⟩
    constructor <;> intro h' <;> first | exact hp | (rw [h] at h'; exact absurd h' (by decide))
  · refine iff_of_true ?_ rfl
    constructor <;> intro h' <;> simp_all

/-! ### What a response says -/

/-- The request is carried out. -/
def Served.succeeds : Served → Bool
  | .response (.ok _) => true
  | _ => false

/-- Whether a request is carried out depends on the stores and not on the session. -/
theorem serveRequest_succeeds (σ σ' : Session) (store : Store) (disk : DataDir)
    (tracker tracker' : SessionTracker) (events : List BusEvent) (now : UInt64)
    (fault : Option (Fault DataFile)) (frame : Frame) :
    (serveRequest k σ ⟨store, disk, tracker, events⟩ now fault frame).1.succeeds =
      (serveRequest k σ' ⟨store, disk, tracker', events⟩ now fault frame).1.succeeds := by
  have hcontext : ∀ msgType create, (serveContext msgType create σ
        ⟨store, disk, tracker, events⟩ now fault frame.payload).1.succeeds =
      (serveContext msgType create σ' ⟨store, disk, tracker', events⟩ now fault
        frame.payload).1.succeeds := by
    intro msgType create
    have hreg : ∀ σ tracker, ∃ σ₁ tracker₁, ensureRegistered σ ⟨store, disk, tracker, events⟩ now =
        (σ₁, ⟨store, disk, tracker₁, events⟩) := by
      intro σ tracker
      unfold ensureRegistered
      split <;> exact ⟨_, _, rfl⟩
    obtain ⟨σ₁, tracker₁, h₁⟩ := hreg σ tracker
    obtain ⟨σ₂, tracker₂, h₂⟩ := hreg σ' tracker'
    unfold serveContext
    rw [h₁, h₂]
    cases parseCtxCreate frame.payload with
    | error e => rfl
    | ok base =>
        dsimp only [Shared.call]
        cases (runCall (onStores (create base)) store disk fault).1 <;> rfl
  unfold serveRequest
  dsimp only
  split_ifs
  · unfold serveHello
    cases parseHello frame.payload with
    | error e => rfl
    | ok hello =>
        dsimp only
        split <;> split <;> rfl
  · exact hcontext _ _
  · exact hcontext _ _
  · unfold serveGetHead
    cases parseGetHead frame.payload <;> rfl
  · unfold serveAppendTurn
    cases parseAppendTurn frame.payload frame.header.flags with
    | error e => rfl
    | ok req =>
        dsimp only [Shared.call]
        cases (runCall (appendWithFs k req now) store disk fault).1 <;> rfl
  · unfold serveAttachFs
    cases parseAttachFs frame.payload with
    | error e => rfl
    | ok req =>
        dsimp only [Shared.call]
        cases (runCall (onStores (Stores.attachFs req.turnId req.fsRootHash)) store disk
          fault).1 <;> rfl
  · unfold servePutBlob
    cases parsePutBlob frame.payload with
    | error e => rfl
    | ok req =>
        dsimp only [Shared.call]
        split
        · rfl
        · cases (runCall (onStores (onBlobs (putIfAbsent k.zstd req.hash req.data))) store disk
            fault).1 <;> rfl
  · unfold serveGetLast
    cases parseGetLast frame.payload with
    | error e => rfl
    | ok req =>
        dsimp only
        cases store.stores.getLast k.zstd (disk .blobsPack) req.contextId req.limit
          (req.includePayload != 0) <;> rfl
  · unfold serveGetBlob
    cases parseGetBlob frame.payload <;> rfl
  · rfl

/-- A request that is carried out is answered in its own type. -/
theorem serveRequest_msgType {σ : Session} {sh : Shared} {now : UInt64}
    {fault : Option (Fault DataFile)} {frame : Frame} {msgType : MsgType} {payload : Bytes}
    (h : (serveRequest k σ sh now fault frame).1 = .response (.ok (msgType, payload))) :
    msgType.toU16 = frame.header.msgType := by
  have hcontext : ∀ t create, (serveContext t create σ sh now fault frame.payload).1 =
      .response (.ok (msgType, payload)) → msgType = t := by
    intro t create h
    unfold serveContext at h
    dsimp only at h
    split at h
    · cases h
    · split at h
      · cases h
      · cases h
        rfl
  have hmap : ∀ {α : Type} {t : MsgType} (f : α → Bytes) (x : Except StoreError α),
      Served.response (x.map fun a => (t, f a)) = .response (.ok (msgType, payload)) →
        msgType.toU16 = t.toU16 := by
    intro α t f x h
    cases x <;> cases h
    rfl
  unfold serveRequest at h
  dsimp only at h
  split at h
  next hm =>
    unfold serveHello at h
    split at h
    · cases h
    · dsimp only at h
      split at h <;> cases h <;> exact hm.symm
  split at h
  next hm => rw [hcontext _ _ h, hm]
  split at h
  next hm => rw [hcontext _ _ h, hm]
  split at h
  next hm =>
    unfold serveGetHead at h
    split at h
    · cases h
    · exact (hmap _ _ h).trans hm.symm
  split at h
  next hm =>
    unfold serveAppendTurn at h
    split at h
    · cases h
    · split at h <;> cases h
      exact hm.symm
  split at h
  next hm =>
    unfold serveAttachFs at h
    split at h
    · cases h
    · split at h <;> cases h
      exact hm.symm
  split at h
  next hm =>
    unfold servePutBlob at h
    split at h
    · cases h
    · split at h
      · cases h
      · dsimp only at h
        split at h <;> cases h
        exact hm.symm
  split at h
  next hm =>
    unfold serveGetLast at h
    split at h
    · cases h
    · split at h <;> cases h
      exact hm.symm
  split at h
  next hm =>
    unfold serveGetBlob at h
    split at h
    · cases h
    · exact (hmap _ _ h).trans hm.symm
  · cases h

/-- The frame answers the request: it has its id, and its type unless the request fails. -/
def Arrival.AnsweredBy (k : Crates) (σ : Session) (a : Arrival) (f : Frame) : Prop :=
  f.header.reqId = a.frame.header.reqId ∧
    f.header.msgType =
      if (a.served k σ).succeeds then a.frame.header.msgType else MsgType.error.toU16

/-- **A pass of the loop gives a response exactly when the request is answered.** -/
theorem handleFrame_isOk (σ : Session) (a : Arrival) :
    (∃ f, (handleFrame k σ a).1 = .ok f) ↔ a.Answered k := by
  rw [a.answered_iff σ, handleFrame, Arrival.served]
  rcases serveRequest k σ (a.active σ) a.now a.fault a.frame with ⟨r | e, σ', sh⟩
  · simp [Served.answers, Served.conclude]
  · simp [Served.answers, Served.conclude]

/-- The response of a pass answers the request. -/
theorem handleFrame_answeredBy {σ : Session} {a : Arrival} {f : Frame}
    (h : (handleFrame k σ a).1 = .ok f) (σ₀ : Session) : a.AnsweredBy k σ₀ f := by
  have hsucceeds : (a.served k σ₀).succeeds = (a.served k σ).succeeds :=
    serveRequest_succeeds ..
  rw [Arrival.AnsweredBy, hsucceeds, Arrival.served]
  have htype := @serveRequest_msgType k σ (a.active σ) a.now a.fault a.frame
  rw [handleFrame] at h
  rcases hserve : serveRequest k σ (a.active σ) a.now a.fault a.frame with
    ⟨(e | ⟨msgType, payload⟩) | e, σ', sh⟩
  · rw [hserve] at h
    cases h
    exact ⟨rfl, rfl⟩
  · rw [hserve] at h htype
    cases h
    exact ⟨rfl, htype rfl⟩
  · rw [hserve] at h
    cases h

/-! ### The loop -/

/-- **One response for a request.** Of the well-framed requests that a connection sends,
each gets one response, in their order, and the connection is served on, exactly when all
of them are answered. -/
theorem one_response_per_request (σ : Session) (as : List Arrival)
    (hframed : ∀ a ∈ as, a.frame.Framed) :
    (List.Forall₂ (Arrival.AnsweredBy k σ) as
        (handleClient k (as.map Arrival.toFound) σ (as.flatMap fun a => a.frame.bytes)).1 ∧
      (handleClient k (as.map Arrival.toFound) σ (as.flatMap fun a => a.frame.bytes)).2 =
        .serving) ↔
      ∀ a ∈ as, a.Answered k := by
  -- The session changes as the loop goes; what it answers does not depend on it.
  suffices hloop : ∀ σ', (List.Forall₂ (Arrival.AnsweredBy k σ) as
        (handleClient k (as.map Arrival.toFound) σ' (as.flatMap fun a => a.frame.bytes)).1 ∧
      (handleClient k (as.map Arrival.toFound) σ' (as.flatMap fun a => a.frame.bytes)).2 =
        .serving) ↔ ∀ a ∈ as, a.Answered k from hloop σ
  induction as with
  | nil => simp [handleClient]
  | cons a as ih =>
      intro σ'
      have ih := ih fun b hb => hframed b (List.mem_cons_of_mem _ hb)
      simp only [List.map_cons, List.flatMap_cons, handleClient,
        readFrame_bytes (hframed a List.mem_cons_self), List.forall_mem_cons,
        ← handleFrame_isOk σ' a]
      have hfound : ({ a.toFound with frame := a.frame } : Arrival) = a := rfl
      rw [hfound]
      rcases hpass : handleFrame k σ' a with ⟨e | f, σ'', sh⟩
      · simp
      · have hanswered := handleFrame_answeredBy (by rw [hpass] : (handleFrame k σ' a).1 = .ok f) σ
        simp [List.forall₂_cons, hanswered, ih σ'']

/-- A request to an empty server. -/
def firstArrival (msgType : UInt16) (reqId : UInt64) (payload : Bytes) : Arrival :=
  { shared := Shared.empty, now := 0, fault := none,
    frame := Frame.make msgType 0 reqId payload }

/-- `one_response_per_request` for a head that is not there and for an unknown type. -/
theorem one_response_per_request_failedRequests :
    let as := [firstArrival MsgType.getHead.toU16 1 (u64Bytes 7), firstArrival 77 2 []]
    List.Forall₂ (Arrival.AnsweredBy .plain (Session.new 1 "")) as
        (handleClient .plain (as.map Arrival.toFound) (Session.new 1 "")
          (as.flatMap fun a => a.frame.bytes)).1 ∧
      (handleClient .plain (as.map Arrival.toFound) (Session.new 1 "")
          (as.flatMap fun a => a.frame.bytes)).2 = .serving := by
  refine (one_response_per_request (Session.new 1 "") _ ?_).mpr ?_
  · simp only [List.forall_mem_cons, List.not_mem_nil, false_imp_iff, implies_true, and_true]
    exact ⟨Frame.framed_make (by decide), Frame.framed_make (by decide)⟩
  · simp only [List.forall_mem_cons, List.not_mem_nil, false_imp_iff, implies_true, and_true]
    constructor
    · constructor <;> intro h <;> first | exact ⟨7, rfl⟩ | exact absurd h (by decide)
    · constructor <;> intro h <;> exact absurd h (by decide)

set_option maxRecDepth 4000 in
/-- **An unknown base turn ends the connection**: there is no response to it, nor to the
well-formed request behind it. -/
theorem unknown_base_leaves :
    let as := [firstArrival MsgType.ctxCreate.toU16 1 (u64Bytes 7),
      firstArrival MsgType.ctxCreate.toU16 2 (u64Bytes 0)]
    (∀ a ∈ as, a.frame.Framed) ∧
      handleClient .plain (as.map Arrival.toFound) (Session.new 1 "")
        (as.flatMap fun a => a.frame.bytes) = ([], .left (.notFound "base turn")) ∧
      ¬List.Forall₂ (Arrival.AnsweredBy .plain (Session.new 1 "")) as
        (handleClient .plain (as.map Arrival.toFound) (Session.new 1 "")
          (as.flatMap fun a => a.frame.bytes)).1 := by
  intro as
  have hrun : handleClient .plain (as.map Arrival.toFound) (Session.new 1 "")
      (as.flatMap fun a => a.frame.bytes) = ([], .left (.notFound "base turn")) := by
    decide
  refine ⟨?_, hrun, ?_⟩
  · simp only [as, List.forall_mem_cons, List.not_mem_nil, false_imp_iff, implies_true, and_true]
    exact ⟨Frame.framed_make (by decide), Frame.framed_make (by decide)⟩
  · rw [hrun]
    exact fun h => absurd h.length_eq (by simp [as])

end Cxdb
