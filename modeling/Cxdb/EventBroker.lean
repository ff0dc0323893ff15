import Cxdb.ContextListing
import Cxdb.HttpTurns
import Mathlib.Data.List.DropRight

/-!
# The Event Broker of the Gateway

`SSEBroker` asks the server for its newest contexts, again and again, compares every listing with
the one before, and broadcasts what is new: a context that was not there, or a head that has
moved. The server writes the ids of a listing as JSON numbers, while the broker reads them into
strings. So the broker can read no listing that has a context, and broadcasts nothing.

A poll is one step, since the handler holds the lock of the store while it makes the listing. The
error of the last poll is left out, because nothing reads it.

## Main results

* `SSEBroker.poll_listed`: a listing of the server leaves the broker silent.
* `Broadcasting.log_run`: so does every run.
* `broker_faithful_iff`: the events tell of all turns of the contexts that were listed if and only
  if there are none to tell of.
-/

open ByteFormat FaultyDisk

namespace Cxdb

/-! ### The listing on the wire -/

/-- What the broker reads of the JSON of a context. -/
structure ListedContext where
  contextId : JsonId
  headTurnId : JsonId
  headDepth : UInt32
  createdAtUnixMs : UInt64
  deriving DecidableEq

/-- The JSON of a context in a listing: `context_to_json` asks for `U64Format::Number`. -/
def ContextInfo.listed (info : ContextInfo) : ListedContext where
  contextId := formatId info.contextId false
  headTurnId := formatId info.headTurnId false
  headDepth := info.headDepth
  createdAtUnixMs := info.createdAtUnixMs

/-- `contextState`. -/
structure ContextState where
  headTurnId : String
  headDepth : ℕ

/-- A context of `contextsResponse`. -/
structure ContextEntry where
  contextId : String
  headTurnId : String
  headDepth : ℕ
  createdAtUnixMs : ℕ

/-- A JSON id in a field of type `string`: a number is an `UnmarshalTypeError`. -/
def JsonId.unmarshal : JsonId → Option String
  | .number _ => none
  | .string text => some text

/-- A number in a field of type `int64`. -/
def unmarshalInt64 (n : ℕ) : Option ℕ :=
  if n < 2 ^ 63 then some n else none

/-- `json.Unmarshal` of one context. -/
def ListedContext.unmarshal (ctx : ListedContext) : Option ContextEntry := do
  let contextId ← ctx.contextId.unmarshal
  let headTurnId ← ctx.headTurnId.unmarshal
  let createdAtUnixMs ← unmarshalInt64 ctx.createdAtUnixMs.toNat
  return { contextId, headTurnId, headDepth := ctx.headDepth.toNat, createdAtUnixMs }

/-- `json.Unmarshal` of a listing. It reads on behind a value of the wrong type, but its error
makes the poll drop all that it has read. -/
def unmarshalContexts (contexts : List ListedContext) : Option (List ContextEntry) :=
  contexts.mapM ListedContext.unmarshal

/-! ### The broker -/

/-- The events that the broker makes. -/
inductive BrokerEvent where
  | contextCreated (contextId : String) (createdAt : ℕ)
  | turnAppended (contextId turnId parentTurnId : String) (depth : ℕ)
  deriving DecidableEq

/-- The polling state of `SSEBroker`. -/
structure SSEBroker where
  lastContexts : HashMap String ContextState

/-- `NewSSEBroker`. -/
def SSEBroker.new : SSEBroker := { lastContexts := ∅ }

/-- What the loop of `poll` broadcasts for a context. -/
def SSEBroker.eventOf (b : SSEBroker) (ctx : ContextEntry) : Option BrokerEvent :=
  match b.lastContexts.lookup ctx.contextId with
  | none => some (.contextCreated ctx.contextId ctx.createdAtUnixMs)
  | some oldState =>
      if oldState.headTurnId ≠ ctx.headTurnId then
        some (.turnAppended ctx.contextId ctx.headTurnId oldState.headTurnId ctx.headDepth)
      else none

/-- `poll`, with the events that it broadcasts. There is no response if the request fails or the
status is not 200. -/
def SSEBroker.poll (b : SSEBroker) (response : Option (List ListedContext)) :
    List BrokerEvent × SSEBroker :=
  match response.bind unmarshalContexts with
  | none => ([], b)
  | some contexts =>
      (contexts.filterMap b.eventOf,
        { lastContexts := contexts.foldl
            (fun newContexts ctx =>
              newContexts.insert ctx.contextId ⟨ctx.headTurnId, ctx.headDepth⟩) ∅ })

/-! ### Runs -/

/-- The order in which the hash map of heads is iterated over. -/
structure HeadOrder where
  order : List ContextHead → List ContextHead
  perm : ∀ heads, (order heads).Perm heads

/-- What happens, as far as the events are about it. -/
inductive BrokerEntry where
  | appended (contextId : UInt64) (turn : TurnRecord)
  | listed (contexts : List ContextInfo)
  | broadcast (event : BrokerEvent)

/-- The server and the broker, with what has happened so far. -/
structure Broadcasting where
  backend : Store × DataDir
  broker : SSEBroker
  log : List BrokerEntry

/-- The contexts of the server change, their metadata is read, and the broker polls: it gets a
listing, or it fails to. -/
inductive BroadcastStep where
  | op (o : StoreOp)
  | read (r : MetadataRead)
  | poll (order : HeadOrder) (tracker : SessionTracker)
  | failedPoll

/-- The turn that an operation has appended to a context. -/
def StoreOp.appended : StoreOp → StoreResult → Option (UInt64 × TurnRecord)
  | .call (.appendTurn r) _ _, .call (.ok (.turn turn, _)) _ => some (r.contextId, turn)
  | _, _ => none

/-- `?limit=50`. -/
def brokerParams : ContextsParams where
  limit := some 50
  tag := none
  label := none
  taskId := none

variable (k : Crates) (D : DateReader)

/-- A gateway that starts to poll a server. -/
def Broadcasting.start (backend : Store × DataDir) : Broadcasting :=
  { backend, broker := .new, log := [] }

/-- One step. -/
def Broadcasting.step (w : Broadcasting) : BroadcastStep → Broadcasting
  | .op o =>
      let (result, backend) := o.run k D w.backend
      { w with
        backend
        log := w.log ++ ((o.appended result).map fun p => .appended p.1 p.2).toList }
  | .read r => { w with backend := r.run k w.backend }
  | .poll order tracker =>
      let heads := order.order w.backend.1.stores.turnStore.contexts
      let (infos, store) := getContexts k brokerParams heads tracker w.backend
      let (events, broker) := w.broker.poll (some (infos.map (·.listed)))
      { backend := (store, w.backend.2)
        broker
        log := w.log ++ .listed infos :: events.map .broadcast }
  | .failedPoll =>
      let (events, broker) := w.broker.poll none
      { w with broker, log := w.log ++ events.map .broadcast }

/-- A run. -/
def Broadcasting.run (w : Broadcasting) (steps : List BroadcastStep) : Broadcasting :=
  steps.foldl (Broadcasting.step k D) w

variable {k D}

/-! ### Fidelity -/

/-- It is a listing with the context. -/
def BrokerEntry.lists (c : UInt64) : BrokerEntry → Bool
  | .listed contexts => contexts.any (·.contextId = c)
  | _ => false

/-- It is a listing. -/
def BrokerEntry.isListing : BrokerEntry → Bool
  | .listed _ => true
  | _ => false

/-- The turn that it appends to the context. -/
def BrokerEntry.turnOf (c : UInt64) : BrokerEntry → Option TurnRecord
  | .appended contextId turn => if contextId = c then some turn else none
  | _ => none

/-- It broadcasts that the context was created. -/
def BrokerEntry.isCreated (c : UInt64) : BrokerEntry → Bool
  | .broadcast (.contextCreated contextId _) => contextId = (formatId c true).text
  | _ => false

/-- The event that it broadcasts of a turn of the context. -/
def BrokerEntry.turnEvent (c : UInt64) : BrokerEntry → Option BrokerEvent
  | .broadcast (.turnAppended contextId turnId parentTurnId depth) =>
      if contextId = (formatId c true).text then
        some (.turnAppended contextId turnId parentTurnId depth)
      else none
  | _ => none

/-- The event of a turn. -/
def TurnRecord.event (c : UInt64) (turn : TurnRecord) : BrokerEvent :=
  .turnAppended (formatId c true).text (formatId turn.turnId true).text
    (formatId turn.parentTurnId true).text turn.depth.toNat

/-- The turns that were appended to a context between the first listing that has it and the last
listing. -/
def turnsSince (c : UInt64) (log : List BrokerEntry) : List TurnRecord :=
  ((log.dropWhile fun e => !BrokerEntry.lists c e).rdropWhile fun e => !e.isListing).filterMap
    (BrokerEntry.turnOf c)

/-- **The broker is faithful**: it has announced no context twice, and of every context that a
listing had it has announced the turns appended since, in their order. -/
structure BroadcastsFaithfully (log : List BrokerEntry) : Prop where
  created : ∀ c, log.countP (BrokerEntry.isCreated c) ≤ 1
  turns : ∀ c, log.any (BrokerEntry.lists c) →
    log.filterMap (BrokerEntry.turnEvent c) = (turnsSince c log).map (TurnRecord.event c)

/-! ### What the broker reads -/

/-- A listing with a context cannot be read. -/
theorem unmarshalContexts_listed (infos : List ContextInfo) :
    unmarshalContexts (infos.map (·.listed)) = if infos = [] then some [] else none := by
  cases infos with
  | nil => rfl
  | cons info infos => rfl

/-- **A listing of the server leaves the broker silent.** -/
theorem SSEBroker.poll_listed {b : SSEBroker} (infos : List ContextInfo) :
    (b.poll (some (infos.map (·.listed)))).1 = [] := by
  rw [SSEBroker.poll, Option.bind_some, unmarshalContexts_listed]
  by_cases hinfos : infos = []
  · rw [if_pos hinfos]
    rfl
  · rw [if_neg hinfos]

/-- The entry is no event. -/
def BrokerEntry.Silent : BrokerEntry → Prop
  | .broadcast _ => False
  | _ => True

/-- A step adds no event. -/
theorem Broadcasting.silent_step (w : Broadcasting) (s : BroadcastStep)
    (h : ∀ e ∈ w.log, e.Silent) : ∀ e ∈ (w.step k D s).log, e.Silent := by
  cases s with
  | op o =>
      intro e he
      rcases List.mem_append.mp he with he | he
      · exact h e he
      · obtain ⟨p, -, rfl⟩ := Option.map_eq_some_iff.mp (Option.mem_toList.mp he)
        trivial
  | read r => exact h
  | poll order tracker =>
      intro e he
      simp only [Broadcasting.step, SSEBroker.poll_listed, List.map_nil] at he
      rcases List.mem_append.mp he with he | he
      · exact h e he
      · obtain rfl := List.mem_singleton.mp he
        trivial
  | failedPoll =>
      intro e he
      simp only [Broadcasting.step, SSEBroker.poll, Option.bind_none, List.map_nil,
        List.append_nil] at he
      exact h e he

/-- **No run has an event.** -/
theorem Broadcasting.silent_run (steps : List BroadcastStep) (w : Broadcasting)
    (h : ∀ e ∈ w.log, e.Silent) : ∀ e ∈ (w.run k D steps).log, e.Silent := by
  induction steps generalizing w with
  | nil => exact h
  | cons s steps ih => exact ih (w.step k D s) (w.silent_step s h)

/-! ### When it is faithful -/

/-- An element comes behind the first one with `p`. -/
theorem dropWhile_split {α : Type} {p : α → Bool} {x : α} (hx : p x = false) {l d₁ d₂ : List α}
    (h : (l.dropWhile fun e => !p e) = d₁ ++ x :: d₂) :
    ∃ before, l = before ++ x :: d₂ ∧ before.any p := by
  refine ⟨(l.takeWhile fun e => !p e) ++ d₁, ?_, ?_⟩
  · rw [List.append_assoc, ← h, List.takeWhile_append_dropWhile]
  · have hhead := List.head?_dropWhile_not (fun e => !p e) l
    rw [h] at hhead
    cases d₁ with
    | nil => simp [hx] at hhead
    | cons y d₁ =>
        have hy : p y = true := by simpa using hhead
        simp [hy]

/-- What comes behind an element with `p` stays. -/
theorem dropWhile_append_of_any {α : Type} {p : α → Bool} {before after : List α}
    (h : before.any p) :
    (before ++ after).dropWhile (fun e => !p e) = before.dropWhile (fun e => !p e) ++ after := by
  rw [List.dropWhile_append, if_neg]
  rw [List.isEmpty_iff, List.dropWhile_eq_nil_iff]
  intro hall
  obtain ⟨e, he, hpe⟩ := List.any_eq_true.mp h
  simpa [hpe] using hall e he

/-- What is between the first element with `p` and the last one with `q`. -/
theorem mem_between_iff {α : Type} {p q : α → Bool} {x : α} (hp : p x = false) (hq : q x = false)
    (l : List α) :
    x ∈ (l.dropWhile fun e => !p e).rdropWhile (fun e => !q e) ↔
      ∃ before after, l = before ++ x :: after ∧ before.any p ∧ after.any q := by
  rw [List.rdropWhile, List.mem_reverse]
  constructor
  · intro hx
    obtain ⟨r₁, r₂, hr⟩ := List.append_of_mem hx
    obtain ⟨after, hafter, hany⟩ := dropWhile_split hq hr
    have hd : (l.dropWhile fun e => !p e) = r₂.reverse ++ x :: after.reverse := by
      rw [← List.reverse_reverse (l.dropWhile _), hafter]
      simp
    obtain ⟨before, rfl, hbefore⟩ := dropWhile_split hp hd
    exact ⟨before, after.reverse, rfl, hbefore, by rwa [List.any_reverse]⟩
  · rintro ⟨before, after, rfl, hbefore, hafter⟩
    rw [dropWhile_append_of_any hbefore, List.reverse_append, List.reverse_cons,
      List.append_assoc, dropWhile_append_of_any (by rwa [List.any_reverse])]
    simp

/-- The turns of a context that there are events to make of. -/
theorem turnsSince_eq_nil_iff (c : UInt64) (log : List BrokerEntry) :
    turnsSince c log = [] ↔
      ∀ before turn after, log = before ++ .appended c turn :: after →
        before.any (BrokerEntry.lists c) → ¬after.any BrokerEntry.isListing := by
  rw [turnsSince, List.filterMap_eq_nil_iff]
  constructor
  · rintro hnone before turn after rfl hbefore hafter
    have hmem := (mem_between_iff (p := BrokerEntry.lists c) (q := BrokerEntry.isListing)
      (x := .appended c turn) rfl rfl _).mpr ⟨before, after, rfl, hbefore, hafter⟩
    simpa [BrokerEntry.turnOf] using hnone _ hmem
  · intro hnot e he
    cases e with
    | appended contextId turn =>
        rw [BrokerEntry.turnOf, if_neg]
        rintro rfl
        obtain ⟨before, after, hlog, hbefore, hafter⟩ := (mem_between_iff rfl rfl log).mp he
        exact hnot before turn after hlog hbefore hafter
    | listed contexts => rfl
    | broadcast event => rfl

/-- Without events, a log is faithful if there are none to make. -/
theorem faithful_iff_of_silent {log : List BrokerEntry} (h : ∀ e ∈ log, e.Silent) :
    BroadcastsFaithfully log ↔ ∀ c, log.any (BrokerEntry.lists c) → turnsSince c log = [] := by
  have hcreated : ∀ c, log.countP (BrokerEntry.isCreated c) = 0 := by
    intro c
    refine List.countP_eq_zero.mpr fun e he => ?_
    have hsilent := h e he
    cases e with
    | broadcast event => exact hsilent.elim
    | _ => exact Bool.false_ne_true
  have hturn : ∀ c, log.filterMap (BrokerEntry.turnEvent c) = [] := by
    intro c
    refine List.filterMap_eq_nil_iff.mpr fun e he => ?_
    have hsilent := h e he
    cases e with
    | broadcast event => exact hsilent.elim
    | _ => rfl
  constructor
  · intro hfaithful c hc
    have hturns := hfaithful.turns c hc
    rw [hturn] at hturns
    exact List.map_eq_nil_iff.mp hturns.symm
  · intro hnone
    refine ⟨fun c => (hcreated c).le.trans (Nat.zero_le 1), fun c hc => ?_⟩
    rw [hturn, hnone c hc]
    rfl

/-- **The events of a run** tell of the turns that were appended if and only if no turn was
appended to a context between a listing that has it and a later listing. -/
theorem broker_faithful_iff (k : Crates) (D : DateReader) (backend : Store × DataDir)
    (steps : List BroadcastStep) :
    let log := ((Broadcasting.start backend).run k D steps).log
    BroadcastsFaithfully log ↔
      ∀ c before turn after, log = before ++ .appended c turn :: after →
        before.any (BrokerEntry.lists c) → ¬after.any BrokerEntry.isListing := by
  intro log
  have hsilent : ∀ e ∈ log, e.Silent :=
    Broadcasting.silent_run steps (.start backend) (by simp [Broadcasting.start])
  rw [faithful_iff_of_silent hsilent]
  constructor
  · intro hnone c before turn after hlog hbefore
    refine (turnsSince_eq_nil_iff c log).mp (hnone c ?_) before turn after hlog hbefore
    rw [hlog, List.any_append, hbefore, Bool.true_or]
  · intro hnot c _
    exact (turnsSince_eq_nil_iff c log).mpr fun before turn after hlog hbefore =>
      hnot c before turn after hlog hbefore

/-! ### A turn between two polls -/

/-- The heads in any order. -/
def HeadOrder.asStored : HeadOrder := ⟨id, fun _ => List.Perm.refl _⟩

/-- A context is created and listed, a turn is appended to it, and it is listed again. -/
def turnBetweenPolls : List BroadcastStep :=
  [.op (.call (.createContext 0) 1 none), .poll .asStored .new,
    .op (.call (.appendTurn (taggedAppend 1)) 2 none), .poll .asStored .new]

/-- What happens in this run. -/
def turnBetweenPollsLog : List BrokerEntry :=
  ((Broadcasting.start (Store.empty, fun _ => [])).run .plain timeless turnBetweenPolls).log

set_option maxRecDepth 8000 in
theorem turnBetweenPolls_since :
    (turnBetweenPollsLog.any (BrokerEntry.lists 1), (turnsSince 1 turnBetweenPollsLog).length) =
      (true, 1) := by
  decide +kernel

/-- **An appended turn without an event.** -/
theorem broker_not_faithful :
    ¬∀ (k : Crates) (D : DateReader) (backend : Store × DataDir) (steps : List BroadcastStep),
      BroadcastsFaithfully ((Broadcasting.start backend).run k D steps).log := by
  intro h
  have hfaithful : BroadcastsFaithfully turnBetweenPollsLog := h _ _ _ _
  have hsilent : ∀ e ∈ turnBetweenPollsLog, e.Silent :=
    Broadcasting.silent_run turnBetweenPolls (.start _) (by simp [Broadcasting.start])
  obtain ⟨hlists, hlength⟩ := Prod.mk.inj turnBetweenPolls_since
  have hnone := (faithful_iff_of_silent hsilent).mp hfaithful 1 hlists
  rw [hnone] at hlength
  exact absurd hlength (by decide)

end Cxdb
