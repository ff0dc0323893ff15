import Cxdb.Session
import Cxdb.Transition
import Cxdb.WorkQueue

/-!
# The Delivery of Captured Turns

The worker of `cxtx` that sends turns to the server, with the channel through which it gets
them and the tasks that capture them. A task takes the ordinals of its turns in one step and
hands them over one by one, later; between any two steps the others may act. The worker moves
from the top of its loop to a receive, a drain, an attempt and a sleep.

The numbers of the accepted items, and what has been accepted, delivered and acknowledged, are
kept for the statements about runs; no part of the worker reads them.

## Main results

* `DeliverySystem.act_moves`: a step makes moves of a work queue.
-/

open Transition

namespace Cxdb

/-! ### The HTTP client -/

structure HttpStatus where
  code : ℕ
  reason : String
  deriving DecidableEq

def HttpStatus.isSuccess (s : HttpStatus) : Bool := 200 ≤ s.code && s.code < 300

def HttpStatus.isServerError (s : HttpStatus) : Bool := 500 ≤ s.code && s.code < 600

def HttpStatus.display (s : HttpStatus) : String := Decimal.print s.code ++ " " ++ s.reason

/-- A `reqwest::Error`. -/
structure ReqwestError where
  isConnect : Bool
  isTimeout : Bool
  isRequest : Bool
  message : String
  deriving DecidableEq

/-- What comes of a request: an error, or a status with a body, as a text and as what the body
is read as. -/
inductive HttpReply (α : Type) where
  | failed (err : ReqwestError)
  | answered (status : HttpStatus) (text : String) (json : Except String α)

inductive CxdbError where
  | retriable (message : String)
  | permanent (message : String)
  deriving DecidableEq

/-- `FlexibleId`. -/
inductive FlexibleId where
  | string (value : String)
  | number (value : UInt64)

def FlexibleId.intoU64 : FlexibleId → Except String UInt64
  | .string value =>
      match Decimal.parseU64 value with
      | some n => .ok n
      | none => .error ("failed to parse identifier " ++ value)
  | .number value => .ok value

def classifyReqwestError (err : ReqwestError) : CxdbError :=
  if err.isConnect ∨ err.isTimeout ∨ err.isRequest then .retriable err.message
  else .permanent err.message

def classifyStatus (status : HttpStatus) (body : String) : CxdbError :=
  if status.isServerError then .retriable (status.display ++ ": " ++ body)
  else .permanent (status.display ++ ": " ++ body)

/-- The body of a reply with a successful status. -/
def HttpReply.success {α : Type} : HttpReply α → Except CxdbError (Except String α)
  | .failed err => .error (classifyReqwestError err)
  | .answered status text json =>
      if status.isSuccess then .ok json else .error (classifyStatus status text)

/-- The body of a reply, read as JSON. -/
def HttpReply.decoded {α : Type} (reply : HttpReply α) : Except CxdbError α :=
  match reply.success with
  | .error e => .error e
  | .ok (.error message) => .error (.permanent message)
  | .ok (.ok a) => .ok a

/-- `create_context`. -/
def CxdbHttpClient.createContext (reply : HttpReply FlexibleId) : Except CxdbError UInt64 :=
  match reply.decoded with
  | .error e => .error e
  | .ok id =>
      match id.intoU64 with
      | .error message => .error (.permanent message)
      | .ok contextId => .ok contextId

/-- What the server replies to the requests of an append, as far as they are made. -/
structure AppendReplies where
  descriptor : HttpReply Unit
  bundle : HttpReply Unit
  append : HttpReply FlexibleId

/-- `ensure_conversation_type_registered`, and whether the registry is ready after it. -/
def ensureConversationTypeRegistered (registryReady : Bool) (replies : AppendReplies) :
    Except CxdbError Unit × Bool :=
  if registryReady then (.ok (), true)
  else
    match replies.descriptor with
    | .failed err => (.error (classifyReqwestError err), false)
    | .answered status text _ =>
        if status.isSuccess then (.ok (), true)
        else if status.code = 404 then
          match replies.bundle.success with
          | .error e => (.error e, false)
          | .ok _ => (.ok (), true)
        else (.error (classifyStatus status text), false)

/-- `append_turn`. -/
def CxdbHttpClient.appendTurn (registryReady : Bool) (replies : AppendReplies) :
    Except CxdbError FlexibleId × Bool :=
  match ensureConversationTypeRegistered registryReady replies with
  | (.error e, ready) => (.error e, ready)
  | (.ok (), ready) => (replies.append.decoded, ready)

/-- The server's replies to whatever the worker sends. -/
structure Replies where
  create : HttpReply FlexibleId
  append : AppendReplies

/-! ### The worker -/

inductive QueueItem where
  | createContext
  | append (turn : TurnEnvelope)
  deriving DecidableEq

/-- An item with its number among the accepted ones; the worker's own turns have none. -/
abbrev QueueEntry := WorkQueue.Entry QueueItem

/-- A message to the worker; a shutdown with the number of items accepted before it. -/
abbrev WorkerMessage := WorkQueue.Message QueueItem

structure DeliveryWorker where
  queue : List QueueEntry
  contextId : Option UInt64
  degraded : Bool
  retryDelay : ℕ
  shutdown : Option ℕ
  shutdownDeadline : Option ℕ
  recoveryTurnEnqueued : Bool
  registryReady : Bool
  deriving DecidableEq

/-- Times are in milliseconds. -/
def initialRetryDelay : ℕ := 250

def maxRetryDelay : ℕ := 5000

def shutdownDrainTimeout : ℕ := 5000

/-- The capacity of the channel. -/
def channelCapacity : ℕ := 1024

def DeliveryWorker.new : DeliveryWorker where
  queue := []
  contextId := none
  degraded := false
  retryDelay := initialRetryDelay
  shutdown := none
  shutdownDeadline := none
  recoveryTurnEnqueued := false
  registryReady := false

namespace DeliveryWorker

variable (w : DeliveryWorker)

def pushBack (entry : QueueEntry) : DeliveryWorker :=
  { w with queue := w.queue ++ [entry] }

def requestShutdown (now before : ℕ) : DeliveryWorker :=
  { w with
    shutdown := some before
    shutdownDeadline := some (now + shutdownDrainTimeout) }

/-- `handle_message`. -/
def handleMessage (now : ℕ) : WorkerMessage → DeliveryWorker
  | .enqueue entry => w.pushBack entry
  | .shutdown before => w.requestShutdown now before

/-- `error_string`. -/
def errorString : CxdbError → String
  | .retriable err => err
  | .permanent err => err

def created (contextId : UInt64) : DeliveryWorker := { w with contextId := some contextId }

def asked (registryReady : Bool) : DeliveryWorker := { w with registryReady }

/-- `process_item`. -/
def processItem (replies : Replies) : QueueItem → Except String Unit × DeliveryWorker
  | .createContext =>
      match CxdbHttpClient.createContext replies.create with
      | .error e => (.error (errorString e), w)
      | .ok contextId => (.ok (), w.created contextId)
  | .append _ =>
      match w.contextId with
      | none => (.error "context creation has not completed", w)
      | some _ =>
          match CxdbHttpClient.appendTurn w.registryReady replies.append with
          | (.error e, ready) => (.error (errorString e), w.asked ready)
          | (.ok _, ready) => (.ok (), w.asked ready)

/-- Nothing more is left behind the front. -/
def popFront : DeliveryWorker :=
  { w with
    queue := w.queue.tail
    retryDelay := initialRetryDelay }

def recovering : DeliveryWorker := { w with recoveryTurnEnqueued := true }

def recovered : DeliveryWorker :=
  { w with
    degraded := false
    recoveryTurnEnqueued := false }

def degrade : DeliveryWorker :=
  { w with
    degraded := true
    recoveryTurnEnqueued := false }

def backOff : DeliveryWorker :=
  { w with retryDelay := min (w.retryDelay * 2) maxRetryDelay }

/-- A turn of the worker's own, behind all that is queued. -/
def pushOwn (turn : TurnEnvelope) : DeliveryWorker :=
  w.pushBack { item := .append turn, ticket := none }

/-- What follows an attempt that succeeded. -/
def afterSuccess (session : SessionRuntime) (item : QueueItem) :
    DeliveryWorker × SessionRuntime :=
  let w := w.popFront
  if w.degraded ∧ w.queue = [] ∧ ¬ w.recoveryTurnEnqueued then
    let (turn, session) := session.ingestRecoveredTurn 0
    (w.recovering.pushOwn turn, session)
  else if w.degraded ∧ w.recoveryTurnEnqueued ∧ item ≠ .createContext ∧ w.queue = [] then
    (w.recovered, session)
  else (w, session)

/-- `enter_degraded`. -/
def enterDegraded (session : SessionRuntime) (error : String) :
    DeliveryWorker × SessionRuntime :=
  if w.degraded then (w, session)
  else
    let (turn, session) := session.ingestDegradedTurn w.queue.length error
    (w.degrade.pushOwn turn, session)

/-- How long the worker sleeps after a failure. -/
def sleepFor (now : ℕ) : ℕ :=
  match w.shutdownDeadline with
  | some deadline => min (deadline - now) w.retryDelay
  | none => w.retryDelay

/-- The shutdown is over: nothing is queued, or its time is. -/
def Finished (now : ℕ) : Prop :=
  w.shutdown.isSome ∧
    (w.queue = [] ∨ ∃ deadline ∈ w.shutdownDeadline, deadline ≤ now)

instance (now : ℕ) : Decidable (w.Finished now) := by
  unfold Finished
  infer_instance

end DeliveryWorker

/-! ### The system -/

/-- Where the worker is in its loop. -/
inductive WorkerPhase where
  | top
  | receiving
  | draining
  | attempting
  | sleeping (wake : ℕ)
  | stopped
  deriving DecidableEq

/-- A shutdown that has been acknowledged: what was accepted before its request, when it was
acknowledged, and its deadline. -/
structure Acknowledgement where
  before : ℕ
  time : ℕ
  deadline : Option ℕ
  deriving DecidableEq

structure DeliverySystem where
  worker : DeliveryWorker
  phase : WorkerPhase
  channel : List WorkerMessage
  /-- A sender is left. -/
  attached : Bool
  session : SessionRuntime
  /-- The turns that each task has captured and not yet handed over. -/
  tasks : List (List TurnEnvelope)
  now : ℕ
  accepted : List QueueItem
  delivered : List QueueEntry
  acknowledged : Option Acknowledgement
  deriving DecidableEq

inductive DeliveryEvent where
  /-- A task makes turns. -/
  | capture (call : SessionCall)
  /-- A task hands its next turn over. -/
  | send (task : ℕ)
  | createContext
  | shutdown
  | detach
  | tick (duration : ℕ)
  /-- The worker looks whether its shutdown is over. -/
  | check
  | receive
  /-- The worker takes a message of those that are waiting, or goes on when there is none. -/
  | drain
  /-- The server replies to the attempt. -/
  | reply (replies : Replies)
  | wake

namespace DeliverySystem

variable (s : DeliverySystem)

/-- The channel takes another message. -/
def Open : Prop := s.attached ∧ s.phase ≠ .stopped ∧ s.channel.length < channelCapacity

instance : Decidable s.Open := by
  unfold Open
  infer_instance

/-- An item that has been accepted. -/
def accept (item : QueueItem) : DeliverySystem :=
  { s with
    channel := s.channel ++ [.enqueue { item, ticket := some s.accepted.length }]
    accepted := s.accepted ++ [item] }

def requestShutdown : DeliverySystem :=
  { s with channel := s.channel ++ [.shutdown s.accepted.length] }

def capture (call : SessionCall) : DeliverySystem :=
  { s with
    session := (s.session.call call).2
    tasks := s.tasks ++ [(s.session.call call).1] }

/-- A task without its next turn. -/
def handOver (task : ℕ) : DeliverySystem :=
  { s with tasks := s.tasks.modify task List.tail }

def enter (phase : WorkerPhase) : DeliverySystem := { s with phase }

/-- The worker stops; the tasks find it gone. -/
def stop (acknowledged : Option Acknowledgement) : DeliverySystem :=
  { s with
    phase := .stopped
    acknowledged }

/-- The message has been taken from the channel. -/
def take (message : WorkerMessage) (rest : List WorkerMessage) (phase : WorkerPhase) :
    DeliverySystem :=
  { s with
    worker := s.worker.handleMessage s.now message
    channel := rest
    phase }

/-- The item at the front has been delivered. -/
def deliver (entry : QueueEntry) (w : DeliveryWorker) : DeliverySystem :=
  let (worker, session) := w.afterSuccess s.session entry.item
  { s with
    worker
    session
    delivered := s.delivered ++ [entry]
    phase := .top }

/-- The item at the front has not been delivered. -/
def retry (w : DeliveryWorker) (error : String) : DeliverySystem :=
  let (worker, session) := w.enterDegraded s.session error
  { s with
    worker := worker.backOff
    session
    phase := .sleeping (s.now + worker.sleepFor s.now) }

/-- **A step** of the worker, of a task, or of the time. -/
def act : DeliveryEvent → Option DeliverySystem
  | .capture call => some (s.capture call)
  | .send task =>
      match s.tasks[task]? with
      | some (turn :: _) =>
          if s.Open then some ((s.handOver task).accept (.append turn))
          else if s.phase = .stopped then some (s.handOver task)
          else none
      | _ => none
  | .createContext => if s.Open then some (s.accept .createContext) else none
  | .shutdown => if s.Open then some s.requestShutdown else none
  | .detach => if s.attached then some { s with attached := false } else none
  | .tick duration => some { s with now := s.now + duration }
  | .check =>
      if s.phase ≠ .top then none
      else if s.worker.Finished s.now then
        some (s.stop (s.worker.shutdown.map fun before =>
          { before, time := s.now, deadline := s.worker.shutdownDeadline }))
      else if s.worker.queue = [] then some (s.enter .receiving)
      else some (s.enter .draining)
  | .receive =>
      if s.phase ≠ .receiving then none
      else
        match s.channel with
        | message :: rest => some (s.take message rest .top)
        | [] => if s.attached then none else some (s.stop none)
  | .drain =>
      if s.phase ≠ .draining then none
      else
        match s.channel with
        | message :: rest => some (s.take message rest .draining)
        | [] => some (s.enter .attempting)
  | .reply replies =>
      if s.phase ≠ .attempting then none
      else
        match s.worker.queue with
        | [] => none
        | entry :: _ =>
            match s.worker.processItem replies entry.item with
            | (.ok (), w) => some (s.deliver entry w)
            | (.error e, w) => some (s.retry w e)
  | .wake =>
      match s.phase with
      | .sleeping wake => if wake ≤ s.now then some (s.enter .top) else none
      | _ => none

/-- The start, with a session that may have made turns before. -/
def start (session : SessionRuntime) : DeliverySystem where
  worker := .new
  phase := .top
  channel := []
  attached := true
  session
  tasks := []
  now := 0
  accepted := []
  delivered := []
  acknowledged := none

end DeliverySystem

/-! ### The queue of the system -/

/-- The system as a work queue. -/
def DeliverySystem.pipeline (s : DeliverySystem) : WorkQueue.Pipeline QueueItem where
  accepted := s.accepted
  channel := s.channel
  queue := s.worker.queue
  finished := s.delivered
  requested := s.worker.shutdown

/-- The worker has said nothing, or it has put a turn of its own behind the queue. -/
inductive Speaks (queue : List QueueEntry) (session : SessionRuntime) :
    List QueueEntry → SessionRuntime → Prop
  | silent : Speaks queue session queue session
  | turn (exchangeId : String) (body : ItemBody) :
      Speaks queue session
        (queue ++ [{ item := .append (session.turn exchangeId body).1, ticket := none }])
        (session.turn exchangeId body).2

namespace DeliveryWorker

variable (w : DeliveryWorker) (session : SessionRuntime)

/-- An attempt changes nothing but the context and whether the registry is ready. -/
theorem processItem_frame (replies : Replies) (item : QueueItem) :
    ∃ contextId registryReady,
      (w.processItem replies item).2 = { w with contextId, registryReady } := by
  cases item with
  | createContext =>
      rw [processItem]
      cases CxdbHttpClient.createContext replies.create with
      | error e => exact ⟨w.contextId, w.registryReady, rfl⟩
      | ok id => exact ⟨some id, w.registryReady, rfl⟩
  | append turn =>
      rw [processItem]
      cases hid : w.contextId with
      | none => exact ⟨w.contextId, w.registryReady, rfl⟩
      | some id =>
          simp only
          split <;> exact ⟨w.contextId, _, rfl⟩

theorem processItem_queue (replies : Replies) (item : QueueItem) :
    (w.processItem replies item).2.queue = w.queue := by
  obtain ⟨_, _, hw⟩ := w.processItem_frame replies item
  rw [hw]

theorem processItem_shutdown (replies : Replies) (item : QueueItem) :
    (w.processItem replies item).2.shutdown = w.shutdown := by
  obtain ⟨_, _, hw⟩ := w.processItem_frame replies item
  rw [hw]

theorem afterSuccess_speaks (item : QueueItem) :
    Speaks w.queue.tail session (w.afterSuccess session item).1.queue
      (w.afterSuccess session item).2 := by
  simp only [afterSuccess]
  split
  · exact .turn _ _
  · split <;> exact .silent

theorem afterSuccess_shutdown (item : QueueItem) :
    (w.afterSuccess session item).1.shutdown = w.shutdown := by
  simp only [afterSuccess]
  split
  · rfl
  · split <;> rfl

theorem enterDegraded_speaks (error : String) :
    Speaks w.queue session (w.enterDegraded session error).1.queue
      (w.enterDegraded session error).2 := by
  rw [enterDegraded]
  split
  · exact .silent
  · exact .turn _ _

theorem enterDegraded_shutdown (error : String) :
    (w.enterDegraded session error).1.shutdown = w.shutdown := by
  rw [enterDegraded]
  split <;> rfl

end DeliveryWorker

open WorkQueue (Pipeline)
open WorkQueue.Pipeline

/-- A turn of the worker's own is a move. -/
theorem Speaks.moves {queue queue' : List QueueEntry} {session session' : SessionRuntime}
    (h : Speaks queue session queue' session') (p : Pipeline QueueItem) :
    Pipeline.Moves { p with queue } { p with queue := queue' } := by
  cases h with
  | silent => exact .refl
  | turn exchangeId body => exact .single (.own { p with queue } _)

namespace DeliverySystem

variable {s s' : DeliverySystem}

/-- **What a reply leads to.** -/
theorem reply_cases {replies : Replies} (h : s.act (.reply replies) = some s') :
    s.phase = .attempting ∧ ∃ entry rest, s.worker.queue = entry :: rest ∧
      (((s.worker.processItem replies entry.item).1 = .ok () ∧
          s' = s.deliver entry (s.worker.processItem replies entry.item).2) ∨
        ∃ e, (s.worker.processItem replies entry.item).1 = .error e ∧
          s' = s.retry (s.worker.processItem replies entry.item).2 e) := by
  rw [act] at h
  split at h
  · cases h
  next hphase =>
    cases hq : s.worker.queue with
    | nil =>
        rw [hq] at h
        cases h
    | cons entry rest =>
        rw [hq] at h
        refine ⟨not_not.mp hphase, entry, rest, rfl, ?_⟩
        rcases hp : s.worker.processItem replies entry.item with ⟨_ | _, w⟩ <;>
          simp only [hp] at h <;> obtain rfl := Option.some.inj h
        · exact Or.inr ⟨_, rfl, rfl⟩
        · exact Or.inl ⟨rfl, rfl⟩

theorem deliver_moves {entry : QueueEntry} {rest : List QueueEntry}
    (hq : s.worker.queue = entry :: rest) {w : DeliveryWorker}
    (hqueue : w.queue = s.worker.queue) (hshutdown : w.shutdown = s.worker.shutdown) :
    Pipeline.Moves s.pipeline (s.deliver entry w).pipeline := by
  have hfinish : Move s.pipeline
      { s.pipeline with queue := rest, finished := s.delivered ++ [entry] } :=
    .finish s.pipeline entry rest hq
  have hspeaks := w.afterSuccess_speaks s.session entry.item
  rw [hqueue, hq] at hspeaks
  have hown := hspeaks.moves { s.pipeline with finished := s.delivered ++ [entry] }
  have heq : (s.deliver entry w).pipeline = { s.pipeline with
      queue := (w.afterSuccess s.session entry.item).1.queue
      finished := s.delivered ++ [entry] } := by
    simp only [pipeline, deliver, w.afterSuccess_shutdown, hshutdown]
  rw [heq]
  exact .head hfinish hown

theorem retry_moves {w : DeliveryWorker} (hqueue : w.queue = s.worker.queue)
    (hshutdown : w.shutdown = s.worker.shutdown) (error : String) :
    Pipeline.Moves s.pipeline (s.retry w error).pipeline := by
  have hspeaks := w.enterDegraded_speaks s.session error
  rw [hqueue] at hspeaks
  have hown := hspeaks.moves s.pipeline
  have heq : (s.retry w error).pipeline =
      { s.pipeline with queue := (w.enterDegraded s.session error).1.queue } := by
    simp only [pipeline, retry, DeliveryWorker.backOff, w.enterDegraded_shutdown, hshutdown]
  rw [heq]
  exact hown

theorem take_moves {message : WorkerMessage} {rest : List WorkerMessage}
    (hch : s.channel = message :: rest) (phase : WorkerPhase) :
    Pipeline.Moves s.pipeline (s.take message rest phase).pipeline := by
  cases message with
  | enqueue entry => exact .single (.take s.pipeline entry rest hch)
  | shutdown before => exact .single (.takeRequest s.pipeline before rest hch)

/-- **A step makes moves of the work queue.** -/
theorem act_moves {e : DeliveryEvent} (h : s.act e = some s') :
    Pipeline.Moves s.pipeline s'.pipeline := by
  cases e with
  | capture call =>
      obtain rfl := Option.some.inj h
      exact .refl
  | send task =>
      rw [act] at h
      split at h
      next turn rest htask =>
        split at h
        · obtain rfl := Option.some.inj h
          exact .single (.accept s.pipeline (.append turn))
        · split at h
          · obtain rfl := Option.some.inj h
            exact .refl
          · cases h
      · cases h
  | createContext =>
      rw [act] at h
      split at h
      · obtain rfl := Option.some.inj h
        exact .single (.accept s.pipeline .createContext)
      · cases h
  | shutdown =>
      rw [act] at h
      split at h
      · obtain rfl := Option.some.inj h
        exact .single (.request s.pipeline)
      · cases h
  | detach =>
      rw [act] at h
      split at h
      · obtain rfl := Option.some.inj h
        exact .refl
      · cases h
  | tick duration =>
      obtain rfl := Option.some.inj h
      exact .refl
  | check =>
      rw [act] at h
      split at h
      · cases h
      · split at h
        · obtain rfl := Option.some.inj h
          exact .refl
        · split at h <;> (obtain rfl := Option.some.inj h; exact .refl)
  | receive =>
      rw [act] at h
      split at h
      · cases h
      · split at h
        next message rest hch =>
          obtain rfl := Option.some.inj h
          exact take_moves hch _
        · split at h
          · cases h
          · obtain rfl := Option.some.inj h
            exact .refl
  | drain =>
      rw [act] at h
      split at h
      · cases h
      · split at h
        next message rest hch =>
          obtain rfl := Option.some.inj h
          exact take_moves hch _
        · obtain rfl := Option.some.inj h
          exact .refl
  | reply replies =>
      obtain ⟨-, entry, rest, hq, ⟨-, rfl⟩ | ⟨e, -, rfl⟩⟩ := reply_cases h
      · exact deliver_moves hq (s.worker.processItem_queue _ _) (s.worker.processItem_shutdown _ _)
      · exact retry_moves (s.worker.processItem_queue _ _) (s.worker.processItem_shutdown _ _) e
  | wake =>
      rw [act] at h
      split at h
      · split at h
        · obtain rfl := Option.some.inj h
          exact .refl
        · cases h
      · cases h

end DeliverySystem

end Cxdb
