import Cxdb.Decimal

/-!
# The Session of a Wrapped Child

What `cxtx` keeps of a session: the ordinals of its turns and the history that it has seen.
Every call takes its ordinals and makes its turns under one lock, so that a call is one step
here. A turn's item is kept as what it is built from.

## Main results

* `SessionRuntime.call_ordinals`: a call takes the ordinals that come next, one for each turn.
-/

namespace Cxdb

structure ToolCallRecord where
  callId : String
  name : String
  args : String
  deriving DecidableEq

inductive HistoryItem where
  | userInput (text : String) (files : List String)
  | assistantTurn (text : String) (toolCalls : List ToolCallRecord) (model : Option String)
      (finishReason : Option String)
  | toolResult (callId content : String) (isError : Bool)
  deriving DecidableEq

structure ArtifactRefs where
  requestPath : Option String := none
  responsePath : Option String := none
  streamPath : Option String := none
  deriving DecidableEq

/-- What an item of a conversation is built from. -/
inductive ItemBody where
  | sessionStart (childPid : Option UInt32)
  | sessionEnd (exitCode : Int32) (success : Bool)
  | ingestState (title kind : String) (queueDepth : ℕ) (error : Option String)
  | rewrite (previousHistoryLen newHistoryLen : ℕ) (artifacts : ArtifactRefs)
  | providerError (title message : String) (requestId : Option String)
      (artifacts : ArtifactRefs)
  | history (item : HistoryItem)
  deriving DecidableEq

structure ConversationItem where
  id : String
  body : ItemBody
  deriving DecidableEq

structure TurnEnvelope where
  ordinal : UInt64
  item : ConversationItem
  deriving DecidableEq

/-- What the session's lock guards. -/
structure MutableState where
  nextTurnOrdinal : UInt64
  nextExchangeOrdinal : UInt64
  observedHistory : List HistoryItem
  deriving DecidableEq

structure SessionRuntime where
  sessionId : String
  state : MutableState
  deriving DecidableEq

/-- A session without turns. -/
def freshSession : SessionRuntime where
  sessionId := "s"
  state := { nextTurnOrdinal := 0, nextExchangeOrdinal := 0, observedHistory := [] }

def turnId (sessionId : String) (ordinal : UInt64) (exchangeId : String) : String :=
  sessionId ++ ":" ++ Decimal.print ordinal.toNat ++ ":" ++ exchangeId

/-- The state after `next_turn_ordinal`, which returns the number that it holds then. -/
def nextTurnOrdinal (state : MutableState) : MutableState :=
  { state with nextTurnOrdinal := state.nextTurnOrdinal + 1 }

/-- A turn with the next ordinal. -/
def nextTurn (sessionId exchangeId : String) (body : ItemBody) (state : MutableState) :
    TurnEnvelope × MutableState :=
  let state := nextTurnOrdinal state
  let ordinal := state.nextTurnOrdinal
  ({ ordinal, item := { id := turnId sessionId ordinal exchangeId, body } }, state)

/-! ### Histories -/

/-- The length of the common beginning. -/
def commonPrefixLen : List HistoryItem → List HistoryItem → ℕ
  | l :: left, r :: right => if l = r then commonPrefixLen left right + 1 else 0
  | _, _ => 0

/-- An assistant's turn without its model and the reason for its end. -/
def normalizeHistoryItem : HistoryItem → HistoryItem
  | .assistantTurn text toolCalls _ _ => .assistantTurn text toolCalls none none
  | item => item

/-- The loop over the items of a history that are new. -/
def historyTurns (sessionId exchangeId : String) :
    List HistoryItem → MutableState → List TurnEnvelope × MutableState
  | [], state => ([], state)
  | item :: rest, state =>
      let (turn, state) := nextTurn sessionId exchangeId (.history item) state
      let (turns, state) := historyTurns sessionId exchangeId rest state
      (turn :: turns, state)

namespace SessionRuntime

variable (s : SessionRuntime)

/-- A call that makes one turn. -/
def turn (exchangeId : String) (body : ItemBody) : TurnEnvelope × SessionRuntime :=
  let (turn, state) := nextTurn s.sessionId exchangeId body s.state
  (turn, { s with state })

def sessionStartTurn (childPid : Option UInt32) : TurnEnvelope × SessionRuntime :=
  s.turn "wrapper-session-start" (.sessionStart childPid)

def sessionEndTurn (exitCode : Int32) (success : Bool) : TurnEnvelope × SessionRuntime :=
  s.turn "wrapper-session-end" (.sessionEnd exitCode success)

def ingestDegradedTurn (queueDepth : ℕ) (error : String) : TurnEnvelope × SessionRuntime :=
  s.turn "wrapper-ingest-degraded"
    (.ingestState "ingest_degraded" "warning" queueDepth (some error))

def ingestRecoveredTurn (queueDepth : ℕ) : TurnEnvelope × SessionRuntime :=
  s.turn "wrapper-ingest-recovered" (.ingestState "ingest_recovered" "info" queueDepth none)

def providerErrorTurn (exchangeId title message : String) (requestId : Option String)
    (artifacts : ArtifactRefs) : TurnEnvelope × SessionRuntime :=
  s.turn exchangeId (.providerError title message requestId artifacts)

/-- `append_history_item`. -/
def appendHistoryItem (exchangeId : String) (item : HistoryItem) :
    TurnEnvelope × SessionRuntime :=
  let (turn, state) := nextTurn s.sessionId exchangeId (.history item) s.state
  (turn,
    { s with
      state := { state with
        observedHistory := state.observedHistory ++ [normalizeHistoryItem item] } })

/-- `observe_request_history`: a turn for a rewrite, and one for every new item. -/
def observeRequestHistory (exchangeId : String) (history : List HistoryItem)
    (artifacts : ArtifactRefs) : List TurnEnvelope × SessionRuntime :=
  let previous := s.state.observedHistory
  let normalizedHistory := history.map normalizeHistoryItem
  let prefixLen := commonPrefixLen previous normalizedHistory
  let (rewrites, state) :=
    if prefixLen < previous.length then
      let (turn, state) := nextTurn s.sessionId exchangeId
        (.rewrite previous.length history.length artifacts) s.state
      ([turn], state)
    else ([], s.state)
  let (turns, state) := historyTurns s.sessionId exchangeId (history.drop prefixLen) state
  (rewrites ++ turns,
    { s with state := { state with observedHistory := normalizedHistory } })

end SessionRuntime

/-- The calls that the proxy and the wrapper make. -/
inductive SessionCall where
  | sessionStart (childPid : Option UInt32)
  | sessionEnd (exitCode : Int32) (success : Bool)
  | observeRequestHistory (exchangeId : String) (history : List HistoryItem)
      (artifacts : ArtifactRefs)
  | appendHistoryItem (exchangeId : String) (item : HistoryItem)
  | providerError (exchangeId title message : String) (requestId : Option String)
      (artifacts : ArtifactRefs)
  deriving DecidableEq

/-- The turns of a call, and the session after it. -/
def SessionRuntime.call (s : SessionRuntime) : SessionCall → List TurnEnvelope × SessionRuntime
  | .sessionStart childPid => ([(s.sessionStartTurn childPid).1], (s.sessionStartTurn childPid).2)
  | .sessionEnd exitCode success =>
      ([(s.sessionEndTurn exitCode success).1], (s.sessionEndTurn exitCode success).2)
  | .observeRequestHistory exchangeId history artifacts =>
      s.observeRequestHistory exchangeId history artifacts
  | .appendHistoryItem exchangeId item =>
      ([(s.appendHistoryItem exchangeId item).1], (s.appendHistoryItem exchangeId item).2)
  | .providerError exchangeId title message requestId artifacts =>
      let (turn, s) := s.providerErrorTurn exchangeId title message requestId artifacts
      ([turn], s)

/-! ### Ordinals -/

/-- The turns have the ordinals that follow `n`, and `m` is the last of them. -/
inductive OrdinalsRun : UInt64 → List TurnEnvelope → UInt64 → Prop
  | nil (n : UInt64) : OrdinalsRun n [] n
  | cons {n m : UInt64} {turn : TurnEnvelope} {turns : List TurnEnvelope} :
      turn.ordinal = n + 1 → OrdinalsRun (n + 1) turns m → OrdinalsRun n (turn :: turns) m

theorem nextTurn_ordinals (sessionId exchangeId : String) (body : ItemBody)
    (state : MutableState) :
    OrdinalsRun state.nextTurnOrdinal [(nextTurn sessionId exchangeId body state).1]
      (nextTurn sessionId exchangeId body state).2.nextTurnOrdinal :=
  .cons rfl (.nil _)

theorem historyTurns_ordinals (sessionId exchangeId : String) (items : List HistoryItem)
    (state : MutableState) :
    OrdinalsRun state.nextTurnOrdinal (historyTurns sessionId exchangeId items state).1
      (historyTurns sessionId exchangeId items state).2.nextTurnOrdinal := by
  induction items generalizing state with
  | nil => exact .nil _
  | cons item rest ih =>
      rw [historyTurns]
      exact .cons rfl (ih (nextTurn sessionId exchangeId (.history item) state).2)

/-- **A call takes the ordinals that come next**, one for each of its turns. -/
theorem SessionRuntime.call_ordinals (s : SessionRuntime) (c : SessionCall) :
    OrdinalsRun s.state.nextTurnOrdinal (s.call c).1 (s.call c).2.state.nextTurnOrdinal := by
  cases c with
  | sessionStart | sessionEnd | appendHistoryItem | providerError =>
      exact nextTurn_ordinals _ _ _ _
  | observeRequestHistory exchangeId history artifacts =>
      simp only [SessionRuntime.call, SessionRuntime.observeRequestHistory]
      split
      · rw [List.singleton_append]
        exact .cons rfl (historyTurns_ordinals _ _ _ (nextTurn s.sessionId exchangeId
          (.rewrite s.state.observedHistory.length history.length artifacts) s.state).2)
      · exact historyTurns_ordinals _ _ _ _

/-- Below the end of the counter the ordinals grow one by one. -/
theorem OrdinalsRun.toNat {n m : UInt64} {turns : List TurnEnvelope}
    (h : OrdinalsRun n turns m) (hfit : n.toNat + turns.length < 2 ^ 64) :
    turns.map (fun turn => turn.ordinal.toNat) = List.range' (n.toNat + 1) turns.length ∧
      m.toNat = n.toNat + turns.length := by
  induction h with
  | nil n => simp
  | @cons n m turn turns hturn _ ih =>
      have hsucc : (n + 1).toNat = n.toNat + 1 := by
        rw [UInt64.toNat_add]
        simp at hfit ⊢
        omega
      rw [List.length_cons] at hfit
      obtain ⟨hturns, hm⟩ := ih (by omega)
      refine ⟨?_, by rw [List.length_cons]; omega⟩
      rw [List.map_cons, hturns, List.length_cons, List.range'_succ, hturn, hsucc]

end Cxdb
