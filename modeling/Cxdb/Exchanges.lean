import Cxdb.AnthropicStreams
import Cxdb.OpenAiStreams

/-!
# Exchanges with a Provider

`provider/mod.rs`: a request and the response to it, by the protocol of the provider. What an
exchange does to a session is one of two things: the history of the request is observed, or the
item that the response makes is appended.

## Main results

* `observe_following`: a history that begins with the observed one makes a turn for each of its
  other items, and for nothing else.
* `about_capture`: an answer makes at most one turn.
-/

namespace Cxdb

inductive ProtocolKind where
  | openAi
  | anthropic
  deriving DecidableEq

inductive ExchangeState where
  | openAi (state : OpenAi.OpenAiExchange)
  | anthropic (state : Anthropic.AnthropicExchange)

variable (serde : SerdeJson)

/-- `prepare_exchange`: the turns of a request, and the state of its exchange. -/
def ProtocolKind.prepareExchange (kind : ProtocolKind) (session : SessionRuntime)
    (exchangeId : String) (body : Except String JsonValue) (artifacts : ArtifactRefs) :
    (List TurnEnvelope × ExchangeState) × SessionRuntime :=
  match kind with
  | .openAi =>
      let ((turns, state), session) :=
        OpenAi.prepareExchange serde session exchangeId body artifacts
      ((turns, .openAi state), session)
  | .anthropic =>
      let ((turns, state), session) :=
        Anthropic.prepareExchange serde session exchangeId body artifacts
      ((turns, .anthropic state), session)

namespace ExchangeState

def finalizeJson (state : ExchangeState) (session : SessionRuntime) (status : ℕ)
    (requestId : Option String) (body : ResponseBody) (artifacts : ArtifactRefs) :
    List TurnEnvelope × SessionRuntime :=
  match state with
  | .openAi state => OpenAi.finalizeJson serde session state status requestId body artifacts
  | .anthropic state => Anthropic.finalizeJson serde session state status requestId body artifacts

def absorbSseFrame (state : ExchangeState) (frame : SseFrame) : ExchangeState :=
  match state with
  | .openAi state => .openAi (state.absorbSseFrame serde frame)
  | .anthropic state => .anthropic (state.absorbSseFrame serde frame)

def finalizeStream (state : ExchangeState) (session : SessionRuntime) (status : ℕ)
    (requestId : Option String) (artifacts : ArtifactRefs) (malformedRemainder : Option String) :
    List TurnEnvelope × SessionRuntime :=
  match state with
  | .openAi state =>
      OpenAi.finalizeStream session state status requestId artifacts malformedRemainder
  | .anthropic state =>
      Anthropic.finalizeStream session state status requestId artifacts malformedRemainder

/-- The exchange after the frames of a stream. -/
def absorbAll (state : ExchangeState) (frames : List SseFrame) : ExchangeState :=
  frames.foldl (·.absorbSseFrame serde) state

theorem absorbAll_openAi (state : OpenAi.OpenAiExchange) (frames : List SseFrame) :
    (ExchangeState.openAi state).absorbAll serde frames =
      .openAi (state.absorbAll serde frames) := by
  induction frames generalizing state with
  | nil => rfl
  | cons frame frames ih => exact ih (state.absorbSseFrame serde frame)

theorem absorbAll_anthropic (state : Anthropic.AnthropicExchange) (frames : List SseFrame) :
    (ExchangeState.anthropic state).absorbAll serde frames =
      .anthropic (state.absorbAll serde frames) := by
  induction frames generalizing state with
  | nil => rfl
  | cons frame frames ih => exact ih (state.absorbSseFrame serde frame)

end ExchangeState

variable {serde}

/-! ### Observing a history -/

/-- What a turn is about, without the model and the reason for the end. -/
def TurnEnvelope.about (turn : TurnEnvelope) : ItemBody :=
  match turn.item.body with
  | .history item => .history (normalizeHistoryItem item)
  | body => body

theorem commonPrefixLen_append (shown rest : List HistoryItem) :
    commonPrefixLen shown (shown ++ rest) = shown.length := by
  induction shown with
  | nil => cases rest <;> rfl
  | cons item shown ih => rw [List.cons_append, commonPrefixLen, if_pos rfl, ih, List.length_cons]

theorem about_historyTurns (sessionId exchangeId : String) (items : List HistoryItem)
    (state : MutableState) :
    (historyTurns sessionId exchangeId items state).1.map TurnEnvelope.about =
      (items.map normalizeHistoryItem).map .history := by
  induction items generalizing state with
  | nil => rfl
  | cons item rest ih =>
      rw [historyTurns]
      simp only [List.map_cons, ih]
      rfl

/-- **A history that begins with the observed one** makes a turn for each of its other items. -/
theorem observe_following {session : SessionRuntime} {history shown rest : List HistoryItem}
    (exchangeId : String) (artifacts : ArtifactRefs)
    (hshown : session.state.observedHistory = shown)
    (hhistory : history.map normalizeHistoryItem = shown ++ rest) :
    (session.observeRequestHistory exchangeId history artifacts).1.map TurnEnvelope.about =
        rest.map .history ∧
      (session.observeRequestHistory exchangeId history artifacts).2.state.observedHistory =
        shown ++ rest := by
  subst hshown
  have hcommon : commonPrefixLen session.state.observedHistory
      (history.map normalizeHistoryItem) = session.state.observedHistory.length := by
    rw [hhistory, commonPrefixLen_append]
  have hrest : (history.drop session.state.observedHistory.length).map normalizeHistoryItem =
      rest := by
    rw [List.map_drop, hhistory, List.drop_left]
  rw [SessionRuntime.observeRequestHistory]
  simp only [hcommon, lt_irrefl, if_false, List.nil_append]
  exact ⟨by rw [about_historyTurns, hrest], hhistory⟩

/-! ### Capturing an answer -/

theorem about_capture (session : SessionRuntime) (exchangeId : String)
    (item : Option HistoryItem) :
    (session.capture exchangeId item).1.map TurnEnvelope.about =
        (item.map normalizeHistoryItem).toList.map .history ∧
      (session.capture exchangeId item).2.state.observedHistory =
        session.state.observedHistory ++ (item.map normalizeHistoryItem).toList := by
  cases item with
  | none => exact ⟨rfl, (List.append_nil _).symm⟩
  | some item => exact ⟨rfl, rfl⟩

end Cxdb
